import JavaTypes.Proofs.CapturedTypes
import JavaTypes.Proofs.FullErasure

/-!
# Types are below what they are erased to

A comparison of a type with its erasure says yes, captured or not. A declared type is erased to itself or
to a raw type, which is above all that capture leaves of it; an array or a type variable is compared
through the component or the bound. An intersection is compared through a search, which follows its first
bounds as erasure does.

* `Session.RawOf T t r e n`: `r` is raw, and what is left of `t` after capture is found below it.
  A declared type that erasure changes has such an `r` (`ErasesTo.self_or_raw`);
* `Session.ErasesUpward T t`: what is asked of the types that are met when `t` is erased;
* `ErasesTo.found`: the search from a type at the element of its erasure finds something below it;
* `ErasesTo.certain_subtype`: a type is below its erasure without capture;
* `erasure_aboveReferences`: neither comparison says no.
-/

namespace JavaTypes

open Action Equality Filter Relation

namespace Session

variable {S T : Session} {p : Premises} {k fuel : Nat} {d e : ElementId} {b : Bool}
  {r s t t' t₀ u v w w' x : TypeId} {m n : TypeNode}

/-! ### What is left of a type -/

theorem certain_of_eventually {x : Nat → Query Bool}
    (hx : ∀ {m n : Nat} [Fact (m ≤ n)], Settles (x m) (x n))
    (h : ∀ᶠ k in atTop, Known (x k) T true) : Certain (x k) T := by
  intro b hb
  obtain ⟨enough, henough⟩ := eventually_atTop.1 h
  have hb : Known (x (max k enough)) T b := hb.grow le_rfl
  exact hb.unique (henough _ (le_max_right k enough))

/-- What is left of a declared type is declared by its element, and so is the type around it. -/
theorem Narrows.declared (h : T.Narrows t t') (ht : T.Shows t u n) (hn : n.kind = .declared) :
    ∃ n', T.Shows t' t' n' ∧ n'.kind = .declared ∧ n'.element = n.element ∧
      ∀ {w m}, T.Shows n.enclosingOrNone w m → m.kind = .declared →
        ∃ x m', T.Shows n'.enclosingOrNone x m' ∧ m'.kind = .declared ∧ T.Narrows w x := by
  cases h with
  | stays ht' =>
    cases ht.symm.trans ht'
    exact ⟨n, ht.self, hn, rfl, fun hw hm => ⟨_, _, hw, hm, .stays hw.self⟩⟩
  | inside h hinstance _ _ houter =>
    cases ht.symm.trans h.node
    obtain ⟨n', ht', hkind', hd', -, -, henclosing⟩ := hinstance.enclosing
    refine ⟨n', ht', hkind', hd'.trans h.named.symm, fun hw hm => ?_⟩
    cases Eq.trans (.symm h.around) hw
    obtain ⟨m', houter'⟩ := houter.node
    have hm' := (houter.kind_eq hw.self houter').trans hm
    rcases henclosing with heq | ⟨-, v, y, hy, hnone⟩
    · exact ⟨_, m', by rw [heq]; exact houter', hm', houter⟩
    · cases houter'.symm.trans hy
      rw [hm'] at hnone
      cases hnone

/-! ### Raw types -/

/-- The type `r` is declared by the element `e`. What is left of `t` after capture is declared by `e`, and
is below `r` where a search finds it. -/
structure RawOf (T : Session) (t r : TypeId) (e : ElementId) (n : TypeNode) : Prop where
  node : T.Shows r r n
  kind : n.kind = .declared
  element : Known (onStore n.elementOf) T (some e)
  below : ∀ {t'}, T.Narrows t t' → ∃ m, T.Shows t' t' m ∧ m.kind = .declared ∧
    Known (onStore m.elementOf) T (some e) ∧
      ∀ {p k}, Certain ((judgements k).belowFound p r n (some t')) T

theorem RawOf.certain_belowByKind (h : T.RawOf t r e n) (ht' : T.Narrows t t') :
    Certain ((judgements k).belowByKind p false t' r n) T := by
  obtain ⟨m, hm, hkind, helement, hbelow⟩ := h.below ht'
  exact certain_belowByKind_found hm (.inl hkind) h.kind fun hown =>
    ⟨e, hown.unique h.element, fun hr => ⟨t', eq_of_known_asSuperFrom hm hkind helement hr, hbelow⟩⟩

section Declared

variable (habsent : T.Shows TypeId.none TypeId.none { shape := .noType .none })

include habsent

theorem certain_subtype_narrowed (h : r = u ∨ ∃ e n, T.RawOf t r e n) (ht : T.Shows t u m)
    (ht' : T.Narrows t t') : Certain ((judgements k).subtype p false t' r) T := by
  rcases h with rfl | ⟨e, n, h⟩
  · exact certain_subtype_to_node ht (certain_of_eventually inferInstance
      (ht'.eventually_subtype habsent))
  · refine certain_subtype_nodes fun {k u' m' v n'} hu hr _ => ?_
    obtain ⟨x, hx⟩ := ht'.node
    cases hx.symm.trans hu
    cases h.node.symm.trans hr
    have hkind : ∀ kind, kind ≠ .declared → n.kind ≠ kind := by
      rintro kind hne rfl
      exact hne h.kind
    exact certain_belowNode_of_kind h.node (hkind _ nofun) (hkind _ nofun) (hkind _ nofun)
      fun _ => h.certain_belowByKind ht'

variable (hT : T.DerivesShapes)

include hT

/-- The raw type inside what the type around `t` is erased to. -/
theorem rawOf_of_rawIn (ht : T.Shows t u n) (hn : n.kind = .declared) (hd : n.element = some d)
    (hw : T.Shows n.enclosingOrNone w m) (hr : Known (rawIn w' d) T r)
    (hinner : m.kind = .declared → ∀ {x p k}, T.Narrows w x →
      Certain ((judgements k).subtype p false x w') T)
    (houter : m.kind ≠ .declared → w' = w) : ∃ e n', T.RawOf t r e n' := by
  obtain ⟨outer, e, z, houter', hz, hr⟩ := known_rawIn.1 hr
  have hnode := hT _ r (lookup_of_derive hr) (by rintro ⟨⟩)
  refine ⟨e, _, hnode, rfl, known_elementOf_some.2 ⟨e, z, rfl, Store.peekElement_self hz⟩, fun ht' => ?_⟩
  obtain ⟨m', hm', hkind', helement, haround⟩ := ht'.declared ht hn
  refine ⟨m', hm', hkind', known_elementOf_some.2 ⟨d, z, helement.trans hd, hz⟩,
    certain_belowFound_of hm' (fun hne => absurd hkind' hne) (fun _ => .inl rfl) fun _ =>
      certain_enclosingBelow_of fun {v y} hy hdeclared => ?_⟩
  obtain ⟨v', y', hy', rfl⟩ := known_unlessNone.1 houter'
  split at hy
  · cases habsent.symm.trans hy
    cases hdeclared
  · next hsome =>
    rw [if_neg hsome]
    have hm : m.kind = .declared := by
      by_contra hm
      obtain rfl := houter hm
      cases hw.self.symm.trans hy
      exact hm hdeclared
    obtain ⟨x, x', hx, hx', hnarrows⟩ := haround hw hm
    refine ⟨fun hw' => ?_, certain_subtype_of_peek hx (hinner hm hnarrows)⟩
    cases hx.symm.trans hw'
    exact hx'

/-- A declared type is erased to itself, or to a raw type. -/
theorem ErasesTo.self_or_raw (h : T.ErasesTo t r) (ht : T.Shows t u n) (hn : n.kind = .declared) :
    r = u ∨ ∃ e m, T.RawOf t r e m := by
  induction h generalizing u n with
  | marked ht' _ _ =>
    cases ht.symm.trans ht'
    exact .inl rfl
  | inner ht' _ _ hd hw hm _ _ hr ih =>
    cases ht.symm.trans ht'
    split at hr
    · exact .inl (known_pure.1 hr)
    · exact .inr (rawOf_of_rawIn habsent hT ht hn hd hw hr
        (fun _ => certain_subtype_narrowed habsent (ih (Store.peekType_self hw) hm)
          (Store.peekType_self hw)) fun hne => absurd hm hne)
  | outer ht' _ _ hd hw hm _ hr =>
    cases ht.symm.trans ht'
    split at hr
    · exact .inl (known_pure.1 hr)
    · exact .inr (rawOf_of_rawIn habsent hT ht hn hd hw hr (fun hm' => absurd hm' hm) fun _ => rfl)
  | stays ht' hs =>
    cases ht.symm.trans ht'
    obtain ⟨x, hx⟩ := TypeNode.shape_of_declared hn
    rw [hx] at hs
    cases hs
  | array ht' hs _ _ _ | typeVar ht' hs _ _ | first ht' hs _ | unbounded ht' hs _ =>
    cases ht.symm.trans ht'
    cases (congrArg TypeShape.kind hs).symm.trans hn
  | other ht' hs _ =>
    cases ht.symm.trans ht'
    rw [hn] at hs
    rcases hs with hs | hs
    all_goals cases hs

end Declared

/-! ### The types on the way -/

/-- The type is a variable that the element defines. -/
def VariableOf (T : Session) (t : TypeId) (e : ElementId) : Prop :=
  ∃ u n, T.store.peekType t = some (u, n) ∧ n.kind = .typeVar ∧ Known (onStore n.elementOf) T (some e)

/-- What is asked of the types that are met when a type is erased. The element of a declared one defines no
variable among them. An intersection is erased to a declared or an error type, and the variables among its
first bounds are of different elements. One without bounds is erased to the type that `Object` declares. -/
structure ErasesUpward (T : Session) (t : TypeId) : Prop extends T.MeetsPlaces t where
  apart : ∀ {x y v m e}, T.Meets t x → T.Meets t y ∨ Known objectType T y →
    T.store.peekType y = some (v, m) → m.kind = .declared → Known (onStore m.elementOf) T (some e) →
      ¬ T.VariableOf x e
  intersections : ∀ {x v m bs r w y}, T.Meets t x → T.store.peekType x = some (v, m) →
    m.shape = .intersection bs → T.Erases x r → T.store.peekType r = some (w, y) →
      y.kind = .declared ∨ y.kind = .error
  distinct : ∀ {x v m bs y z e}, T.Meets t x → T.store.peekType x = some (v, m) →
    m.shape = .intersection bs → ReflTransGen (T.ErasesThrough .bound) x y →
      TransGen (T.ErasesThrough .bound) y z → T.VariableOf y e → ¬ T.VariableOf z e
  object : ∀ {x v m o w y own}, T.Meets t x → T.store.peekType x = some (v, m) →
    m.shape = .intersection [] → Known objectType T o → T.store.peekType o = some (w, y) →
      Known (onStore y.elementOf) T own → ∃ e, own = some e ∧ T.IsObject e

/-- A type that erasure applies to, or an intersection. -/
def HasErasure (T : Session) (t : TypeId) : Prop :=
  ∀ u n, T.store.peekType t = some (u, n) → n.kind.hasErasure = true ∨ n.kind = .intersection

theorem ErasesUpward.part {part : ErasedPart} (H : T.ErasesUpward t₀) (ht : T.Meets t₀ t)
    (h : T.ErasesThrough part t x) : T.Meets t₀ x ∧ T.HasErasure x :=
  ⟨ht.tail ⟨part, h⟩, fun _ _ hx => ErasedPart.hasErasure_or (H.kinds ht h hx)⟩

theorem HasErasure.not_other (h : T.HasErasure t) (ht : T.Shows t u n)
    (hn : n.kind = .executable ∨ n.kind = .wildcard) : False := by
  rcases h u n ht with hk | hk
  all_goals
    rcases hn with hn | hn
    all_goals rw [hn] at hk; cases hk

theorem certain_belowFound_self (hx : T.Shows x u n) (hn : n.kind = .declared) :
    Certain ((judgements k).belowFound p u n (some x)) T := by
  refine certain_belowFound_of hx (fun hne => absurd hn hne) (fun _ => .inr ?_) fun _ => ?_
  · exact certain_containsArguments_of hx.self hx fun q =>
      List.forall₂_same.2 fun a _ => certain_containsType_self a
  · refine certain_enclosingBelow_of fun hy hkind => ⟨fun hy' => ?_, certain_subtype_of_node hy hy⟩
    cases hy.symm.trans hy'
    exact hkind

/-- A search from the type for the element `own` finds something below the declared type `v`. None of the
variables that are met is of that element. -/
def FoundBelow (T : Session) (t₀ : TypeId) (own : Option ElementId) (v : TypeId) (n : TypeNode)
    (seen : List ElementId) (t : TypeId) : Prop :=
  ∃ e, own = some e ∧ (∀ z, T.Meets t₀ z → ¬ T.VariableOf z e) ∧
    ∀ {fuel q}, Known (asSuperFrom e fuel seen t) T q →
      ∃ x, q = some x ∧ ∀ {p k}, Certain ((judgements k).belowFound p v n (some x)) T

/-- No variable among the first bounds is of an element that was seen, or of that of an earlier one. -/
def FreshBounds (T : Session) (t : TypeId) (seen : List ElementId) : Prop :=
  (∀ a ∈ seen, ∀ z, ReflTransGen (T.ErasesThrough .bound) t z → ¬ T.VariableOf z a) ∧
    ∀ y z a, ReflTransGen (T.ErasesThrough .bound) t y → TransGen (T.ErasesThrough .bound) y z →
      T.VariableOf y a → ¬ T.VariableOf z a

theorem FreshBounds.step {c : TypeId} {seen seen' : List ElementId} (h : T.FreshBounds t seen)
    (hstep : T.ErasesThrough .bound t c) (hsub : ∀ a ∈ seen', a ∈ seen ∨ T.VariableOf t a) :
    T.FreshBounds c seen' := by
  refine ⟨fun a ha z hz => ?_, fun y z a hy => h.2 y z a (.head hstep hy)⟩
  rcases hsub a ha with ha | ha
  · exact h.1 a ha z (.head hstep hz)
  · exact h.2 t z a .refl (.head' hstep hz) ha

section Upward

variable (habsent : T.Shows TypeId.none TypeId.none { shape := .noType .none }) (hT : T.DerivesShapes)
  (H : T.ErasesUpward t₀)

include habsent hT H

theorem ErasesTo.kind_ne (h : T.ErasesTo t r) (hmeets : T.Meets t₀ t) (hkind : T.HasErasure t)
    (hr : T.Shows r v n) :
    n.kind ≠ .intersection ∧ n.kind ≠ .wildcard ∧ n.kind ≠ .typeVar := by
  have hdeclared : ∀ {t r u m}, T.ErasesTo t r → T.Shows t u m → m.kind = .declared → T.Shows r v n →
      n.kind ≠ .intersection ∧ n.kind ≠ .wildcard ∧ n.kind ≠ .typeVar := by
    intro t r u m h ht hm hr
    have hn : n.kind = .declared := by
      rcases h.self_or_raw habsent hT ht hm with rfl | ⟨e, m', hraw⟩
      · cases ht.self.symm.trans hr
        exact hm
      · cases hraw.node.symm.trans hr
        exact hraw.kind
    rw [hn]
    decide
  induction h with
  | stays ht hn =>
    cases (Store.peekType_self ht).symm.trans hr
    obtain ⟨shape, as⟩ := n
    cases shape with
    | declared _ | executable _ | intersection _ | typeVar _ | wildcard _ => cases hn
    | _ => exact ⟨nofun, nofun, nofun⟩
  | marked ht hn hstays => exact hdeclared (.marked ht hn hstays) ht hn hr
  | inner ht hn hfree hd hw hm hw' hplain hr' _ =>
    exact hdeclared (.inner ht hn hfree hd hw hm hw' hplain hr') ht hn hr
  | outer ht hn hfree hd hw hm hplain hr' =>
    exact hdeclared (.outer ht hn hfree hd hw hm hplain hr') ht hn hr
  | array ht hn hc hc' hr' _ =>
    have hk : n.kind = .array := by
      split at hr'
      · cases known_pure.1 hr'
        cases (Store.peekType_self ht).symm.trans hr
        exact congrArg TypeShape.kind hn
      · cases (hT _ _ (lookup_of_derive hr') (by rintro ⟨⟩)).symm.trans hr
        rfl
    rw [hk]
    decide
  | typeVar ht hn hb _ ih =>
    obtain ⟨hmeets, hkind⟩ := H.part hmeets (.upper ht hn hb)
    exact ih hmeets hkind hr
  | first ht hn _ ih =>
    obtain ⟨hmeets, hkind⟩ := H.part hmeets (.first ht hn)
    exact ih hmeets hkind hr
  | unbounded ht hn hr' =>
    rcases H.intersections hmeets ht hn (ErasesTo.unbounded ht hn hr').erases hr with hn | hn
    all_goals rw [hn]; decide
  | other ht hn _ => exact (hkind.not_other ht hn).elim

/-! ### Searches -/

section Found

variable {own : Option ElementId} (hn : n.kind = .declared) (hown : Known (onStore n.elementOf) T own)

include hn hown

theorem ErasesTo.found_declared {seen : List ElementId} (h : T.ErasesTo t r) (ht : T.Shows t u m)
    (hm : m.kind = .declared) (hmeets : T.Meets t₀ t) (hr : T.Shows r v n) :
    T.FoundBelow t₀ own v n seen t := by
  rcases h.self_or_raw habsent hT ht hm with rfl | ⟨e, m', hraw⟩
  · cases ht.self.symm.trans hr
    cases own with
    | none => exact absurd (known_elementOf_none.1 hown) (H.elements hmeets ht hn)
    | some e =>
      exact ⟨e, rfl, fun z hz => H.apart hz (.inl hmeets) ht hn hown, fun hq =>
        ⟨_, eq_of_known_asSuperFrom ht hn hown hq, certain_belowFound_self ht.self hn⟩⟩
  · cases hraw.node.symm.trans hr
    obtain rfl := hown.unique hraw.element
    obtain ⟨x, hx, -, helement, hbelow⟩ := hraw.below (.stays ht)
    cases ht.self.symm.trans hx
    exact ⟨e, rfl, fun z hz => H.apart hz (.inl hmeets) ht hm helement, fun hq =>
      ⟨_, eq_of_known_asSuperFrom ht hm helement hq, hbelow⟩⟩

omit habsent hT H hn hown in
/-- A search at a variable goes on at its bound, and has seen the element of the variable then. -/
theorem foundBelow_typeVar {c : TypeId} {y : TypeVariable} {seen : List ElementId}
    (ht : T.Shows t u m) (hm : m.shape = .typeVar y) (hb : Known (upperBound u) T c)
    (hmeets : T.Meets t₀ t) (hfresh : T.FreshBounds t seen)
    (hbound : ∀ seen', T.FreshBounds c seen' → T.FoundBelow t₀ own v n seen' c) :
    T.FoundBelow t₀ own v n seen t := by
  have hstep : T.ErasesThrough .bound t c := .upper ht hm hb
  have hvar : ∀ {a}, Known (onStore m.elementOf) T (some a) → T.VariableOf t a := fun ha =>
    ⟨u, m, ht, congrArg TypeShape.kind hm, ha⟩
  obtain ⟨e, rfl, hfree, -⟩ := hbound seen (hfresh.step hstep fun a ha => .inl ha)
  refine ⟨e, rfl, hfree, fun {fuel q} hq => ?_⟩
  obtain ⟨fuel, u', m', rfl, ht', hq⟩ := node_of_known_asSuperFrom hq
  cases ht.symm.trans ht'
  rcases cases_of_known_asSuperNode_typeVar hm hq with
    ⟨he, -⟩ | ⟨a, ha, helement, -⟩ | ⟨c', seen', hc', hq, hsub⟩
  · exact absurd (hvar he) (hfree t hmeets)
  · exact absurd (hvar helement) (hfresh.1 a ha t .refl)
  · cases hc'.unique hb
    obtain ⟨e', heq, -, hfound⟩ :=
      hbound seen' (hfresh.step hstep fun a ha => (hsub a ha).imp_right hvar)
    cases heq
    exact hfound hq

/-- A search at the element of a declared type that a type is erased to finds something below it, if it
has seen none of the elements of variables among the first bounds. -/
theorem ErasesTo.found (h : T.ErasesTo t r) (hr : T.Shows r v n) : ∀ seen, T.Meets t₀ t →
    T.HasErasure t → T.FreshBounds t seen → T.FoundBelow t₀ own v n seen t := by
  induction h with
  | stays ht hs =>
    cases (Store.peekType_self ht).symm.trans hr
    obtain ⟨x, hx⟩ := TypeNode.shape_of_declared hn
    rw [hx] at hs
    cases hs
  | marked ht hm hstays =>
    exact fun _ hmeets _ _ =>
      ErasesTo.found_declared habsent hT H hn hown (.marked ht hm hstays) ht hm hmeets hr
  | inner ht hm hfree hd hw hm' hw' hplain hr' _ =>
    exact fun _ hmeets _ _ => ErasesTo.found_declared habsent hT H hn hown
      (.inner ht hm hfree hd hw hm' hw' hplain hr') ht hm hmeets hr
  | outer ht hm hfree hd hw hm' hplain hr' =>
    exact fun _ hmeets _ _ => ErasesTo.found_declared habsent hT H hn hown
      (.outer ht hm hfree hd hw hm' hplain hr') ht hm hmeets hr
  | array ht hm hc hc' hr' _ =>
    split at hr'
    · cases known_pure.1 hr'
      cases (Store.peekType_self ht).symm.trans hr
      rw [TypeNode.kind, hm] at hn
      cases hn
    · cases (hT _ _ (lookup_of_derive hr') (by rintro ⟨⟩)).symm.trans hr
      cases hn
  | typeVar ht hm hb _ ih =>
    intro seen hmeets hkind hfresh
    obtain ⟨hmeets', hkind'⟩ := H.part hmeets (.upper ht hm hb)
    exact foundBelow_typeVar ht hm hb hmeets hfresh fun seen' => ih hr seen' hmeets' hkind'
  | @first t u c r m bs ht hm _ ih =>
    intro seen hmeets hkind hfresh
    have hstep : T.ErasesThrough .bound t c := .first ht hm
    obtain ⟨hmeets', hkind'⟩ := H.part hmeets hstep
    obtain ⟨e, rfl, hfree, hfound⟩ := ih hr seen hmeets' hkind' (hfresh.step hstep fun a ha => .inl ha)
    refine ⟨e, rfl, hfree, fun {fuel q} hq => ?_⟩
    obtain ⟨fuel, u', m', rfl, ht', hq⟩ := node_of_known_asSuperFrom hq
    cases ht.symm.trans ht'
    obtain ⟨found, hsearch, hcases⟩ := cases_of_known_asSuperNode_intersection hm hq
    rcases cases_of_known_firstFound hsearch with ⟨x, hx, rfl⟩ | ⟨hnone, -⟩
    · obtain ⟨-, rfl⟩ := hcases.resolve_right fun h => by cases h.1
      exact hfound hx
    · obtain ⟨x, hx, -⟩ := hfound hnone
      cases hx
  | @unbounded t u r m ht hm hr' =>
    intro seen hmeets _ _
    obtain ⟨e, rfl, hobject⟩ := H.object hmeets ht hm hr' hr hown
    refine ⟨e, rfl, fun z hz => H.apart hz (.inr hr') hr hn hown, fun {fuel q} hq => ?_⟩
    obtain ⟨fuel, u', m', rfl, ht', hq⟩ := node_of_known_asSuperFrom hq
    cases ht.symm.trans ht'
    obtain ⟨found, hsearch, hcases⟩ := cases_of_known_asSuperNode_intersection hm hq
    obtain rfl := known_pure.1 hsearch
    have himplicit := (hcases.resolve_left fun h => by cases h.1).2
    rcases known_implicitObject himplicit with ⟨x, rfl, -, hx⟩ | ⟨-, hne⟩
    · cases hx.unique hr'
      exact ⟨_, rfl, certain_belowFound_self hr hn⟩
    · exact absurd hobject hne
  | other ht hm _ => exact fun _ _ hkind => (hkind.not_other ht hm).elim

end Found

/-! ### Comparisons without capture -/

/-- A type is below what it is erased to. -/
theorem ErasesTo.certain_subtype (h : T.ErasesTo t r) : ∀ {p k}, T.Meets t₀ t → T.HasErasure t →
    Certain ((judgements k).subtype p false t r) T := by
  have hdeclared : ∀ {t r u m p k}, T.ErasesTo t r → T.Shows t u m → m.kind = .declared →
      Certain ((judgements k).subtype p false t r) T := fun h ht hm =>
    certain_subtype_of_peek ht
      (certain_subtype_narrowed habsent (h.self_or_raw habsent hT ht hm) ht (.stays ht))
  -- An intersection is compared with a declared type by a search.
  have hinter : ∀ {t r u m bs p k}, T.ErasesTo t r → T.Shows t u m → m.shape = .intersection bs →
      T.Meets t₀ t → T.HasErasure t → Certain ((judgements k).subtype p false t r) T := by
    intro t r u m bs p k h ht hm hmeets hkind
    refine certain_subtype_nodes fun {k u' m' v n} ht' hr _ => ?_
    cases ht.symm.trans ht'
    obtain ⟨hne, hwild, hvar⟩ := h.kind_ne habsent hT H hmeets hkind hr
    refine certain_belowNode_of_kind hr.self hne hwild hvar fun herror => ?_
    have hn := (H.intersections hmeets ht hm h.erases hr).resolve_right herror
    refine certain_belowByKind_found ht.self (.inr (congrArg TypeShape.kind hm)) hn fun hown => ?_
    obtain ⟨e, rfl, -, hfound⟩ := h.found habsent hT H hn hown hr [] hmeets hkind
      ⟨nofun, fun y z a hy => H.distinct hmeets ht hm hy⟩
    refine ⟨e, rfl, fun {fuel q} hq => ?_⟩
    obtain ⟨x, rfl, hx⟩ := hfound (known_asSuperFrom_of_node ht hq)
    exact ⟨x, rfl, hx⟩
  induction h with
  | stays ht _ => exact fun _ _ => certain_subtype_of_node ht (Store.peekType_self ht)
  | marked ht hm hstays => exact fun _ _ => hdeclared (.marked ht hm hstays) ht hm
  | inner ht hm hfree hd hw hm' hw' hplain hr _ =>
    exact fun _ _ => hdeclared (.inner ht hm hfree hd hw hm' hw' hplain hr) ht hm
  | outer ht hm hfree hd hw hm' hplain hr =>
    exact fun _ _ => hdeclared (.outer ht hm hfree hd hw hm' hplain hr) ht hm
  | @array t u c v c' r m n ht hn hc hc' hr ih =>
    intro p k hmeets _
    obtain ⟨hmeets, hkind⟩ := H.part hmeets (.component ht hn)
    split at hr
    · cases known_pure.1 hr
      exact certain_subtype_of_node ht (Store.peekType_self ht)
    · next hne =>
      have hnode := hT _ r (lookup_of_derive hr) (by rintro ⟨⟩)
      refine certain_subtype_of_peek ht (certain_subtype_array (Store.peekType_self ht) hn hnode rfl
        (fun v' y hy => ?_) (ih hmeets hkind))
      -- A primitive component stays as it is.
      cases Eq.trans (.symm hc) hy
      by_contra hprimitive
      refine hne (hc'.erases.unique (ErasesTo.stays hc ?_).erases)
      obtain ⟨shape, as⟩ := m
      cases shape <;> first | rfl | cases hprimitive rfl
  | typeVar ht hn hb hc ih =>
    intro p k hmeets _
    obtain ⟨hmeets, hkind⟩ := H.part hmeets (.upper ht hn hb)
    refine certain_subtype_nodes fun {k u' m' v n'} ht' hr _ => ?_
    cases ht.symm.trans ht'
    obtain ⟨hne, hwild, hvar⟩ := hc.kind_ne habsent hT H hmeets hkind hr
    exact certain_belowNode_typeVar (Store.peekType_self ht) (congrArg TypeShape.kind hn) hb hne
      (fun l => not_standsFor hr.self hwild (isCapture_eq_false hvar))
      (certain_subtype_to_node hr (ih hmeets hkind))
  | first ht hm hr _ => exact hinter (.first ht hm hr) ht hm
  | unbounded ht hm hr => exact hinter (.unbounded ht hm hr) ht hm
  | other ht hm _ => exact fun _ hkind => (hkind.not_other ht hm).elim

end Upward

/-! ### Comparisons with what a type is erased to -/

/-- Neither comparison of a type with its erasure says no. -/
theorem erasure_aboveReferences {f : Nat}
    (habsent : S.store.peekType TypeId.none = some (TypeId.none, { shape := .noType .none }))
    (hhook : S.hooks.isSubtype t r = none) (herasure : S.hooks.erasure t = none)
    (hT : T.DerivesShapes) (H : T.ErasesUpward t) (he : S.Answered (erasure f t) r)
    (hrun : isSubtype fuel t r S = (.ok b, T) ∨ isSubtypeNoCapture fuel t r S = (.ok b, T)) :
    b = true := by
  have hle := le_of_comparison hrun
  have habsent' : T.Shows TypeId.none TypeId.none { shape := .noType .none } :=
    peekType_mono hle.store habsent
  obtain ⟨herases, u, m, ht, hm⟩ := cases_of_known_erasure (by rw [hle.hooks]; exact herasure)
    (he.known.mono hle)
  have h := erasesTo_iff.2 herases
  have hkind : T.HasErasure t := fun u' m' ht' => by
    cases ht.symm.trans ht'
    exact Or.inl hm
  have hbelow : ∀ {p k}, Certain ((judgements k).subtype p false t r) T := fun {_ _} =>
    h.certain_subtype habsent' hT H .refl hkind
  refine eq_true_of_comparison hhook hrun (h.kind_ne habsent' hT H .refl hkind) (fun ht' hunion => ?_)
    hbelow fun {k u' m' v n t' S₁ S₂} ht' hv herror hsame hS₁ hcapture hS₂ => ?_
  · cases ht.symm.trans ht'
    rw [hunion] at hm
    cases hm
  cases ht.symm.trans ht'
  by_cases hdeclared : m.kind = .declared
  · rcases h.self_or_raw habsent' hT ht hdeclared with rfl | ⟨e, n', hraw⟩
    · cases ht.self.symm.trans hv
      exact absurd (certain_sameType_self _ false hsame) Bool.false_ne_true
    · cases hraw.node.symm.trans hv
      obtain ⟨hnarrows, -⟩ := narrows_of_capture (peekType_mono hS₁.store habsent) hcapture
      exact hraw.certain_belowByKind (.of_peek ht (hnarrows.mono hS₂))
  · obtain ⟨hne, hwild, hvar⟩ := h.kind_ne habsent' hT H .refl hkind hv
    obtain ⟨u', m', n', hu', -, ⟨rfl, -⟩ | ⟨hk, -⟩⟩ := node_of_capture hcapture
    all_goals cases ht.self.symm.trans (hu'.mono hS₂)
    · exact certain_belowByKind_of_subtype ht hv hne hwild hvar herror hsame hbelow
    · exact absurd hk hdeclared

/-- There is a class `Box<E>`. A type variable, at 23, is bounded by an intersection of `Cloneable` and
another type variable, which is bounded by `Box<?>`. -/
def boundedBoxes : Session :=
  ofNodes
    [.ofClass 3 [18], .variableOf 4, { shape := .wildcard {} }, .ofClass 3 [19],
     { shape := .typeVar { element := some ⟨5⟩, upper := some ⟨20⟩ } },
     { shape := .intersection [⟨21⟩, ⟨15⟩] },
     { shape := .typeVar { element := some ⟨6⟩, upper := some ⟨22⟩ } }]
    [.ofType "Box" 17 .plain { typeParameters := [⟨4⟩] }, .parameter "E" 18 3,
     { name := some "U", type := some ⟨21⟩, detail := .typeParameter },
     { name := some "T", type := some ⟨23⟩, detail := .typeParameter }]

theorem erasesUpward_boundedBoxes (hle : boundedBoxes ≤ T) (h : T.Erases ⟨23⟩ ⟨24⟩)
    (hraw : T.Shows ⟨24⟩ v n) (hn : n.kind = .declared) : T.ErasesUpward ⟨23⟩ := by
  let ws : List TypeId := [⟨23⟩, ⟨22⟩, ⟨21⟩, ⟨20⟩, TypeId.none]
  have hlists : boundedBoxes.listsErasable ws = true := by decide +kernel
  have hknown : Known wellKnown boundedBoxes languageClasses := rfl
  have hobject : boundedBoxes.Shows ⟨14⟩ ⟨14⟩ { shape := .declared { element := some ⟨0⟩ } } := rfl
  have hvar : boundedBoxes.Shows ⟨23⟩ ⟨23⟩
    { shape := .typeVar { element := some ⟨6⟩, upper := some ⟨22⟩ } } := rfl
  have hself : ∀ d ∈ [⟨0⟩, ⟨3⟩, ⟨5⟩, ⟨6⟩],
      (boundedBoxes.store.peekElement d).map Prod.fst = some d := by decide +kernel
  have hvars : ∀ x ∈ ws, ∀ y ∈ boundedBoxes.store.peekType x, ∀ d ∈ y.2.element,
      d ∈ [⟨0⟩, ⟨3⟩, ⟨5⟩, ⟨6⟩] ∧ (y.2.kind = .declared → d = ⟨3⟩) ∧
        (y.2.kind = .typeVar → x = ⟨21⟩ ∧ d = ⟨5⟩ ∨ x = ⟨23⟩ ∧ d = ⟨6⟩) := by decide +kernel
  have hparts : ∀ x ∈ ws, ∀ y ∈ boundedBoxes.store.peekType x, ∀ p ∈ erasedParts y.2,
      p.2.index < x.index := by decide +kernel
  have hinter : ∀ x ∈ ws, ∀ y ∈ boundedBoxes.store.peekType x, y.2.kind = .intersection →
      x = ⟨22⟩ := by decide +kernel
  generalize boundedBoxes = S at *
  have H := erasable_of_listsErasable hlists hle (t := ⟨23⟩) (by simp [ws])
  have hnode : ∀ {x u m}, T.Meets ⟨23⟩ x → T.Shows x u m → x ∈ ws ∧ S.Shows x u m := by
    intro x u m hx hu
    have hmem := mem_of_meets hlists hle (by simp [ws]) hx
    obtain ⟨v, n, hv, -⟩ := node_of_listsErasable hlists le_rfl hmem
    cases (hv.mono hle).symm.trans hu
    exact ⟨hmem, hv⟩
  have helement : ∀ {m : TypeNode} {e}, Known (onStore m.elementOf) T (some e) →
      ∃ d, m.element = some d ∧ (d ∈ [⟨0⟩, ⟨3⟩, ⟨5⟩, ⟨6⟩] → e = d) := fun {m e} he => by
    obtain ⟨d, z, hd, hz⟩ := known_elementOf_some.1 he
    refine ⟨d, hd, fun hmem => ?_⟩
    obtain ⟨⟨c, y⟩, hc, rfl⟩ := Option.map_eq_some_iff.1 (hself d hmem)
    cases (peekElement_mono hle.store hc).symm.trans hz
    rfl
  have hvariable : ∀ {x e}, T.Meets ⟨23⟩ x → T.VariableOf x e →
      x = ⟨21⟩ ∧ e = ⟨5⟩ ∨ x = ⟨23⟩ ∧ e = ⟨6⟩ := by
    rintro x e hx ⟨u, m, hu, hm, he⟩
    obtain ⟨hmem, hu⟩ := hnode hx hu
    obtain ⟨d, hd, hed⟩ := helement he
    obtain ⟨hlisted, -, hvars⟩ := hvars x hmem _ hu d hd
    exact hed hlisted ▸ hvars hm
  -- Bounds have smaller handles, so no variable is among its own bounds.
  have hchain : ∀ {y z}, T.Meets ⟨23⟩ y → TransGen (T.ErasesThrough .bound) y z →
      T.Meets ⟨23⟩ z ∧ z.index < y.index := by
    have hless : ∀ {y z}, T.Meets ⟨23⟩ y → T.ErasesThrough .bound y z → z.index < y.index := by
      intro y z hy hyz
      have hmem := mem_of_meets hlists hle (by simp [ws]) hy
      obtain ⟨u, m, hu, -, -, hupper, -⟩ := node_of_listsErasable hlists hle hmem
      rcases hyz.mem_erasedParts hu hupper with ⟨hpart, -⟩ | hz
      · cases hpart
      · exact hparts y hmem _ (hnode hy hu).2 _ hz
    intro y z hy hyz
    induction hyz with
    | single h => exact ⟨hy.tail ⟨_, h⟩, hless hy h⟩
    | tail _ h ih => exact ⟨ih.1.tail ⟨_, h⟩, (hless ih.1 h).trans ih.2⟩
  refine ⟨H.toMeetsPlaces, ?_, ?_, ?_, ?_⟩
  · intro x y v m e hx hy hv hm he hxe
    obtain ⟨d, hd, hed⟩ := helement he
    have hother : e = ⟨3⟩ ∨ e = ⟨0⟩ := by
      rcases hy with hy | hy
      · obtain ⟨hmem, hv⟩ := hnode hy hv
        obtain ⟨hlisted, hdeclared, -⟩ := hvars y hmem _ hv d hd
        exact .inl ((hed hlisted).trans (hdeclared hm))
      · obtain ⟨known, hk, rfl⟩ := known_objectType hy
        cases hk.unique (hknown.mono hle)
        cases (hobject.mono hle).symm.trans hv
        cases hd
        exact .inr (hed (by simp))
    rcases hvariable hx hxe with ⟨-, rfl⟩ | ⟨-, rfl⟩
    all_goals simp at hother
  · intro x v m bs r w y hx hv hm hr hw
    obtain ⟨hmem, hv⟩ := hnode hx hv
    obtain rfl := hinter x hmem _ hv (congrArg TypeShape.kind hm)
    have hvar := hvar.mono hle
    have hupper := (known_upperBound hvar).2 (.inl rfl)
    cases (ErasesTo.typeVar hvar rfl hupper (erasesTo_iff.2 hr)).erases.unique h
    cases hraw.symm.trans hw
    exact .inl hn
  · intro x v m bs y z e hx _ _ hxy hyz hy hz
    have hmeets : T.Meets ⟨23⟩ y := hx.trans (.mono (fun _ _ h => ⟨_, h⟩) x y hxy)
    obtain ⟨hmeets', hlt⟩ := hchain hmeets hyz
    rcases hvariable hmeets hy with ⟨rfl, rfl⟩ | ⟨rfl, rfl⟩
    all_goals
      rcases hvariable hmeets' hz with ⟨rfl, he⟩ | ⟨rfl, he⟩
      all_goals simp at he hlt
  · intro x v m o w y own hx hv hm
    obtain ⟨u, m', hu, -, -, -, hsome, -⟩ := node_of_listsErasable hlists hle (hnode hx hv).1
    cases hu.symm.trans hv
    exact absurd hm hsome

/-- The variable is erased to a raw type `Box`, and is below it. -/
theorem erasure_aboveReferences_boundedBoxes : ∃ (b : Bool) (S T : Session),
    S.Answered (erasure 10 ⟨23⟩) ⟨24⟩ ∧ isSubtypeNoCapture 12 ⟨23⟩ ⟨24⟩ S = (.ok b, T) ∧
      T.ErasesUpward ⟨23⟩ ∧ b = true := by
  have hanswer : (erasure 10 ⟨23⟩ boundedBoxes).1 = .ok ⟨24⟩ := by decide +kernel
  have hraw : ((erasure 10 ⟨23⟩ boundedBoxes).2.store.peekType ⟨24⟩).map (fun x => x.2.kind) =
      some .declared := by decide +kernel
  have hbelow : (isSubtypeNoCapture 12 ⟨23⟩ ⟨24⟩ (erasure 10 ⟨23⟩ boundedBoxes).2).1 = .ok true := by
    decide +kernel
  have hnone : boundedBoxes.Shows TypeId.none TypeId.none { shape := .noType .none } := rfl
  have hhooks : boundedBoxes.hooks = {} := rfl
  have hderived : boundedBoxes.DerivesShapes := by rintro shape k ⟨⟩
  have hupward : ∀ {T v n}, boundedBoxes ≤ T → T.Erases ⟨23⟩ ⟨24⟩ → T.Shows ⟨24⟩ v n →
    n.kind = .declared → T.ErasesUpward ⟨23⟩ := erasesUpward_boundedBoxes
  generalize boundedBoxes = S₀ at *
  have herasure : erasure 10 ⟨23⟩ S₀ = (.ok ⟨24⟩, (erasure 10 ⟨23⟩ S₀).2) := Prod.ext hanswer rfl
  generalize (erasure 10 ⟨23⟩ S₀).2 = S at *
  have hrun : isSubtypeNoCapture 12 ⟨23⟩ ⟨24⟩ S = (.ok true, (isSubtypeNoCapture 12 ⟨23⟩ ⟨24⟩ S).2) :=
    Prod.ext hbelow rfl
  generalize (isSubtypeNoCapture 12 ⟨23⟩ ⟨24⟩ S).2 = T at *
  have hS : Later S₀ S := Later.of_leads (leads_of_ok herasure)
  have hT : Later S T := Later.of_leads (leads_of_ok hrun)
  have hhooks : S.hooks = {} := hS.le.hooks.trans hhooks
  have hanswered : S.Answered (erasure 10 ⟨23⟩) ⟨24⟩ := ⟨S₀, S, herasure, Later.refl S⟩
  obtain ⟨⟨v, n⟩, hv, hn⟩ := Option.map_eq_some_iff.1 hraw
  have H : T.ErasesUpward ⟨23⟩ := by
    refine hupward (hS.trans hT).le ?_ (peekType_mono hT.le.store hv) hn
    refine (cases_of_known_erasure ?_ (hanswered.known.mono hT.le)).1
    rw [hT.le.hooks, hhooks]
  exact ⟨true, S, T, hanswered, hrun, H, erasure_aboveReferences (hnone.mono hS.le) (by rw [hhooks])
    (by rw [hhooks]) (hderived.later (hS.trans hT)) H hanswered (Or.inr hrun)⟩

/-! ### Comparisons that say no -/

/-- A type variable, at 20, is bounded by an intersection that begins with a variable bounded by
`Object[]`. Two type variables, at 22 and 23, are defined by one element: the one is bounded by a class
`A`, the other by the first. A variable, at 25, is bounded by an intersection that begins with the second
one. There is a class `Box<E>` and a type `Box<Object>`, at 28. -/
def missedBounds : Session :=
  ofNodes
    [.arrayOf 14, { shape := .typeVar { upper := some ⟨17⟩ } },
     { shape := .intersection [⟨18⟩, ⟨15⟩] }, { shape := .typeVar { upper := some ⟨19⟩ } },
     .ofClass 3 [], { shape := .typeVar { element := some ⟨4⟩, upper := some ⟨21⟩ } },
     { shape := .typeVar { element := some ⟨4⟩, upper := some ⟨22⟩ } },
     { shape := .intersection [⟨23⟩, ⟨15⟩] }, { shape := .typeVar { upper := some ⟨24⟩ } },
     .ofClass 5 [27], .variableOf 6, .ofClass 5 [14]]
    [.ofType "A" 21 .plain {}, { name := some "X", detail := .typeParameter },
     .ofType "Box" 26 .plain { typeParameters := [⟨6⟩] }, .parameter "E" 27 5]

/-- The variables are erased to `Object[]` and `A`, but not below them. Nor is `Box<Object>` below its raw
type once that is put inside a type. -/
theorem erasure_notAbove_missedBounds :
    (erasure 9 ⟨20⟩ missedBounds).1 = .ok ⟨17⟩ ∧
      (isSubtype 9 ⟨20⟩ ⟨17⟩ missedBounds).1 = .ok false ∧
        (isSubtypeNoCapture 9 ⟨20⟩ ⟨17⟩ missedBounds).1 = .ok false ∧
    (erasure 9 ⟨25⟩ missedBounds).1 = .ok ⟨21⟩ ∧
      (isSubtype 9 ⟨25⟩ ⟨21⟩ missedBounds).1 = .ok false ∧
        (isSubtypeNoCapture 9 ⟨25⟩ ⟨21⟩ missedBounds).1 = .ok false ∧
    (erasure 9 ⟨28⟩ missedBounds).1 = .ok ⟨29⟩ ∧
      (isSubtype 9 ⟨28⟩ ⟨29⟩ (onStore (editType ⟨29⟩ (.enclosing ⟨28⟩))
        (erasure 9 ⟨28⟩ missedBounds).2).2).1 = .ok false := by
  decide +kernel

end Session

end JavaTypes
