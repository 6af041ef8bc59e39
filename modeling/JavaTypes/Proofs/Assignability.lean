import JavaTypes.Proofs.CaptureRepeats
import JavaTypes.Proofs.SupertypeAgreement
import JavaTypes.Relation.Conversion

/-!
# Subtypes are assignable

A value of a subtype can be assigned, unless the comparison for assignments goes another way than the
one for subtypes: below arrays it captures, and where only one of the types is primitive it boxes or
unboxes first.

* `Session.AboveAll`: what every type is below. A primitive type is below nothing else, except below
  primitive types (`aboveAll_of_known_subtype`);
* `Session.Converts`: below arrays there is nothing to capture, and boxing has something to go by;
* `subtype_again`: once two types are found to be different, a comparison does the same as before;
* `isSubtypeUnchecked_of_known`: the comparison that goes down arrays does not deny a known subtype;
* `isAssignable_of_isSubtype`: a subtype is assignable, in the same session and later.

In a session whose types are completed, what capture changes can be checked (`Session.listsFree`).
`crossings` has subtypes that are not assignable.
-/

namespace JavaTypes

open Action

namespace Session

variable {S T U V : Session} {p : Premises} {k k' fuel fuel' : Nat} {b b' : Bool}
  {c d s t u v x : TypeId} {m n : TypeNode} {j : Judgements} {bounds types : List TypeId}

/-! ### Different types -/

theorem known_typeKind_of_node (ht : T.Shows t u m) : Known (onStore (typeKind t)) T m.kind :=
  known_onStore.2 (known_typeKind.2 ⟨u, m, ht, rfl⟩)

/-- Handles of one node are the same, and others are compared by their parts. -/
theorem cases_of_known_sameType (hq : T.config.includeAnnotations = false)
    (h : Known ((judgements k).sameType p t s) T b) :
    ∃ j u m v n, k = j + 1 ∧ T.Shows t u m ∧ T.Shows s v n ∧
      (u = v ∧ b = true ∨ u ≠ v ∧ Known ((judgements j).sameParts p u m v n) T b) := by
  cases k with
  | zero => cases h
  | succ k =>
    rw [judgements_sameType, Judgements.sameTypeStep_eq] at h
    obtain ⟨⟨u, m⟩, ht, h⟩ := known_bind.1 h
    obtain ⟨⟨v, n⟩, hs, h⟩ := known_bind.1 h
    refine ⟨k, u, m, v, n, rfl, shows_of_known ht, shows_of_known hs, ?_⟩
    unfold Judgements.sameNodes at h
    split at h
    · next heq => exact .inl ⟨heq, known_pure.1 h⟩
    · next hne =>
      have h := Known.of_bind (known_config.2 rfl) h
      rw [hq] at h
      exact .inr ⟨hne, .of_bind rfl h⟩

/-- The components of different arrays are different. -/
theorem known_sameType_components (hq : T.config.includeAnnotations = false)
    (ht : T.Shows t u m) (hm : m.shape = .array (some c))
    (hs : T.Shows s v n) (hn : n.shape = .array (some d))
    (h : Known ((judgements k).sameType p t s) T false) :
    ∃ k, Known ((judgements k).sameType p c d) T false := by
  obtain ⟨k, u', m', v', n', rfl, ht', hs', ⟨-, h⟩ | ⟨-, h⟩⟩ := cases_of_known_sameType hq h
  · cases h
  · cases ht.symm.trans ht'
    cases hs.symm.trans hs'
    unfold Judgements.sameParts at h
    rw [hm, hn] at h
    exact ⟨k, h⟩

/-- Types that are the same are of one kind. -/
theorem kind_eq_of_known_sameType (hq : T.config.includeAnnotations = false)
    (ht : T.Shows t u m) (hs : T.Shows s v n)
    (h : Known ((judgements k).sameType p t s) T true) : m.kind = n.kind := by
  obtain ⟨k, u', m', v', n', rfl, ht', hs', h⟩ := cases_of_known_sameType hq h
  cases ht.symm.trans ht'
  cases hs.symm.trans hs'
  rcases h with ⟨rfl, -⟩ | ⟨-, h⟩
  · cases ht.self.symm.trans hs.self
    rfl
  · by_contra hkind
    exact Bool.false_ne_true (Judgements.known_sameParts_of_kind_ne ht.self hs.self hkind h).symm

/-! ### Types above all others -/

/-- Every type is below a type: it is an error type, an intersection of such types, or it stands for
such a type. -/
inductive AboveAll (T : Session) : TypeId → Prop
  | error {s v : TypeId} {n : TypeNode} (hs : T.store.peekType s = some (v, n))
      (hn : n.kind = .error) : T.AboveAll s
  | bounds {s v : TypeId} {n : TypeNode} {bounds : List TypeId}
      (hs : T.store.peekType s = some (v, n)) (hn : n.shape = .intersection bounds)
      (h : ∀ b ∈ bounds, T.AboveAll b) : T.AboveAll s
  | lower {s v lower : TypeId} {n : TypeNode} (hs : T.store.peekType s = some (v, n))
      (hv : T.StandsFor v lower) (h : T.AboveAll lower) : T.AboveAll s

/-- A type is found behind another: it is a bound of an intersection, or what a type stands for, and so
on. -/
inductive Behind (T : Session) : TypeId → TypeId → Prop
  | refl (s : TypeId) : T.Behind s s
  | bound {s v x b : TypeId} {n : TypeNode} {bounds : List TypeId}
      (hs : T.store.peekType s = some (v, n)) (hn : n.shape = .intersection bounds) (hb : b ∈ bounds)
      (h : T.Behind b x) : T.Behind s x
  | lower {s v x lower : TypeId} {n : TypeNode} (hs : T.store.peekType s = some (v, n))
      (hv : T.StandsFor v lower) (h : T.Behind lower x) : T.Behind s x

theorem StandsFor.unique (h : T.StandsFor s c) (h' : T.StandsFor s d) : c = d := by
  obtain ⟨_, w, _, hw, hc, -⟩ := h
  obtain ⟨_, w', _, hw', hd, -⟩ := h'
  obtain rfl := known_wildLowerBound_unique hw hw'
  exact known_captureLowerBound_unique hc hd

theorem certain_subtype_of_belowNode (hs : T.Shows s v n)
    (h : ∀ k u, Certain ((judgements k).belowNode p u v n) T) :
    ∀ k t, Certain ((judgements k).subtype p false t s) T := by
  intro k t
  refine certain_subtype_nodes fun {k _ _ _ _} _ hs' _ => ?_
  cases hs.symm.trans hs'
  exact h k _

/-- A type that stands for another is compared through it. -/
theorem belowNode_of_standsFor (hs : T.Shows s v n)
    (hv : T.StandsFor v x) : j.belowNode p t v n = j.belowOther p t v n := by
  have hkind : ¬ (n.kind ≠ .wildcard ∧ n.kind ≠ .typeVar) := fun h =>
    not_standsFor hs.self h.1 (isCapture_eq_false h.2) hv
  obtain ⟨shape, annotations⟩ := n
  cases shape with
  | intersection bounds => exact absurd ⟨nofun, nofun⟩ hkind
  | error e => exact absurd ⟨nofun, nofun⟩ hkind
  | _ => rfl

theorem StandsFor.mono (h : S.StandsFor s x) (hle : S ≤ T) : T.StandsFor s x := by
  obtain ⟨fuel, w, kind, hw, hx, hne, hkind, hnull⟩ := h
  exact ⟨fuel, w, kind, hw.mono hle, hx.mono hle, hne, hkind.mono hle, hnull⟩

theorem AboveAll.mono (h : S.AboveAll s) (hle : S ≤ T) : T.AboveAll s := by
  induction h with
  | error hs hn => exact .error (peekType_mono hle.store hs) hn
  | bounds hs hn _ ih => exact .bounds (peekType_mono hle.store hs) hn ih
  | lower hs hv _ ih => exact .lower (peekType_mono hle.store hs) (hv.mono hle) ih

theorem AboveAll.certain (h : T.AboveAll s) :
    ∀ k t, Certain ((judgements k).subtype p false t s) T := by
  induction h with
  | @error s v n hs hn =>
    refine certain_subtype_of_belowNode hs fun k u => ?_
    obtain ⟨shape, annotations⟩ := n
    cases shape <;> cases hn
    exact certain_true
  | bounds hs hn _ ih =>
    refine certain_subtype_of_belowNode hs fun k u => ?_
    rw [Judgements.belowNode_of_intersection _ _ hn]
    exact certain_belowAll fun b hb => ih b hb k u
  | lower hs hv _ ih =>
    refine certain_subtype_of_belowNode hs fun k u => ?_
    rw [belowNode_of_standsFor hs hv]
    exact certain_belowOther (fun lower hlower => hv.unique hlower ▸ ih k u)
      fun hnone => absurd hv (hnone _)

theorem known_belowAll_true (h : Known ((judgements k).belowAll p false t bounds) T true) :
    ∀ b ∈ bounds, Known ((judgements k).subtype p false t b) T true := by
  induction bounds with
  | nil => nofun
  | cons b bounds ih =>
    obtain ⟨hb, h⟩ := known_both_true.1 h
    exact List.forall_mem_cons.2 ⟨hb, ih h⟩

/-- By its kind, a primitive type is below primitive types only. -/
theorem kind_of_known_belowByKind (ht : T.Shows t u m)
    (hm : m.kind.isPrimitive = true) (h : Known (j.belowByKind p false t s n) T true) :
    n.kind.isPrimitive = true := by
  have h := Known.of_bind (known_onStore.2 (known_typeNode.2 ⟨u, ht⟩)) h
  obtain ⟨shape, annotations⟩ := m
  obtain ⟨shape', annotations'⟩ := n
  cases shape <;> cases hm
  cases shape' with
  | primitive q => rfl
  | _ => cases known_pure.1 h

/-- A primitive type that is below a type without primitive types behind it is below what every type is
below. -/
theorem aboveAll_of_known_subtype (hq : T.config.includeAnnotations = false)
    (hm : m.kind.isPrimitive = true) : ∀ {k : Nat} {t s : TypeId}, T.Shows t u m →
      (∀ x, T.Behind s x → ∀ v n, T.Shows x v n → n.kind.isPrimitive = false) →
        Known ((judgements k).subtype p false t s) T true → T.AboveAll s
  | 0, _, _, _, _, h => by cases h
  | k + 1, t, s, ht, hbehind, h => by
      obtain ⟨_, u', m', v, n, ⟨⟩, ht', hs, h⟩ := cases_of_known_subtype h
      cases ht.symm.trans ht'
      have hu := ht.self
      have hn := hbehind s (.refl s) v n hs
      rcases h with ⟨hsame, -⟩ | ⟨-, h⟩
      -- Types of one kind are both primitive, but `s` is behind itself.
      · have hkind := kind_eq_of_known_sameType hq hu hs.self hsame
        rw [← hkind, hm] at hn
        cases hn
      by_cases hbounds : ∃ bounds, n.shape = .intersection bounds
      · obtain ⟨bounds, hbounds⟩ := hbounds
        rw [Judgements.belowNode_of_intersection _ _ hbounds] at h
        exact .bounds hs hbounds fun b hb => aboveAll_of_known_subtype hq hm hu
          (fun x hx => hbehind x (.bound hs hbounds hb hx)) (known_belowAll_true h b hb)
      by_cases herror : ∃ e, n.shape = .error e
      · obtain ⟨e, herror⟩ := herror
        exact .error hs (by rw [TypeNode.kind, herror]; rfl)
      rw [Judgements.belowNode_of_ne _ _ (fun bounds h => hbounds ⟨bounds, h⟩)
        fun e h => herror ⟨e, h⟩] at h
      rcases cases_of_known_belowOther h with ⟨lower, hv, h⟩ | ⟨-, h⟩
      · exact .lower hs hv (aboveAll_of_known_subtype hq hm hu
          (fun x hx => hbehind x (.lower hs hv hx)) h)
      · rw [kind_of_known_belowByKind hu hm h] at hn
        cases hn

/-! ### Handles and nodes -/

theorem known_sameType_unique (h : Known ((judgements k).sameType p t s) T b)
    (h' : Known ((judgements k').sameType p t s) T b') : b = b' :=
  Known.unique (x := (judgements (max k k')).sameType p t s) (h.grow le_rfl) (h'.grow le_rfl)

theorem known_subtype_unique (h : Known ((judgements k).subtype p false t s) T b)
    (h' : Known ((judgements k').subtype p false t s) T b') : b = b' :=
  Known.unique (x := (judgements (max k k')).subtype p false t s) (h.grow le_rfl) (h'.grow le_rfl)

/-! ### Going down arrays -/

/-- What lies below arrays that two types both are. -/
inductive Components (T : Session) : TypeId → TypeId → TypeId → TypeId → Prop
  | here {t s u v c d : TypeId} {m n : TypeNode} (ht : T.store.peekType t = some (u, m))
      (hm : m.shape = .array (some c)) (hs : T.store.peekType s = some (v, n))
      (hn : n.shape = .array (some d)) : T.Components t s c d
  | deeper {t s u v c d x y : TypeId} {m n : TypeNode} (ht : T.store.peekType t = some (u, m))
      (hm : m.shape = .array (some c)) (hs : T.store.peekType s = some (v, n))
      (hn : n.shape = .array (some d)) (h : T.Components c d x y) : T.Components t s x y

/-- If an array is a subtype of a different array, their components are no primitive types, they are
different, and the one is a subtype of the other. -/
theorem known_subtype_components (hq : T.config.includeAnnotations = false)
    (ht : T.Shows t u m) (hm : m.kind = .array)
    (hs : T.Shows s v n) (hn : n.kind = .array)
    (hsame : Known ((judgements k').sameType p t s) T false)
    (h : Known ((judgements k).subtype p false t s) T true) :
    ∃ c d kind, m.shape = .array (some c) ∧ n.shape = .array (some d) ∧
      Known (onStore (typeKind c)) T kind ∧ kind.isPrimitive = false ∧
        (∃ k, Known ((judgements k).sameType p c d) T false) ∧
          ∃ k, Known ((judgements k).subtype p false c d) T true := by
  obtain ⟨k, u', m', v', n', rfl, ht', hs', h⟩ := cases_of_known_subtype h
  cases ht.symm.trans ht'
  cases hs.symm.trans hs'
  rcases h with ⟨hsame', -⟩ | ⟨-, h⟩
  · exact absurd (known_sameType_unique ((known_sameType_congr ht hs).1 hsame) hsame') nofun
  obtain ⟨shape, annotations⟩ := m
  obtain ⟨shape', annotations'⟩ := n
  cases shape <;> cases hm
  cases shape' <;> cases hn
  next c d =>
  rcases cases_of_known_belowOther h with ⟨lower, hv, -⟩ | ⟨-, h⟩
  · exact absurd hv (not_standsFor hs.self nofun rfl)
  -- What is left is the comparison of the components.
  have h := Known.of_bind (known_onStore.2 (known_typeNode.2 ⟨u, ht.self⟩)) h
  cases c with
  | none => cases known_pure.1 h
  | some c =>
    cases d with
    | none => cases known_pure.1 h
    | some d =>
      obtain ⟨k₀, hdifferent⟩ := known_sameType_components hq ht rfl hs rfl hsame
      obtain ⟨kind, hkind, h⟩ := known_bind.1 h
      split at h
      · exact absurd (known_sameType_unique hdifferent h) nofun
      · next hprimitive =>
        exact ⟨c, d, kind, rfl, rfl, hkind, by simpa using hprimitive, ⟨k₀, hdifferent⟩, k, h⟩

/-- The comparison of two nodes that goes down arrays. -/
def uncheckedNodes (fuel : Nat) (x y : TypeId × TypeNode) : Query Bool :=
  match x.2.shape, y.2.shape with
  | .array (some c), .array (some d) => do
      if (← typeKind c).isPrimitive then sameType fuel c d else isSubtypeUnchecked fuel c d
  | .array _, .array _ => return false
  | _, _ =>
      Action.either (subtype fuel true x.1 y.1) do
        if x.2.kind = .typeVar then
          isSubtypeUnchecked fuel (← upperBound x.1) y.1
        else
          isRawFormOf fuel x.1 y.1 y.2

theorem isSubtypeUnchecked_of_nodes (ht : T.Shows t u m) (hs : T.Shows s v n) :
    isSubtypeUnchecked (fuel + 1) t s T = uncheckedNodes fuel (u, m) (v, n) T :=
  (bind_of_ok ht.known).trans (bind_of_ok hs.known)

/-- Unless both types are arrays, they are compared with capture first. -/
theorem exists_uncheckedNodes_eq (fuel : Nat) (u v : TypeId)
    (h : ¬ (m.kind = .array ∧ n.kind = .array)) :
    ∃ rest, uncheckedNodes fuel (u, m) (v, n) = Action.either (subtype fuel true u v) rest := by
  obtain ⟨shape, annotations⟩ := m
  obtain ⟨shape', annotations'⟩ := n
  cases shape with
  | array c =>
    cases shape' with
    | array d => exact absurd ⟨rfl, rfl⟩ h
    | _ => cases c <;> exact ⟨_, rfl⟩
  | _ => exact ⟨_, rfl⟩

theorem eq_true_of_either {x y : Query Bool} (h : Action.either x y T = (.ok b, V))
    (hx : ∀ b W, x T = (.ok b, W) → b = true) : b = true := by
  obtain ⟨b', W, hb', h⟩ := bind_eq_ok h
  cases hx b' W hb'
  cases h
  rfl

/-- A known subtype is not denied by the comparison that goes down arrays, if there is nothing to
capture on the way. -/
theorem isSubtypeUnchecked_of_known (hq : T.config.includeAnnotations = false) :
    ∀ {fuel k k' : Nat} {t s : TypeId}, (∀ c d, T.Components t s c d → T.CaptureFree c) →
      T.CaptureFree t → Known ((judgements k).subtype {} false t s) T true →
        Known ((judgements k').sameType {} t s) T false →
          isSubtypeUnchecked fuel t s T = (.ok b, V) → b = true
  | 0, _, _, _, _, _, _, _, _, h => by cases h
  | fuel + 1, 0, _, _, _, _, _, hsub, _, _ => by cases hsub
  | fuel + 1, k + 1, k', t, s, hcomponents, hfree, hsub, hsame, h => by
      obtain ⟨_, u, m, v, n, ⟨⟩, ht, hs, -⟩ := cases_of_known_subtype hsub
      rw [isSubtypeUnchecked_of_nodes ht hs] at h
      by_cases harrays : m.kind = .array ∧ n.kind = .array
      · obtain ⟨c, d, kind, hm, hn, hkind, hprimitive, ⟨_, hsame⟩, _, hsub⟩ :=
          known_subtype_components hq ht harrays.1 hs harrays.2 hsame hsub
        have h : isSubtypeUnchecked fuel c d T = (.ok b, V) := by
          unfold uncheckedNodes at h
          rw [hm, hn] at h
          have h := (bind_of_ok hkind).symm.trans h
          rwa [hprimitive] at h
        exact isSubtypeUnchecked_of_known hq
          (fun x y hxy => hcomponents x y (.deeper ht hm hs hn hxy))
          (hcomponents c d (.here ht hm hs hn)) hsub hsame h
      -- The comparison with capture gives the answer of the one without, so the rest is not asked.
      · obtain ⟨rest, hrest⟩ := exists_uncheckedNodes_eq fuel u v harrays
        rw [hrest] at h
        refine eq_true_of_either h fun b W hb => ?_
        obtain ⟨hW, hknown⟩ := ensures_subtype_uncaptured (hfree.of_node ht) T .rfl b W hb
        have hsub' := ((known_subtype_congr ht hs).1 hsub).mono hW.le
        exact known_subtype_unique (hknown W .rfl) hsub'

/-! ### The same comparison again -/

/-- Once two types are found to be different, a comparison does what it would have done before. -/
theorem subtype_again (h : sameType k t s S = (.ok false, T)) (ht : T.Shows t u m)
    (hs : T.Shows s v n) :
    subtype (k + 1) true u v T = subtype (k + 1) true t s S := by
  cases k with
  | zero => cases h
  | succ k =>
    -- The nodes that the comparison looked at are the ones that are known in the end.
    obtain ⟨x, Sa, hx, h⟩ := bind_eq_ok (h : (judgements k).sameTypeStep {} t s S = (.ok false, T))
    obtain ⟨y, Sb, hy, h⟩ := bind_eq_ok h
    have hle : Sb ≤ T := le_of_ok h
    have hle' : Sa ≤ Sb := le_of_ok hy
    have htb : Sb.store.peekType t = some x := shows_of_known (known_of_ok hx hle')
    have hsb : Sb.store.peekType s = some y := shows_of_known (known_of_ok hy le_rfl)
    cases ht.symm.trans (peekType_mono hle.store htb)
    cases hs.symm.trans (peekType_mono hle.store hsb)
    have hsame : (judgements (k + 1)).sameType {} u v Sb = (.ok false, T) :=
      (bind_of_ok (known_onStore.2 (known_viewType.2 (Store.peekType_self htb)))).trans
        ((bind_of_ok (known_onStore.2 (known_viewType.2 (Store.peekType_self hsb)))).trans h)
    have hresolve : onStore (resolveType t) S = (.ok u, Sa) := by
      rw [resolveType, onStore_bind]
      exact bind_of_ok hx
    have hnode := known_onStore.2 (known_resolveType.2 ⟨m, ht.self⟩)
    have hview := known_onStore.2 (known_viewType.2 hs.self)
    have hagain := known_of_ok hsame le_rfl
    refine (bind_of_ok hnode).trans (.trans ?_ (bind_of_ok hresolve).symm)
    refine (bind_of_ok hview).trans (.trans ?_ (bind_of_ok hy).symm)
    dsimp only
    rw [bind_of_ok hagain, bind_of_ok hsame]

/-- A subtype is not denied by the comparison for assignments in the same session, unless it goes down
arrays. -/
theorem isSubtypeUnchecked_again (hsub : subtype fuel true t s S = (.ok true, U))
    (hsame : sameType fuel' t s S = (.ok false, T)) (ht : T.Shows t u m)
    (hs : T.Shows s v n) (harrays : ¬ (m.kind = .array ∧ n.kind = .array))
    (h : isSubtypeUnchecked k t s T = (.ok b, V)) : b = true := by
  cases k with
  | zero => cases h
  | succ k =>
    rw [isSubtypeUnchecked_of_nodes ht hs] at h
    obtain ⟨rest, hrest⟩ := exists_uncheckedNodes_eq k u v harrays
    rw [hrest] at h
    refine eq_true_of_either h fun b W hb => ?_
    -- Both answers are carried to a common level, where the second comparison continues the first.
    have hle := le_max_left fuel fuel'
    have hle' := le_max_right fuel fuel'
    have hsub' := (continue_judgements (Nat.le_succ_of_le hle)).captured {} t s S true U hsub
    have hcontinues := continue_judgements hle'
    have hsame' := (hcontinues.sameType {} t s).repeats S false T hsame
    have hagain := (subtype_again hsame' ht hs).trans hsub'
    exact (subtype_unique hb hagain).1

/-! ### Conversions -/

/-- What the comparison for assignments needs where it goes another way than the one for subtypes. There
is nothing to capture below arrays. Only primitive types and error types are compared with primitive
types. A primitive type that is compared with another type has a box, and there are no primitive types
behind the other type. -/
structure Converts (T : Session) (t s : TypeId) : Prop where
  components : ∀ c d, T.Components t s c d → T.CaptureFree c
  unboxed : ∀ {u m v n}, T.store.peekType t = some (u, m) → T.store.peekType s = some (v, n) →
    n.kind.isPrimitive = true → m.kind.isPrimitive = true ∨ m.kind = .error
  boxed : ∀ {u m v n}, T.store.peekType t = some (u, m) → T.store.peekType s = some (v, n) →
    m.kind.isPrimitive = true → n.kind.isPrimitive = false →
      (∃ box, Known (boxedType m.kind) T (some box) ∧ T.CaptureFree box) ∧
        ∀ x, T.Behind s x → ∀ v n, T.store.peekType x = some (v, n) → n.kind.isPrimitive = false

theorem isConvertible_of_nodes (ht : T.Shows t u m) (hs : T.Shows s v n) (hm : m.kind ≠ .error) :
    isConvertible fuel t s T =
      (if m.kind.isPrimitive = n.kind.isPrimitive then isSubtypeUnchecked fuel t s
      else if m.kind.isPrimitive then do subtypeIfAny fuel (← boxedType m.kind) s
      else do subtypeIfAny fuel (← unboxedType fuel t) s) T := by
  refine (bind_of_ok (known_typeKind_of_node ht)).trans ?_
  rw [if_neg hm]
  exact bind_of_ok (known_typeKind_of_node hs)

theorem isConvertible_of_error (ht : T.Shows t u m) (hm : m.kind = .error) :
    isConvertible fuel t s T = (.ok true, T) := by
  refine (bind_of_ok (known_typeKind_of_node ht)).trans ?_
  rw [if_pos hm]
  rfl

/-- A known subtype is convertible. -/
theorem isConvertible_of_known (hq : T.config.includeAnnotations = false) (hfree : T.CaptureFree t)
    (hconverts : T.Converts t s) (hsub : Known ((judgements k).subtype {} false t s) T true)
    (hsame : Known ((judgements k').sameType {} t s) T false)
    (h : isConvertible fuel t s T = (.ok b, V)) : b = true := by
  obtain ⟨k, u, m, v, n, rfl, ht, hs, -⟩ := cases_of_known_subtype hsub
  by_cases herror : m.kind = .error
  · rw [isConvertible_of_error ht herror] at h
    cases h
    rfl
  rw [isConvertible_of_nodes ht hs herror] at h
  split at h
  · exact isSubtypeUnchecked_of_known hq hconverts.components hfree hsub hsame h
  next hkinds =>
  cases hm : m.kind.isPrimitive with
  | true =>
    -- The other type is above all types, so it is above the box too.
    have hn : n.kind.isPrimitive = false := by simpa [hm] using hkinds
    obtain ⟨⟨box, hbox, hfree⟩, hbehind⟩ := hconverts.boxed ht hs hm hn
    rw [if_pos hm, bind_of_ok hbox] at h
    obtain ⟨hV, hknown⟩ := ensures_subtype_uncaptured hfree T .rfl b V h
    have habove := (aboveAll_of_known_subtype hq hm ht hbehind hsub).mono hV.le
    exact habove.certain fuel box b (hknown V .rfl)
  | false =>
    have hn : n.kind.isPrimitive = true := by simpa [hm] using hkinds
    rcases hconverts.unboxed ht hs hn with hprimitive | herror'
    · exact absurd (hm.symm.trans hprimitive) Bool.false_ne_true
    · exact absurd herror' herror

theorem isSubtype_apply (hask : S.hooks.isSubtype t s = none) :
    isSubtype fuel t s S = subtype fuel S.config.captureInSubtyping t s S := by
  rw [isSubtype, answeredBy_apply, hask]
  rfl

theorem eq_true_of_isAssignable (hassign : U.hooks.isAssignable t s = none)
    (hb : isAssignable fuel t s U = (.ok b, V))
    (h : ∀ W, sameType fuel t s U = (.ok false, W) → isConvertible fuel t s W = (.ok b, V) → b = true) :
    b = true := by
  rw [isAssignable, answeredBy_apply, hassign] at hb
  obtain ⟨same, W, hsame, hb⟩ := bind_eq_ok hb
  cases same with
  | true =>
    cases hb
    rfl
  | false => exact h W hsame hb

/-- A type in which capture changes nothing stays assignable to what it is a subtype of. -/
theorem isAssignable_later (hannotations : S.config.includeAnnotations = false)
    (hask : S.hooks.isSubtype t s = none) (hassign : S.hooks.isAssignable t s = none)
    (hconverts : ∀ W, Later S W → W.Converts t s) (h : isSubtype fuel t s S = (.ok true, T))
    (hfree : S.CaptureFree t) (hTU : Later T U) (hb : isAssignable fuel' t s U = (.ok b, V)) :
    b = true := by
  obtain ⟨hST, hsub⟩ := known_subtype_of_captureFree hask (fun _ => hfree) h
  have hSU := hST.trans hTU
  refine eq_true_of_isAssignable (by rw [hSU.le.hooks]; exact hassign) hb fun W hsame hb => ?_
  have hUW : Later U W := .of_leads (leads_of_ok hsame)
  have hSW := hSU.trans hUW
  have hsub' := hsub.mono (hTU.trans hUW).le
  exact isConvertible_of_known (by rw [hSW.le.config]; exact hannotations) (hfree.later hSW)
    (hconverts W hSW) hsub' (known_of_ok hsame le_rfl) hb

/-- A type that is neither an array nor primitive is assignable, in the session in which it is a subtype,
whatever capture changes in it. -/
theorem isAssignable_here (hcapture : S.config.captureInSubtyping = true)
    (hannotations : S.config.includeAnnotations = false) (hask : S.hooks.isSubtype t s = none)
    (hassign : S.hooks.isAssignable t s = none) (hconverts : ∀ W, Later S W → W.Converts t s)
    (h : isSubtype fuel t s S = (.ok true, T))
    (hkind : ∀ W, Later S W → ∀ u m, W.Shows t u m → m.kind ≠ .array ∧ m.kind.isPrimitive = false)
    (hb : isAssignable fuel' t s S = (.ok b, V)) : b = true := by
  have hsub : subtype fuel true t s S = (.ok true, T) := by rw [← h, isSubtype_apply hask, hcapture]
  refine eq_true_of_isAssignable hassign hb fun W hsame hb => ?_
  have hSW : Later S W := .of_leads (leads_of_ok hsame)
  have hq : W.config.includeAnnotations = false := by rw [hSW.le.config]; exact hannotations
  obtain ⟨fuel', u, m, v, n, rfl, ht, hs, -⟩ := cases_of_known_sameType hq (known_of_ok hsame le_rfl)
  obtain ⟨harray, hm⟩ := hkind W hSW u m ht
  by_cases herror : m.kind = .error
  · rw [isConvertible_of_error ht herror] at hb
    cases hb
    rfl
  have hn : n.kind.isPrimitive = false := by
    by_contra hn
    rcases (hconverts W hSW).unboxed ht hs (by simpa using hn) with hprimitive | herror'
    · exact Bool.false_ne_true (hm.symm.trans hprimitive)
    · exact herror herror'
  rw [isConvertible_of_nodes ht hs herror, if_pos (hm.trans hn.symm)] at hb
  exact isSubtypeUnchecked_again hsub hsame ht hs (fun h => harray h.1) hb

/-- A subtype is assignable, if the comparison for assignments has what it needs where it goes another
way. It may be asked in any later session if capture changes nothing in the subtype. In the session
itself capture may change it, unless the subtype is an array or primitive. -/
theorem isAssignable_of_isSubtype (hcapture : S.config.captureInSubtyping = true)
    (hannotations : S.config.includeAnnotations = false) (hask : S.hooks.isSubtype t s = none)
    (hassign : S.hooks.isAssignable t s = none) (hconverts : ∀ W, Later S W → W.Converts t s)
    (h : isSubtype fuel t s S = (.ok true, T))
    (hU : S.CaptureFree t ∧ Later T U ∨
      (∀ W, Later S W → ∀ u m, W.store.peekType t = some (u, m) →
        m.kind ≠ .array ∧ m.kind.isPrimitive = false) ∧ U = S)
    (hb : isAssignable fuel' t s U = (.ok b, V)) : b = true := by
  rcases hU with ⟨hfree, hTU⟩ | ⟨hkind, rfl⟩
  · exact isAssignable_later hannotations hask hassign hconverts h hfree hTU hb
  · exact isAssignable_here hcapture hannotations hask hassign hconverts h hkind hb

/-! ### Checking what is captured -/

/-- Capture changes nothing in the listed types: the types around them and the alternatives of unions are
listed too, and no argument is a wildcard. -/
def listsFree (S : Session) (types : List TypeId) : Bool :=
  types.all fun t => (S.store.peekType t).any fun x => decide (x.1 ∈ types) && match x.2.shape with
    | .declared _ => decide (x.2.enclosingOrNone ∈ types) && x.2.arguments.all fun a =>
        (S.store.peekType a).any fun y => decide (y.2.kind ≠ .wildcard)
    | .union as => as.all (· ∈ types)
    | _ => true

theorem node_of_listsFree (h : S.listsFree types = true) (ht : t ∈ types)
    (hT : Later S T) (hu : T.Shows t u n) : u ∈ types ∧
      (n.kind = .declared → n.enclosingOrNone ∈ types ∧ ∀ a ∈ n.arguments, ∀ w x,
        T.Shows a w x → x.kind ≠ .wildcard) ∧
      ∀ as, n.shape = .union as → ∀ a ∈ as, a ∈ types := by
  have hall := List.all_eq_true.1 h t ht
  simp only [Option.any_eq_true, Bool.and_eq_true, decide_eq_true_eq] at hall
  obtain ⟨⟨u', n'⟩, hu', hmem, hshape⟩ := hall
  cases (peekType_mono hT.le.store hu').symm.trans hu
  refine ⟨hmem, fun hkind => ?_, fun as has => ?_⟩
  · obtain ⟨shape, annotations⟩ := n
    cases shape <;> cases hkind
    simp only [Bool.and_eq_true, decide_eq_true_eq, List.all_eq_true, Option.any_eq_true] at hshape
    refine ⟨hshape.1, fun a ha w x hx => ?_⟩
    obtain ⟨⟨w', x'⟩, hx', hne⟩ := hshape.2 a ha
    cases (peekType_mono hT.le.store hx').symm.trans hx
    exact hne
  · rw [has] at hshape
    simpa using hshape

theorem captureFree_of_listsFree (h : S.listsFree types = true) (ht : t ∈ types) :
    S.CaptureFree t := by
  intro T hT x hx
  have hmem : x ∈ types := by
    induction hx with
    | refl => exact ht
    | union hu hn ha _ ih => exact ih ((node_of_listsFree h ht hT hu).2.2 _ hn _ ha)
  refine ⟨(· ∈ types), hmem, fun U hU s hs u n hn => ?_⟩
  obtain ⟨hu, hdeclared, -⟩ := node_of_listsFree h hs (hT.trans hU) hn
  exact ⟨hu, hdeclared⟩

theorem not_components (ht : T.Shows t u m) (hm : m.kind ≠ .array) : ¬ T.Components t s c d := by
  have hne : ∀ {u' m' c'}, T.Shows t u' m' → m'.shape ≠ .array (some c') := by
    intro u' m' c' ht' hm'
    cases ht.symm.trans ht'
    exact hm (by rw [TypeNode.kind, hm']; rfl)
  intro h
  cases h with
  | here ht' hm' => exact hne ht' hm'
  | deeper ht' hm' => exact hne ht' hm'

theorem captureFree_of_components (ht : T.Shows t u m)
    (hm : m.shape = .array (some c)) (hs : T.Shows s v n)
    (hn : n.shape = .array (some d)) (hc : T.CaptureFree c)
    (h : ∀ x y, T.Components c d x y → T.CaptureFree x) :
    ∀ x y, T.Components t s x y → T.CaptureFree x := by
  intro x y hxy
  cases hxy with
  | here ht' hm' =>
    cases ht.symm.trans ht'
    cases hm.symm.trans hm'
    exact hc
  | deeper ht' hm' hs' hn' hxy =>
    cases ht.symm.trans ht'
    cases hm.symm.trans hm'
    cases hs.symm.trans hs'
    cases hn.symm.trans hn'
    exact h x y hxy

instance settles_boxedClass (k : TypeKind) : Settles (boxedClass k) (boxedClass k) := by
  cases k with
  | primitive p => exact settles_typeElement p.boxName
  | _ => exact settles_throw _ _

instance settles_boxedType (k : TypeKind) : Settles (boxedType k) (boxedType k) := by
  refine settles_bind_of fun found => ?_
  cases found <;> infer_instance

theorem converts_of_references (ht : T.Shows t u m)
    (hm : m.kind.isPrimitive = false) (hs : T.Shows s v n)
    (hn : n.kind.isPrimitive = false) (h : ∀ c d, T.Components t s c d → T.CaptureFree c) :
    T.Converts t s where
  components := h
  unboxed ht' hs' hprimitive := by
    cases hs.symm.trans hs'
    exact absurd (hn.symm.trans hprimitive) Bool.false_ne_true
  boxed ht' hs' hprimitive _ := by
    cases ht.symm.trans ht'
    exact absurd (hm.symm.trans hprimitive) Bool.false_ne_true

/-! ### Examples -/

/-- The classes that the primitive types are boxed to. -/
def boxElements : List ElementNode :=
  Primitive.all.map fun p => .ofType p.boxName (17 + p.index) .plain {}

/-- The names of these classes. -/
def boxNames : List (String × ElementId) :=
  Primitive.all.map fun p => (p.boxName, ⟨3 + p.index⟩)

/-- A session in which the primitive types have boxes. Its other types start at 25, and its other
elements at 11. -/
def withBoxes (types : List TypeNode) (elements : List ElementNode) : Session :=
  let S := ofNodes
    (Primitive.all.map (fun p => .ofClass (3 + p.index) []) ++ types)
    (boxElements ++ elements)
  let names := S.store.registry.byName ++ boxNames
  { S with store := { S.store with registry := { byName := names } } }

/-- A generic class `Box` implements a generic interface `Source`. There are `Box<? extends Cloneable>`
and `Source<? extends Cloneable>`, at 31 and 32, the arrays `Box<Cloneable>[][]` and
`Source<? extends Cloneable>[][]`, at 35 and 37, and an error type, at 38. -/
def parcels : Session :=
  withBoxes
    [.ofClass 11 [26], .variableOf 13, .ofClass 12 [28], .variableOf 14, .ofClass 11 [28],
     { shape := .wildcard { upper := some ⟨15⟩ } }, .ofClass 12 [30], .ofClass 11 [30],
     .ofClass 12 [15], .arrayOf 33, .arrayOf 34, .arrayOf 32, .arrayOf 36, { shape := .error none }]
    [.ofType "Source" 25 .interface { typeParameters := [⟨13⟩] },
     .ofType "Box" 27 .plain { interfaces := [⟨29⟩], typeParameters := [⟨14⟩] }, .parameter "E" 26 11,
     .parameter "F" 28 12]

theorem converts_parcels (hW : Later parcels T) : T.Converts ⟨31⟩ ⟨32⟩ := by
  have ht : parcels.store.peekType ⟨31⟩ = some (⟨31⟩, _) := rfl
  have hs : parcels.store.peekType ⟨32⟩ = some (⟨32⟩, _) := rfl
  exact converts_of_references (peekType_mono hW.le.store ht) rfl (peekType_mono hW.le.store hs) rfl
    fun _ _ h => absurd h (not_components (peekType_mono hW.le.store ht) nofun)

theorem listsFree_parcels : parcels.listsFree
    [⟨35⟩, ⟨34⟩, ⟨33⟩, ⟨20⟩, TypeId.none, TypeId.primitive .int] = true := by
  decide +kernel

theorem converts_parcelArrays (hW : Later parcels T) : T.Converts ⟨35⟩ ⟨37⟩ := by
  have h33 : parcels.store.peekType ⟨33⟩ = some (⟨33⟩, _) := rfl
  have h34 : parcels.store.peekType ⟨34⟩ = some (⟨34⟩, { shape := .array (some ⟨33⟩) }) := rfl
  have h35 : parcels.store.peekType ⟨35⟩ = some (⟨35⟩, { shape := .array (some ⟨34⟩) }) := rfl
  have h36 : parcels.store.peekType ⟨36⟩ = some (⟨36⟩, { shape := .array (some ⟨32⟩) }) := rfl
  have h37 : parcels.store.peekType ⟨37⟩ = some (⟨37⟩, { shape := .array (some ⟨36⟩) }) := rfl
  have hle := hW.le.store
  have hfree : ∀ c ∈ [⟨35⟩, ⟨34⟩, ⟨33⟩, ⟨20⟩, TypeId.none, TypeId.primitive .int], T.CaptureFree c :=
    fun c hc => (captureFree_of_listsFree listsFree_parcels hc).later hW
  refine converts_of_references (peekType_mono hle h35) rfl (peekType_mono hle h37) rfl ?_
  refine captureFree_of_components (peekType_mono hle h35) rfl (peekType_mono hle h37) rfl
    (hfree _ (by simp)) ?_
  refine captureFree_of_components (peekType_mono hle h34) rfl (peekType_mono hle h36) rfl
    (hfree _ (by simp)) ?_
  exact fun _ _ h => absurd h (not_components (peekType_mono hle h33) nofun)

theorem converts_parcelInt (hW : Later parcels T) : T.Converts (TypeId.primitive .int) ⟨38⟩ := by
  have hint : parcels.store.peekType (TypeId.primitive .int) =
    some (TypeId.primitive .int, { shape := .primitive .int }) := rfl
  have herror : parcels.store.peekType ⟨38⟩ = some (⟨38⟩, { shape := .error none }) := rfl
  have hbox : Known (boxedType (.primitive .int)) parcels (some ⟨20⟩) := rfl
  have hint := peekType_mono hW.le.store hint
  have herror := peekType_mono hW.le.store herror
  refine ⟨fun _ _ h => absurd h (not_components hint nofun), fun _ hs hn => ?_, fun ht _ _ _ => ?_⟩
  · cases herror.symm.trans hs
    cases hn
  · cases hint.symm.trans ht
    refine ⟨⟨⟨20⟩, hbox.mono hW.le,
      (captureFree_of_listsFree listsFree_parcels (by simp)).later hW⟩, fun x hx v n hn => ?_⟩
    cases hx with
    | refl =>
      cases herror.symm.trans hn
      rfl
    | bound hs hbounds =>
      cases herror.symm.trans hs
      cases hbounds
    | lower hs hv =>
      cases herror.symm.trans hs
      exact absurd hv (not_standsFor herror nofun rfl)

theorem eq_true_of_isSome {q : Query Bool} (h : (q S).1.toOption.isSome = true)
    (htrue : ∀ b V, q S = (.ok b, V) → b = true) : (q S).1 = .ok true := by
  cases hq : q S with
  | mk r V =>
    cases r with
    | error e =>
      rw [hq] at h
      cases h
    | ok b => rw [htrue b V hq]

/-- In `parcels`, `Box<? extends Cloneable>` can be assigned to `Source<? extends Cloneable>`, which is
found by capture. The arrays are assignable after they were compared, and so is `int` to the error type,
through its box. -/
theorem isAssignable_of_isSubtype_parcels :
    ((isSubtype 10 ⟨31⟩ ⟨32⟩ parcels).1 = .ok true ∧ (isAssignable 10 ⟨31⟩ ⟨32⟩ parcels).1 = .ok true) ∧
    ((isSubtype 10 ⟨35⟩ ⟨37⟩ parcels).1 = .ok true ∧
      (isAssignable 10 ⟨35⟩ ⟨37⟩ (isSubtype 10 ⟨35⟩ ⟨37⟩ parcels).2).1 = .ok true) ∧
    (isSubtype 10 (TypeId.primitive .int) ⟨38⟩ parcels).1 = .ok true ∧
      (isAssignable 10 (TypeId.primitive .int) ⟨38⟩
        (isSubtype 10 (TypeId.primitive .int) ⟨38⟩ parcels).2).1 = .ok true := by
  have hwild : (isSubtype 10 ⟨31⟩ ⟨32⟩ parcels).1 = .ok true := by decide +kernel
  have harray : (isSubtype 10 ⟨35⟩ ⟨37⟩ parcels).1 = .ok true := by decide +kernel
  have hint : (isSubtype 10 (TypeId.primitive .int) ⟨38⟩ parcels).1 = .ok true := by decide +kernel
  have hwild' : (isAssignable 10 ⟨31⟩ ⟨32⟩ parcels).1.toOption.isSome = true := by decide +kernel
  have harray' : (isAssignable 10 ⟨35⟩ ⟨37⟩ (isSubtype 10 ⟨35⟩ ⟨37⟩ parcels).2).1.toOption.isSome =
      true := by decide +kernel
  have hint' : (isAssignable 10 (TypeId.primitive .int) ⟨38⟩
      (isSubtype 10 (TypeId.primitive .int) ⟨38⟩ parcels).2).1.toOption.isSome = true := by
    decide +kernel
  have hconverts := fun W (hW : Later parcels W) => converts_parcels hW
  have hconverts' := fun W (hW : Later parcels W) => converts_parcelArrays hW
  have hconverts'' := fun W (hW : Later parcels W) => converts_parcelInt hW
  have hkind : ∃ d, parcels.store.peekType ⟨31⟩ = some (⟨31⟩, { shape := .declared d }) := ⟨_, rfl⟩
  have hfree : parcels.CaptureFree ⟨35⟩ ∧ parcels.CaptureFree (TypeId.primitive .int) :=
    ⟨captureFree_of_listsFree listsFree_parcels (by simp),
      captureFree_of_listsFree listsFree_parcels (by simp)⟩
  have hcapture : parcels.config.captureInSubtyping = true := rfl
  have hannotations : parcels.config.includeAnnotations = false := rfl
  have hask : ∀ t s, parcels.hooks.isSubtype t s = none := fun _ _ => rfl
  have hassign : ∀ t s, parcels.hooks.isAssignable t s = none := fun _ _ => rfl
  -- what follows holds of any session, and must not evaluate this one
  generalize parcels = S at *
  refine ⟨⟨hwild, eq_true_of_isSome hwild' fun b V hb => ?_⟩,
    ⟨harray, eq_true_of_isSome harray' fun b V hb => ?_⟩, hint, eq_true_of_isSome hint' fun b V hb => ?_⟩
  · refine isAssignable_of_isSubtype hcapture hannotations (hask _ _) (hassign _ _) hconverts
      (Prod.ext hwild rfl) (Or.inr ⟨fun W hW u m hm => ?_, rfl⟩) hb
    obtain ⟨d, hd⟩ := hkind
    cases (peekType_mono hW.le.store hd).symm.trans hm
    exact ⟨nofun, rfl⟩
  · exact isAssignable_of_isSubtype hcapture hannotations (hask _ _) (hassign _ _) hconverts'
      (Prod.ext harray rfl) (Or.inl ⟨hfree.1, Later.refl _⟩) hb
  · exact isAssignable_of_isSubtype hcapture hannotations (hask _ _) (hassign _ _) hconverts''
      (Prod.ext hint rfl) (Or.inl ⟨hfree.2, Later.refl _⟩) hb

/-- A generic class `Box` implements `Source<List<F>>` with its own parameter `F`, and a generic class
`Crate` implements `Source<G>` with its own parameter `G`. There are the arrays
`Box<? extends Cloneable>[]` and `Source<List<? extends Cloneable>>[]`, at 35 and 38, the type
`Crate<? extends Cloneable>`, at 42, a `Source` of the next type that will be made, at 43, and the union
of an error type, at 44. -/
def crossings : Session :=
  withBoxes
    [.ofClass 11 [26], .variableOf 14, .ofClass 12 [28], .variableOf 15, .ofClass 13 [30],
     .variableOf 16, .ofClass 12 [30], .ofClass 11 [31],
     { shape := .wildcard { upper := some ⟨15⟩ } }, .ofClass 13 [33], .arrayOf 34, .ofClass 12 [33],
     .ofClass 11 [36], .arrayOf 37, .ofClass 17 [40], .variableOf 18, .ofClass 11 [40],
     .ofClass 17 [33], .ofClass 11 [46], { shape := .union [⟨45⟩] }, { shape := .error none }]
    [.ofType "Source" 25 .interface { typeParameters := [⟨14⟩] },
     .ofType "List" 27 .interface { typeParameters := [⟨15⟩] },
     .ofType "Box" 29 .plain { interfaces := [⟨32⟩], typeParameters := [⟨16⟩] }, .parameter "E" 26 11,
     .parameter "L" 28 12, .parameter "F" 30 13,
     .ofType "Crate" 39 .plain { interfaces := [⟨41⟩], typeParameters := [⟨18⟩] },
     .parameter "G" 40 17]

/-- In `crossings`, the array is a subtype of the other array, and so are the union and `int`, and
`Crate<? extends Cloneable>` and the `Source`. None of them is assignable afterwards: the components
of the arrays are captured, a union is not unboxed, and a second capture makes another variable. -/
theorem isAssignable_denied :
    ((isSubtype 10 ⟨35⟩ ⟨38⟩ crossings).1 = .ok true ∧
      (isAssignable 10 ⟨35⟩ ⟨38⟩ (isSubtype 10 ⟨35⟩ ⟨38⟩ crossings).2).1 = .ok false) ∧
    ((isSubtype 10 ⟨44⟩ (TypeId.primitive .int) crossings).1 = .ok true ∧
      (isAssignable 10 ⟨44⟩ (TypeId.primitive .int)
        (isSubtype 10 ⟨44⟩ (TypeId.primitive .int) crossings).2).1 = .ok false) ∧
    (isSubtype 10 ⟨42⟩ ⟨43⟩ crossings).1 = .ok true ∧
      (isAssignable 10 ⟨42⟩ ⟨43⟩ (isSubtype 10 ⟨42⟩ ⟨43⟩ crossings).2).1 = .ok false := by
  refine ⟨⟨?_, ?_⟩, ⟨?_, ?_⟩, ?_, ?_⟩ <;> decide +kernel

end Session

end JavaTypes
