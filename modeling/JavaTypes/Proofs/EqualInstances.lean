import JavaTypes.Proofs.EqualSubstitution
import JavaTypes.Proofs.Ranks

/-!
# Supertypes of equal types

Equal types of a class have equal supertypes, whichever handles they have and however they came
about.

* `Session.ElementsApart S`: elements are told apart by equality. `Session.Discerning S C` says also
  that no class names a type with a wildcard that is bounded by a wildcard;
* `typesEqual_seenFrom`: what a class names is seen from equal types as equal types;
* `typesEqual_supertype`, `forall₂_interfaces`: the superclasses are equal, and so are the interfaces;
* `exists_of_directlyAbove`: what is directly above an instance are the types that its class names
  (`supertypesPresent`), in this order, each of them seen from the instance.
-/

namespace JavaTypes

open Action Equality

namespace Session

variable {S T : Session} {C : ElementId → Prop} {a e : ElementId} {k k' t t' u u' : TypeId}
  {m n : TypeNode} {fuel fuel' : Nat}

/-- No two elements are equal, however much more is completed. -/
def ElementsApart (S : Session) : Prop :=
  ∀ {T}, Later S T → ∀ {d d' a b m n}, T.store.peekElement d = some (a, m) →
    T.store.peekElement d' = some (b, n) → T.ElementsEqual d d' → a = b

/-- Types are compared without annotations, no two elements are equal, and no wildcard in the types
that the classes in `C` name is bounded by a wildcard. -/
structure Discerning (S : Session) (C : ElementId → Prop) : Prop where
  policy : S.config.includeAnnotations = false
  elements : S.ElementsApart
  superclass : ∀ {T}, Later S T → ∀ {a t}, C a → Known (superclassNamed a) T (some t) → T.Flat t
  interfaces : ∀ {T}, Later S T → ∀ {a ts}, C a → Known (onStore (declaredInterfaces a)) T ts →
    ∀ t ∈ ts, T.Flat t

theorem Discerning.later (h : S.Discerning C) (hT : Later S T) : T.Discerning C where
  policy := hT.le.config ▸ h.policy
  elements := fun hU => h.elements (hT.trans hU)
  superclass hU := h.superclass (hT.trans hU)
  interfaces hU := h.interfaces (hT.trans hU)

/-! ### Parts of declared types -/

theorem TypesEqual.declaredParts (h : T.TypesEqual t t') (ht : T.Shows t u m)
    (ht' : T.Shows t' u' n) (hm : m.kind = .declared) :
    Option.Rel T.ElementsEqual m.element n.element ∧
      T.TypesEqual m.enclosingOrNone n.enclosingOrNone ∧
        List.Forall₂ T.TypesEqual m.arguments n.arguments := by
  have hn : n.kind = .declared := (EqualTypes.kind_eq h ht ht').symm.trans hm
  rcases h.alike ht ht' with ⟨rfl, rfl⟩ | halike
  · refine ⟨?_, .refl _, forall₂_typesEqual_refl _⟩
    cases m.element with
    | some d => exact .some (.refl d)
    | none => exact .none
  · obtain ⟨x, hx⟩ := TypeNode.shape_of_declared hm
    obtain ⟨y, hy⟩ := TypeNode.shape_of_declared hn
    rw [TypeNode.outline, TypeNode.outline, hx, hy] at halike
    obtain ⟨⟩ | ⟨helement, -⟩ := halike.elements
    obtain ⟨⟩ | ⟨henclosing, hrest⟩ := halike.types
    obtain ⟨⟩ | ⟨harguments, -⟩ := hrest
    obtain ⟨⟩ | ⟨henclosing, -⟩ := henclosing
    rw [TypeNode.element, TypeNode.element, TypeNode.arguments, TypeNode.arguments, hx, hy]
    exact ⟨helement, henclosing, harguments⟩

theorem isEmpty_eq_of_forall₂ {R : TypeId → TypeId → Prop} {ts ts' : List TypeId}
    (h : List.Forall₂ R ts ts') : ts.isEmpty = ts'.isEmpty := by
  cases h <;> rfl

section Discerning

variable (D : T.Discerning C)

include D

theorem eq_of_known_elementOf {r r' : Option ElementId}
    (h : Option.Rel T.ElementsEqual m.element n.element) (hr : Known (onStore m.elementOf) T r)
    (hr' : Known (onStore n.elementOf) T r') : r = r' := by
  rw [known_elementOf] at hr hr'
  generalize m.element = d, n.element = d' at h hr hr'
  revert hr hr'
  rcases h with hequal | _
  · rintro ⟨x, hx⟩ ⟨y, hy⟩
    rw [D.elements .rfl hx hy hequal]
  · rintro ⟨⟩ ⟨⟩
    rfl

theorem eq_of_known_omitsArguments {r r' : Bool}
    (helement : Option.Rel T.ElementsEqual m.element n.element)
    (harguments : List.Forall₂ T.TypesEqual m.arguments n.arguments)
    (hr : Known (onStore m.omitsArguments) T r) (hr' : Known (onStore n.omitsArguments) T r') :
    r = r' := by
  have hr := known_onStore.1 hr
  have hr' := known_onStore.1 hr'
  unfold TypeNode.omitsArguments at hr hr'
  rw [← isEmpty_eq_of_forall₂ harguments] at hr'
  split at hr
  · next hnone =>
    rw [if_pos hnone] at hr'
    obtain ⟨d, hd, hr⟩ := (known_bind_of fun e => by cases e <;> infer_instance).1 hr
    obtain ⟨d', hd', hr'⟩ := (known_bind_of fun e => by cases e <;> infer_instance).1 hr'
    obtain rfl := eq_of_known_elementOf D helement (known_onStore.2 hd) (known_onStore.2 hd')
    exact hr.unique hr'
  · next hsome =>
    rw [if_neg hsome] at hr'
    exact hr.unique hr'

/-- Of equal types, both are raw or neither is. -/
theorem eq_of_known_isRaw : ∀ {fuel : Nat} {t t' : TypeId} {r r' : Bool}, T.TypesEqual t t' →
    Known (onStore (isRaw fuel t)) T r → Known (onStore (isRaw fuel t')) T r' → r = r'
  | 0, _, _, _, _, _, hr, _ => absurd (known_onStore.1 hr) not_known_throw
  | fuel + 1, t, t', r, r', hequal, hr, hr' => by
      obtain ⟨m, hm, hr⟩ := known_bind.1 (known_onStore.1 hr)
      obtain ⟨n, hn, hr'⟩ := known_bind.1 (known_onStore.1 hr')
      obtain ⟨u, ht⟩ := known_typeNode.1 hm
      obtain ⟨u', ht'⟩ := known_typeNode.1 hn
      rw [← EqualTypes.kind_eq hequal ht ht'] at hr'
      split at hr
      · next hdeclared =>
        rw [if_pos hdeclared] at hr'
        obtain ⟨helement, henclosing, harguments⟩ := hequal.declaredParts ht ht' hdeclared
        have homits : ∀ {c c'}, Known m.omitsArguments T.store c →
            Known n.omitsArguments T.store c' → c = c' := fun hc hc' =>
          eq_of_known_omitsArguments D helement harguments (known_onStore.2 hc) (known_onStore.2 hc')
        rcases known_either.1 hr with ⟨hc, rfl⟩ | ⟨hc, hr⟩
        all_goals
          rcases known_either.1 hr' with ⟨hc', rfl⟩ | ⟨hc', hr'⟩
        · rfl
        · cases homits hc hc'
        · cases homits hc hc'
        · exact eq_of_known_isRaw henclosing (known_onStore.2 hr) (known_onStore.2 hr')
      · next hnot =>
        rw [if_neg hnot] at hr'
        exact hr.unique hr'

end Discerning

theorem enclosing_arguments_of_ne (hn : n.kind ≠ .declared) :
    n.enclosingOrNone = TypeId.none ∧ n.arguments = [] := by
  obtain ⟨shape, as⟩ := n
  cases shape with
  | declared d => exact absurd rfl hn
  | _ => exact ⟨rfl, rfl⟩

/-- Equal types have equal arguments, those of the types around them included. -/
theorem forall₂_allTypeArguments : ∀ {fuel : Nat} {t t' : TypeId} {ts ts' : List TypeId},
    T.TypesEqual t t' → Known (onStore (allTypeArguments fuel t)) T ts →
      Known (onStore (allTypeArguments fuel t')) T ts' → List.Forall₂ T.TypesEqual ts ts'
  | 0, _, _, _, _, _, h, _ => absurd (known_onStore.1 h) not_known_throw
  | fuel + 1, t, t', ts, ts', hequal, h, h' => by
      obtain ⟨m, hm, h⟩ := known_bind.1 (known_onStore.1 h)
      obtain ⟨n, hn, h'⟩ := known_bind.1 (known_onStore.1 h')
      obtain ⟨u, ht⟩ := known_typeNode.1 hm
      obtain ⟨u', ht'⟩ := known_typeNode.1 hn
      have hkind := EqualTypes.kind_eq hequal ht ht'
      rw [← hkind] at h'
      split at h
      · next hlike =>
        rw [if_pos hlike] at h'
        obtain ⟨outer, houter, rfl⟩ := known_map.1 h
        obtain ⟨outer', houter', rfl⟩ := known_map.1 h'
        have hparts : T.TypesEqual m.enclosingOrNone n.enclosingOrNone ∧
            List.Forall₂ T.TypesEqual m.arguments n.arguments := by
          by_cases hdeclared : m.kind = .declared
          · exact (hequal.declaredParts ht ht' hdeclared).2
          · obtain ⟨henclosing, harguments⟩ := enclosing_arguments_of_ne hdeclared
            obtain ⟨henclosing', harguments'⟩ := enclosing_arguments_of_ne (hkind ▸ hdeclared)
            rw [henclosing, henclosing', harguments, harguments']
            exact ⟨TypesEqual.refl _, .nil⟩
        exact List.rel_append (forall₂_allTypeArguments hparts.1 (known_onStore.2 houter)
          (known_onStore.2 houter')) hparts.2
      · next hnot =>
        rw [if_neg hnot] at h'
        cases known_pure.1 h
        cases known_pure.1 h'
        exact .nil

/-! ### What is seen from an instance -/

section Seen

variable (H : T.ClassTable C) (D : T.Discerning C)

include H D

/-- What a declaration names is seen from equal types as equal types. -/
theorem typesEqual_seenFrom {s : TypeId} (hflat : T.Flat s) (hequal : T.TypesEqual t t')
    (h : Known (seenFrom fuel t e s) T k) (h' : Known (seenFrom fuel t' e s) T k') :
    T.TypesEqual k k' := by
  obtain ⟨r, hr, h⟩ := known_bind.1 h
  obtain ⟨r', hr', h'⟩ := known_bind.1 h'
  obtain rfl := eq_of_known_isRaw D hequal hr hr'
  cases r with
  | true => exact h.unique h' ▸ TypesEqual.refl k
  | false =>
    obtain ⟨p, hp, h⟩ := known_bind.1 h
    obtain ⟨p', hp', h'⟩ := known_bind.1 h'
    obtain ⟨vals, hvals, rfl⟩ := known_map.1 (known_onStore.1 hp)
    obtain ⟨vals', hvals', rfl⟩ := known_map.1 (known_onStore.1 hp')
    have hequals := forall₂_allTypeArguments hequal (known_onStore.2 hvals) (known_onStore.2 hvals')
    rw [← isEmpty_eq_of_forall₂ hequals] at h'
    split at h
    · next hsome =>
      rw [if_pos hsome] at h'
      obtain ⟨own, hown, h⟩ := known_bind.1 h
      obtain ⟨vars, hvars, h⟩ := known_bind.1 h
      have h := (known_onStore.2 hvals).of_bind h
      have h' := (known_onStore.2 hvals').of_bind (hvars.of_bind (hown.of_bind h'))
      refine typesEqual_substitute D.policy H.derived H.absent ?_ hflat ?_ h h'
      · rw [Substitution.isActive, Substitution.isActive, hequals.length_eq]
      · exact fun _ _ _ _ hn => agreeOn_of_forall₂ hequals (Store.peekType_self hn)
    · next hnone =>
      rw [if_neg hnone] at h'
      exact h.unique h' ▸ TypesEqual.refl k

end Seen

/-! ### Direct supertypes -/

/-- Equal types of a class have nodes, which are declared and equal. -/
theorem exists_nodes (ha : T.IsClass t a) (hequal : T.TypesEqual t t') :
    ∃ u m u' n, T.Shows t u m ∧ T.Shows t' u' n ∧
      m.kind = .declared ∧ n.kind = .declared ∧ T.TypesEqual u u' := by
  obtain ⟨u, m, _, _, ht, hm, -⟩ := ha
  obtain ⟨u', n, ht', -⟩ := EqualTypes.exists_peek hequal ht
  exact ⟨u, m, u', n, ht, ht', hm, (EqualTypes.kind_eq hequal ht ht').symm.trans hm,
    (typesEqual_of_node ht).symm.trans (hequal.trans (typesEqual_of_node ht'))⟩

section Supertypes

variable (H : T.ClassTable C) (D : T.Discerning C) (hC : C a) (ha : T.IsClass t a)
  (hequal : T.TypesEqual t t')

include H D hC ha hequal

/-- The superclasses of equal types are equal. -/
theorem typesEqual_supertype (h : Known (supertype fuel t) T k)
    (h' : Known (supertype fuel' t') T k') : T.TypesEqual k k' := by
  obtain ⟨u, m, u', n, ht, ht', -, -, hnodes⟩ := exists_nodes ha hequal
  have ha' := H.isClass_of_equalTypes hC ha hequal
  have hseen := cases_of_known_supertype ha' ht' h'
  rcases cases_of_known_supertype ha ht h with ⟨hnone, rfl⟩ | ⟨s, hs, f, h⟩
  · rcases hseen with ⟨-, rfl⟩ | ⟨s, hs, -⟩
    · exact .refl _
    · cases hnone.unique hs
  · rcases hseen with ⟨hnone, rfl⟩ | ⟨s', hs', f', h'⟩
    · cases hnone.unique hs
    cases hs.unique hs'
    have hflat := D.superclass .rfl hC (known_superclassPresent_some.1 hs).1
    have h : Known (seenFrom (max f f') u a s) T k := h.grow le_rfl
    exact typesEqual_seenFrom H D hflat hnodes h (h'.grow le_rfl)

/-- The interfaces of equal types are equal. -/
theorem forall₂_interfaces {ks ks' : List TypeId} (h : Known (interfaces fuel t) T ks)
    (h' : Known (interfaces fuel' t') T ks') : List.Forall₂ T.TypesEqual ks ks' := by
  obtain ⟨u, m, u', n, ht, ht', -, -, hnodes⟩ := exists_nodes ha hequal
  obtain ⟨names, hnames, hks⟩ := exists_of_known_interfaces ha ht h
  obtain ⟨_, hnames', hks'⟩ :=
    exists_of_known_interfaces (H.isClass_of_equalTypes hC ha hequal) ht' h'
  cases hnames.unique hnames'
  refine forall₂_of_common hks hks' fun s hs k k' hk hk' => ?_
  obtain ⟨f, hk⟩ := hk
  obtain ⟨f', hk'⟩ := hk'
  have hk : Known (seenFrom (max f f') u a s) T k := hk.grow le_rfl
  exact typesEqual_seenFrom H D (D.interfaces .rfl hC hnames s hs) hnodes hk (hk'.grow le_rfl)

end Supertypes

end Session

/-! ## What is directly above an instance -/

theorem TypeKind.isDeclaredOrNone_iff {k : TypeKind} :
    k.isDeclaredOrNone = true ↔ k = .declared ∨ k = .error ∨ k = .noType .none := by
  cases k with
  | noType x => cases x <;> simp [isDeclaredOrNone, isDeclaredLike]
  | _ => simp [isDeclaredOrNone, isDeclaredLike]

/-- The supertypes of an element: its superclass, unless it is absent, and the interfaces that it
names. -/
def supertypesPresent (e : ElementId) : Query (List TypeId) := do
  let superclass ← superclassPresent e
  return superclass.toList ++ (← declaredInterfaces e)

instance settles_supertypesPresent (e : ElementId) :
    Settles (supertypesPresent e) (supertypesPresent e) :=
  settles_bind

namespace Session

variable {T : Session} {a e : ElementId} {k t u v x : TypeId} {m n : TypeNode} {fuel : Nat}
  {xs : List TypeId}

theorem Sees.kind_eq (hT : T.DerivesClasses) (h : T.Sees t a k x)
    (hk : T.Shows k v m) (hm : m.kind.isDeclaredOrNone = true)
    (hx : T.Shows x u n) : n.kind = m.kind := by
  rcases TypeKind.isDeclaredOrNone_iff.1 hm with hm | hm
  · have hdeclared : Yields T (onStore (viewType k)) fun _ y => y.2.kind = .declared :=
      (yields_viewType_of_peek hk).imp fun _ _ _ hy => by rw [hy]; exact hm
    rcases h.sameClass hT hdeclared with rfl | ⟨w, y, w', y', hx', hk', hy, -⟩
    · cases hx.symm.trans hk
      rfl
    · cases hx.symm.trans hx'
      exact hy.trans hm.symm
  · rcases h.eq_of_stays hk hm with rfl | rfl
    · cases hx.symm.trans hk.self
      rfl
    · cases hx.symm.trans hk
      rfl

/-- A superclass that is present is not absent. -/
theorem exists_kind_of_superclassPresent (h : Known (superclassPresent a) T (some k)) :
    ∃ v m, T.Shows k v m ∧ m.kind ≠ .noType .none := by
  obtain ⟨v, m, hk, hsome⟩ := known_unlessNone.1 (known_superclassPresent_some.1 h).2
  refine ⟨v, m, hk, fun hnone => ?_⟩
  rw [if_pos hnone] at hsome
  cases hsome

section Instance

variable (ha : T.IsClass t a) (ht : T.Shows t u n)

include ha ht

/-- What is directly above an instance are the types that its class names, seen from it. -/
theorem exists_of_directlyAbove (hT : T.DerivesClasses)
    (habsent : ∃ n, T.Shows TypeId.none TypeId.none n ∧ n.kind = .noType .none)
    (hkinds : ∀ ks, Known (supertypesPresent a) T ks → ∀ k ∈ ks, ∀ v m,
      T.Shows k v m → m.kind.isDeclaredOrNone = true)
    (h : T.DirectlyAbove t xs) :
    ∃ ks, Known (supertypesPresent a) T ks ∧ List.Forall₂ (T.Sees u a) ks xs := by
  obtain ⟨fuel, above, r, is, habove, hr, his, rfl⟩ := h
  obtain ⟨names, hnames, hseen⟩ := exists_of_known_interfaces ha ht his
  rcases cases_of_known_supertype ha ht habove with ⟨hnone, rfl⟩ | ⟨k, hsome, hsees⟩
  · obtain ⟨y, hy, hk⟩ := habsent
    obtain ⟨w, y', hy', rfl⟩ := known_unlessNone.1 hr
    cases hy.symm.trans hy'
    rw [if_pos hk]
    exact ⟨names, hnone.bind (hnames.bind rfl), hseen⟩
  · obtain ⟨v, m, hk, hm⟩ := exists_kind_of_superclassPresent hsome
    obtain ⟨w, y, hy, rfl⟩ := known_unlessNone.1 hr
    have hall : Known (supertypesPresent a) T (k :: names) := hsome.bind (hnames.bind rfl)
    rw [hsees.kind_eq hT hk (hkinds _ hall k (by simp) v m hk) hy, if_neg hm]
    exact ⟨k :: names, hall, .cons hsees hseen⟩

end Instance

end Session

end JavaTypes
