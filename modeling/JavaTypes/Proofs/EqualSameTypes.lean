import JavaTypes.Proofs.EqualSubstitution
import JavaTypes.Proofs.SameTypeSymmetry

/-!
# Equal types are the same

Two types that are equal part by part are the same type, and each contains the other as an argument.
Type variables without an element are left out, since these are the same only if they are one node.
Executable types, whose variables are renamed before they are compared, are left to the place where
the lemmas are used.

* `Session.Hereditary T R`: the property `R` passes on to the parts of a type, and no type variable
  without an element has it; `Session.ExecutablesSame T R`: equal executable types with the property
  are the same;
* `certain_sameType_and_containsType`: no comparison of equal types with such a property says no;
* `Session.Regular T t`: there are no executable types in `t` at all, and every variable has an element.
  `certain_sameType`, `certain_containsType` are about such types;
* `certain_subtype_of_equal`: each of two equal types is a subtype of the other.
-/

namespace JavaTypes

open Action Equality

/-- The types that a node mentions, also in its annotations. -/
def TypeNode.mentioned (n : TypeNode) : List TypeId :=
  n.outline.types.flatten ++ n.annotations.map AnnotationUse.type

namespace Session

variable {T : Session} {c s t u v : TypeId} {m n : TypeNode}

/-- There is no executable type in the type, and every type variable in it has an element. -/
def Regular (T : Session) (t : TypeId) : Prop :=
  ∃ P : TypeId → Prop, P t ∧ ∀ s, P s → ∀ u n, T.store.peekType s = some (u, n) →
    n.kind ≠ .executable ∧ (n.kind = .typeVar → n.element ≠ none) ∧ ∀ c ∈ n.mentioned, P c

theorem Regular.kind_ne (h : T.Regular t) (ht : T.Shows t u n) : n.kind ≠ .executable := by
  obtain ⟨P, hP, hclosed⟩ := h
  exact (hclosed t hP u n ht).1

theorem Regular.element_ne (h : T.Regular t) (ht : T.Shows t u n)
    (hn : n.kind = .typeVar) : n.element ≠ none := by
  obtain ⟨P, hP, hclosed⟩ := h
  exact (hclosed t hP u n ht).2.1 hn

theorem Regular.mentioned (h : T.Regular t) (ht : T.Shows t u n)
    (hc : c ∈ n.mentioned) : T.Regular c := by
  obtain ⟨P, hP, hclosed⟩ := h
  exact ⟨P, (hclosed t hP u n ht).2.2 c hc, hclosed⟩

theorem Regular.part (h : T.Regular t) (ht : T.Shows t u n) {cs : List TypeId}
    (hcs : cs ∈ n.outline.types) (hc : c ∈ cs) : T.Regular c :=
  h.mentioned ht (List.mem_append_left _ (List.mem_flatten.2 ⟨cs, hcs, hc⟩))

theorem Regular.enclosing (h : T.Regular t) (ht : T.Shows t u n)
    (hn : n.kind = .declared) : T.Regular n.enclosingOrNone := by
  obtain ⟨d, hd⟩ := TypeNode.shape_of_declared hn
  have hmem : [n.enclosingOrNone] ∈ n.outline.types := by simp [TypeNode.outline, hd]
  exact h.part ht hmem List.mem_cons_self

theorem Regular.argument (h : T.Regular t) (ht : T.Shows t u n)
    (hn : n.kind = .declared) (hc : c ∈ n.arguments) : T.Regular c := by
  obtain ⟨d, hd⟩ := TypeNode.shape_of_declared hn
  exact h.part ht (by simp [TypeNode.outline, TypeNode.arguments, hd]) hc

theorem Regular.annotation (h : T.Regular t) (ht : T.Shows t u n)
    {a : AnnotationUse} (ha : a ∈ n.annotations) : T.Regular a.type :=
  h.mentioned ht (List.mem_append_right _ (List.mem_map.2 ⟨a, ha, rfl⟩))

theorem Regular.of_node (h : T.Regular t) (ht : T.Shows t u n) : T.Regular u := by
  obtain ⟨P, hP, hclosed⟩ := h
  refine ⟨fun s => P s ∨ s = u, .inr rfl, ?_⟩
  rintro s (hs | rfl) v x hx
  · obtain ⟨hexec, hvar, hparts⟩ := hclosed s hs v x hx
    exact ⟨hexec, hvar, fun c hc => .inl (hparts c hc)⟩
  · cases ht.self.symm.trans hx
    obtain ⟨hexec, hvar, hparts⟩ := hclosed t hP _ n ht
    exact ⟨hexec, hvar, fun c hc => .inl (hparts c hc)⟩

/-! ### Properties that pass on to parts -/

/-- The property passes on to the parts of a type, and to the types of its annotations where these
count. A type variable that has it has an element. -/
structure Hereditary (T : Session) (R : TypeId → Prop) : Prop where
  of_node : ∀ {t u n}, R t → T.store.peekType t = some (u, n) → R u
  part : ∀ {t u n c}, R t → T.store.peekType t = some (u, n) → c ∈ n.outline.types.flatten → R c
  annotation : T.config.includeAnnotations = true → ∀ {t u n} {a : AnnotationUse}, R t →
    T.store.peekType t = some (u, n) → a ∈ n.annotations → R a.type
  element_ne : ∀ {t u n}, R t → T.store.peekType t = some (u, n) → n.kind = .typeVar →
    n.element ≠ none

/-- Equal executable types with the property are the same, if this is so of all equal types one step
below. -/
def ExecutablesSame (T : Session) (R : TypeId → Prop) : Prop :=
  ∀ {j : Judgements} {p : Premises} {t s : TypeId} {m n : TypeNode}, j.Settle j →
    (∀ {a b}, T.TypesEqual a b → R a → R b → Certain (j.sameType p a b) T) →
      T.store.peekType t = some (t, m) → T.store.peekType s = some (s, n) → R t → R s →
        T.TypesEqual t s → m.kind = .executable → Certain (j.sameExecutable p m s n) T

theorem hereditary_regular : T.Hereditary T.Regular where
  of_node h ht := h.of_node ht
  part h ht hc := h.mentioned ht (List.mem_append_left _ hc)
  annotation _ _ _ _ _ h ht ha := h.annotation ht ha
  element_ne h ht := h.element_ne ht

theorem executablesSame_regular : T.ExecutablesSame T.Regular :=
  fun _ _ ht _ hr _ _ hm => absurd hm (hr.kind_ne ht)

/-! ### Elements of equal types -/

theorem certain_bind_viewType {f : TypeId × TypeNode → Query Bool} [sf : ∀ x, Settles (f x) (f x)]
    (h : ∀ u n, T.Shows t u n → Certain (f (u, n)) T) :
    Certain (onStore (viewType t) >>= f) T :=
  .bind fun x hx => h x.1 x.2 (shows_of_known hx)

theorem certain_sameElement {fuel : Nat} {d e : ElementId} (h : T.ElementsEqual d e) :
    Certain (sameElement fuel d e) T :=
  fun _ hr => (known_sameElement hr).2 h

/-- Equal elements are completed to equal elements. -/
theorem elementsEqual_of_elementOf {r r' : Option ElementId}
    (h : Option.Rel T.ElementsEqual m.element n.element) (hr : Known (onStore m.elementOf) T r)
    (hr' : Known (onStore n.elementOf) T r') : Option.Rel T.ElementsEqual r r' := by
  rw [known_elementOf] at hr hr'
  generalize m.element = d, n.element = d' at h hr hr'
  revert hr hr'
  rcases h with hequal | _
  · rintro ⟨x, hx⟩ ⟨y, hy⟩
    exact .some (((EqualElements.of_node hx).symm.trans hequal).trans (.of_node hy))
  · rintro ⟨⟩ ⟨⟩
    exact .none

/-- Type variables with alike outlines were not captured, and have equal elements. -/
theorem Alike.variables (h : T.Alike m.outline n.outline) (hm : m.kind = .typeVar) :
    m.isCapture = false ∧ (n.kind = .typeVar ∧ n.isCapture = false) ∧
      Option.Rel T.ElementsEqual m.element n.element := by
  obtain ⟨shape, as⟩ := m
  cases shape with
  | typeVar x =>
    have hsome := h.isSome
    have hkind := h.kind
    simp only [TypeNode.outline] at hsome hkind
    split at hsome
    · cases hsome
    · next hx =>
      rw [if_neg hx] at hkind
      obtain ⟨shape', as'⟩ := n
      cases shape' with
      | typeVar y =>
        dsimp only at hkind
        split at hkind
        · cases hkind
        · next hy =>
          obtain ⟨⟩ | ⟨hrel, -⟩ := h.elements
          exact ⟨eq_false_of_ne_true hx, ⟨rfl, eq_false_of_ne_true hy⟩, hrel⟩
      | _ => cases hkind
  | _ => cases hm

/-- Variables with alike outlines are the same: they have equal elements, and neither was captured. -/
theorem certain_sameTypeVariable {fuel : Nat} (ht : T.Shows t u m)
    (hs : T.Shows s v n) (hm : m.kind = .typeVar) (helement : m.element ≠ none)
    (halike : T.Alike m.outline n.outline) : Certain (sameTypeVariable fuel t s) T := by
  rw [sameTypeVariable_eq]
  refine certain_bind_viewType fun u' m' ht' => ?_
  refine certain_bind_viewType fun v' n' hs' => ?_
  cases ht.symm.trans ht'
  cases hs.symm.trans hs'
  obtain ⟨hfree, hfree', hrel⟩ := halike.variables hm
  unfold sameVariables
  split
  · exact certain_true
  rw [if_neg (by simp [hm, hfree, hfree'.1, hfree'.2])]
  refine .bind fun d hd => ?_
  refine .bind fun e he => ?_
  cases elementsEqual_of_elementOf hrel hd he with
  | some h => exact certain_sameElement h
  | none => exact absurd (known_elementOf_none.1 hd) helement

theorem Alike.kind_eq (h : T.Alike m.outline n.outline) : m.kind = n.kind := by
  obtain ⟨k, hk⟩ := Option.isSome_iff_exists.1 h.isSome
  rw [TypeNode.kind_of_outline hk, TypeNode.kind_of_outline (h.kind ▸ hk)]

/-! ### One step -/

section Step

variable {j : Judgements} [hj : j.Settle j] {p : Premises} {ss ts as bs : List TypeId}

include hj

theorem certain_sameOwner (h : Option.Rel T.ElementsEqual m.element n.element) :
    Certain (j.sameOwner m n) T := by
  refine .bind fun d hd => ?_
  refine .bind fun e he => ?_
  exact certain_sameOptions
    (optionRel_imp (fun _ _ => certain_sameElement) (elementsEqual_of_elementOf h hd he))

theorem certain_isAmong (hs : s ∈ ss) (h : Certain (j.sameType p t s) T) :
    Certain (j.isAmong p t ss) T := by
  induction ss with
  | nil => cases hs
  | cons s' ss ih =>
    rcases List.mem_cons.1 hs with rfl | hs
    · exact .either_left h
    · exact .either_right (ih hs)

theorem certain_areAmong
    (h : ∀ t ∈ ts, ∃ s ∈ ss, Certain (j.sameType p t s) T) : Certain (j.areAmong p ts ss) T := by
  induction ts with
  | nil => exact certain_true
  | cons t ts ih =>
    obtain ⟨s, hs, hts⟩ := h t List.mem_cons_self
    exact .both (certain_isAmong hs hts) (ih fun t' ht' => h t' (List.mem_cons_of_mem t ht'))

theorem certain_equivalentArguments (h : Certain (j.sameType p t s) T) :
    Certain (j.equivalentArguments p t s) T := by
  intro b hb
  rcases Judgements.known_equivalentArguments hb with ⟨-, rfl⟩ | ⟨hfalse, -⟩
  · rfl
  · exact absurd (h false hfalse) Bool.false_ne_true

theorem certain_sameDeclared (helement : Option.Rel T.ElementsEqual m.element n.element)
    (henclosing : Certain (j.sameType p m.enclosingOrNone n.enclosingOrNone) T)
    (harguments : List.Forall₂ (fun a b => Certain (j.sameType p a b) T) m.arguments n.arguments) :
    Certain (j.sameDeclared p m n) T := by
  refine .both (certain_sameOwner helement) ?_
  exact .both henclosing (certain_sameLists (harguments.imp fun _ _ => certain_equivalentArguments))

theorem certain_sameBounds (h : List.Forall₂ (fun a b =>
      Certain (j.sameType p a b) T ∧ Certain (j.sameType p b a) T) as bs) :
    Certain (Action.both (j.areAmong p as bs) (j.areAmong p bs as)) T := by
  refine .both (certain_areAmong fun a ha => ?_) (certain_areAmong fun b hb => ?_)
  · obtain ⟨b, hb, hab, -⟩ := exists_of_forall₂_left h ha
    exact ⟨b, hb, hab⟩
  · obtain ⟨a, ha, -, hba⟩ := exists_of_forall₂_right h hb
    exact ⟨a, ha, hba⟩

end Step

section Step

variable {R : TypeId → Prop} (hR : T.Hereditary R) (hexec : T.ExecutablesSame R)

variable {j : Judgements} [hj : j.Settle j] {p : Premises} (self : ∀ a, Certain (j.sameType p a a) T)
  (same : ∀ {a b}, T.TypesEqual a b → R a → R b → Certain (j.sameType p a b) T)

variable (ht : T.Shows t t m) (hs : T.Shows s s n) (hrt : R t) (hrs : R s)

include hR same ht hs hrt hrs

omit hj in
/-- The parts of equal types are compared with the answer yes, in either order. -/
theorem forall₂_certain_parts (halike : T.Alike m.outline n.outline) :
    List.Forall₂ (List.Forall₂ fun a b => Certain (j.sameType p a b) T ∧ Certain (j.sameType p b a) T)
      m.outline.types n.outline.types := by
  refine forall₂_imp_of_mem (fun as has bs hbs h => forall₂_imp_of_mem (fun a ha b hb hab => ?_) h)
    halike.types
  have ha := hR.part hrt ht (List.mem_flatten.2 ⟨as, has, ha⟩)
  have hb := hR.part hrs hs (List.mem_flatten.2 ⟨bs, hbs, hb⟩)
  exact ⟨same hab ha hb, same hab.symm hb ha⟩

include hexec hj self

theorem certain_sameParts (h : T.TypesEqual t s) (contains : Certain (j.containsType p t s) T)
    (contains' : Certain (j.containsType p s t) T) (halike : T.Alike m.outline n.outline) :
    Certain (j.sameParts p t m s n) T := by
  have hkind := halike.kind_eq
  have hparts := forall₂_certain_parts hR same ht hs hrt hrs halike
  have hexec := hexec hj same ht hs hrt hrs h
  have hvar := hR.element_ne hrt ht
  obtain ⟨shape, as⟩ := m
  obtain ⟨shape', bs⟩ := n
  cases shape with
  | typeVar v => exact certain_sameTypeVariable ht hs rfl (hvar rfl) halike
  | wildcard v =>
    cases shape' with
    | wildcard w =>
      exact Certain.both contains contains'
    | _ => cases hkind
  | declared d =>
    cases shape' with
    | declared e =>
      obtain ⟨⟩ | ⟨helement, -⟩ := halike.elements
      obtain ⟨⟩ | ⟨henclosing, hrest⟩ := hparts
      obtain ⟨⟩ | ⟨henclosing, -⟩ := henclosing
      obtain ⟨⟩ | ⟨harguments, -⟩ := hrest
      exact certain_sameDeclared helement henclosing.1 (harguments.imp fun _ _ h => h.1)
    | _ => cases hkind
  | error d =>
    cases shape' with
    | error e =>
      obtain ⟨⟩ | ⟨helement, -⟩ := halike.elements
      exact certain_sameDeclared helement (self _) .nil
    | _ => cases hkind
  | array c =>
    cases shape' with
    | array d =>
      obtain ⟨⟩ | ⟨hcomponent, -⟩ := hparts
      exact certain_sameOptions (optionRel_of_forall₂_toList (hcomponent.imp fun _ _ h => h.1))
    | _ => cases hkind
  | intersection as =>
    cases shape' with
    | intersection bs =>
      obtain ⟨⟩ | ⟨h, -⟩ := hparts
      exact certain_sameBounds h
    | _ => cases hkind
  | union as =>
    cases shape' with
    | union bs =>
      obtain ⟨⟩ | ⟨h, -⟩ := hparts
      exact certain_sameBounds h
    | _ => cases hkind
  | executable x =>
    cases shape' with
    | executable y => exact hexec rfl
    | _ => cases hkind
  | primitive x =>
    cases shape' with
    | primitive y =>
      cases hkind
      exact fun b hb => (known_pure.1 hb).trans (decide_eq_true rfl)
    | _ => cases hkind
  | noType x =>
    cases shape' with
    | noType y =>
      cases hkind
      exact fun b hb => (known_pure.1 hb).trans (decide_eq_true rfl)
    | _ => cases hkind
  | null =>
    cases shape' with
    | null => exact certain_true
    | _ => cases hkind

theorem certain_sameNodes (h : T.TypesEqual t s) (contains : Certain (j.containsType p t s) T)
    (contains' : Certain (j.containsType p s t) T) : Certain (j.sameNodes p (t, m) (s, n)) T := by
  obtain ⟨v, x, hx, hnodes⟩ := EqualTypes.exists_peek h ht
  cases hs.symm.trans hx
  unfold Judgements.sameNodes
  split
  · exact certain_true
  next hne =>
  obtain hnodes := hnodes.resolve_left fun heq => hne heq.1
  refine .bind fun c hc => ?_
  obtain rfl := known_config.1 hc
  refine .both ?_
    (certain_sameParts hR hexec self same ht hs hrt hrs h contains contains' hnodes.outlines)
  split
  · next hq =>
    refine certain_annotations
      (forall₂_imp_of_mem (fun a ha b hb hab => ⟨?_, hab.2⟩) (hnodes.annotations hq))
    exact same hab.1 (hR.annotation hq hrt ht ha) (hR.annotation hq hrs hs hb)
  · exact certain_true

omit hexec self in
theorem certain_sameWildcard (h : T.TypesEqual t s) (hm : m.kind = .wildcard) :
    Certain (j.sameWildcard p t m s n) T := by
  obtain ⟨v, x, hx, hnodes⟩ := EqualTypes.exists_peek h ht
  cases hs.symm.trans hx
  unfold Judgements.sameWildcard
  split
  · exact certain_true
  next hne =>
  obtain hnodes := hnodes.resolve_left fun heq => hne heq.1
  have hkind := hnodes.kind_eq.symm.trans hm
  have hparts := forall₂_certain_parts hR same ht hs hrt hrs hnodes.outlines
  obtain ⟨shape, as⟩ := m
  obtain ⟨shape', bs⟩ := n
  cases shape <;> cases hm
  cases shape' <;> cases hkind
  obtain ⟨⟩ | ⟨hupper, hrest⟩ := hparts
  obtain ⟨⟩ | ⟨hlower, -⟩ := hrest
  exact .both (certain_sameOptions (optionRel_of_forall₂_toList (hupper.imp fun _ _ h => h.1)))
    (certain_sameOptions (optionRel_of_forall₂_toList (hlower.imp fun _ _ h => h.1)))

end Step

/-! ### All levels -/

section Levels

variable {p : Premises}

variable {k : Nat}

/-- Handles that lead to one node are the same type. -/
theorem certain_sameType_of_node (h : ∀ {u m v n}, T.Shows t u m →
    T.Shows s v n → u = v) : Certain ((judgements k).sameType p t s) T := by
  cases k with
  | zero => rintro _ ⟨⟩
  | succ k =>
    rw [judgements_sameType, Judgements.sameTypeStep_eq]
    refine certain_bind_viewType fun u m ht => ?_
    refine certain_bind_viewType fun v n hs => ?_
    unfold Judgements.sameNodes
    rw [if_pos (h ht hs)]
    exact certain_true

theorem certain_sameType_self (t : TypeId) : Certain ((judgements k).sameType p t t) T :=
  certain_sameType_of_node fun ht hs => by
    cases ht.symm.trans hs
    rfl

theorem certain_containsType_succ (hsame : ∀ {u m v n}, T.Shows t u m → T.Shows s v n →
      m.kind ≠ .wildcard → Certain ((judgements k).sameType p u v) T)
    (hwild : ∀ {u m v n}, T.Shows t u m → T.Shows s v n → m.kind = .wildcard →
      Certain ((judgements k).sameWildcard p u m v n) T) :
    Certain ((judgements (k + 1)).containsType p t s) T := by
  refine certain_bind_viewType fun u m ht => ?_
  refine certain_bind_viewType fun v n hs => ?_
  dsimp only
  split
  · next hm => exact hsame ht hs hm
  · next hm => exact .either_left (hwild ht hs (not_not.1 hm))

theorem certain_containsType_self (t : TypeId) : Certain ((judgements k).containsType p t t) T := by
  cases k with
  | zero => rintro _ ⟨⟩
  | succ k =>
    refine certain_containsType_succ (fun ht hs _ => ?_) fun ht hs _ => ?_
    all_goals cases ht.symm.trans hs
    · exact certain_sameType_self _
    · rw [Judgements.sameWildcard, if_pos rfl]
      exact certain_true

/-- A comparison of equal types never says no, and neither does a question whether one contains the
other. -/
theorem certain_sameType_and_containsType {R : TypeId → Prop} (hR : T.Hereditary R)
    (hexec : T.ExecutablesSame R) : ∀ {k : Nat} {t s : TypeId}, T.TypesEqual t s → R t → R s →
      Certain ((judgements k).sameType p t s) T ∧ Certain ((judgements k).containsType p t s) T
  | 0, _, _, _, _, _ => ⟨fun _ h => absurd h not_known_throw, fun _ h => absurd h not_known_throw⟩
  | k + 1, t, s, h, hrt, hrs => by
      have same : ∀ {a b}, T.TypesEqual a b → R a → R b → Certain ((judgements k).sameType p a b) T :=
        fun hab ha hb => (certain_sameType_and_containsType hR hexec hab ha hb).1
      have hnodes : ∀ {u v m n}, T.Shows t u m → T.Shows s v n →
          T.TypesEqual u v ∧ R u ∧ R v := fun ht hs =>
        ⟨((typesEqual_of_node ht).symm.trans h).trans (typesEqual_of_node hs), hR.of_node hrt ht,
          hR.of_node hrs hs⟩
      constructor
      · rw [judgements_sameType, Judgements.sameTypeStep_eq]
        refine certain_bind_viewType fun u m ht => ?_
        refine certain_bind_viewType fun v n hs => ?_
        obtain ⟨huv, hu, hv⟩ := hnodes ht hs
        exact certain_sameNodes hR hexec certain_sameType_self same ht.self
          hs.self hu hv huv (certain_sameType_and_containsType hR hexec huv hu hv).2
          (certain_sameType_and_containsType hR hexec huv.symm hv hu).2
      · refine certain_containsType_succ (fun ht hs _ => ?_) fun ht hs hm => ?_
        all_goals obtain ⟨huv, hu, hv⟩ := hnodes ht hs
        · exact same huv hu hv
        · exact certain_sameWildcard hR same ht.self hs.self hu hv huv hm

theorem certain_sameType (h : T.TypesEqual t s) (ht : T.Regular t) (hs : T.Regular s) :
    Certain ((judgements k).sameType p t s) T :=
  (certain_sameType_and_containsType hereditary_regular executablesSame_regular h ht hs).1

theorem certain_containsType (h : T.TypesEqual t s) (ht : T.Regular t) (hs : T.Regular s) :
    Certain ((judgements k).containsType p t s) T :=
  (certain_sameType_and_containsType hereditary_regular executablesSame_regular h ht hs).2

end Levels

end Session

end JavaTypes
