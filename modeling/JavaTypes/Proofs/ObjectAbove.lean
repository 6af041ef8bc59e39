import JavaTypes.Proofs.CapturedTypes

/-!
# Every reference is below `Object`

A comparison with the type `Object` says yes to types of every reference kind, captured or not. A search
for `Object` finds something from every declared type and every intersection, whatever the declarations
are: what it finds is a type of the element of `Object`, or an error type.

* `Session.ObjectNode T o v n`: the type `Object` has the node `n`. It is declared by its own element,
  without arguments, and lies inside no other declared type;
* `Session.IsReference T t`, `Session.BoundedByReferences T`: what is asked of the type and of the bounds
  of type variables, which a comparison may go through;
* `certain_subtype_objectNode`: references are below `Object`, by induction on the fuel;
* `objectType_aboveReferences`: both comparisons say yes.

A declared type without an element is not below `Object`, nor is anything but `Object` itself if its type
has arguments or is not a declared type (`objectType_denied_besideObject`).
-/

namespace JavaTypes

open Action

namespace Session

variable {S S' T : Session} {p : Premises} {k fuel : Nat} {b : Bool} {o : ElementId}
  {s t t' u v x : TypeId} {m n : TypeNode}

/-- The node of the type `Object`. -/
structure ObjectNode (T : Session) (o : ElementId) (v : TypeId) (n : TypeNode) : Prop where
  object : T.IsObject o
  type : ∃ s, Known objectType T s ∧ T.store.peekType s = some (v, n)
  kind : n.kind = .declared
  element : Known (onStore n.elementOf) T (some o)
  arguments : n.arguments = []
  outermost : ∀ w y, T.store.peekType n.enclosingOrNone = some (w, y) → y.kind ≠ .declared

/-- The type `Object` is an error type, or it is declared by `Object`. -/
def PlainObject (T : Session) : Prop :=
  ∀ o s v n, T.IsObject o → Known objectType T s → T.store.peekType s = some (v, n) →
    n.kind = .error ∨ T.ObjectNode o v n

theorem ObjectNode.node (H : T.ObjectNode o v n) : T.store.peekType v = some (v, n) := by
  obtain ⟨s, -, hs⟩ := H.type
  exact Store.peekType_self hs

/-- What a search for `Object` finds belongs to its element, or is an error type. -/
theorem ObjectNode.found (H : T.ObjectNode o v n) : T.LanguageFound o := by
  obtain ⟨known, hknown, rfl⟩ := H.object
  obtain ⟨s, hs, hv⟩ := H.type
  obtain ⟨known', hknown', rfl⟩ := known_objectType hs
  intro known'' x hknown'' hx
  cases hknown.unique hknown'
  cases hknown.unique hknown''
  rw [WellKnown.aboveArrays, if_pos rfl] at hx
  cases hx
  exact .inl ⟨v, n, hv, by rw [H.kind]; decide, H.element⟩

/-! ### References -/

/-- The type is of a reference kind, and a declared one has an element. -/
def IsReference (T : Session) (t : TypeId) : Prop :=
  ∀ u n, T.store.peekType t = some (u, n) →
    n.kind.isReference = true ∧ (n.kind = .declared → n.element ≠ none)

/-- The bounds of type variables are references. -/
def BoundedByReferences (T : Session) : Prop :=
  ∀ t u n b, T.store.peekType t = some (u, n) → n.kind = .typeVar → Known (upperBound u) T b →
    T.IsReference b

theorem IsReference.of_node (h : T.IsReference t) (ht : T.Shows t u m) : T.IsReference u := by
  intro u' m' hu
  cases ht.self.symm.trans hu
  exact h u m ht

theorem isReference_typeVar (ht : T.Shows t u m) (hm : m.kind = .typeVar) : T.IsReference t := by
  intro u' m' ht'
  cases ht.symm.trans ht'
  rw [hm]
  exact ⟨rfl, nofun⟩

/-! ### One step -/

/-- What a search for `Object` finds is below it, if the type variables of its element are. -/
theorem certain_belowFound_object (H : T.ObjectNode o v n) (hx : T.IsFound o x)
    (hvar : ∀ {w y}, T.Shows x w y → y.kind = .typeVar → Certain ((judgements k).subtype p false x v) T) :
    Certain ((judgements k).belowFound p v n (some x)) T := by
  have houter : ∀ m, Certain ((judgements k).enclosingBelow p m n) T := fun m =>
    certain_enclosingBelow_of fun hy hdeclared => absurd hdeclared (H.outermost _ _ hy)
  rcases hx with ⟨w, m, hw, hne, he⟩ | ⟨w, m, hw, herror⟩
  · refine certain_belowFound_of hw (fun hkind => hvar hw ?_) (fun _ => .inl H.arguments)
      fun _ => houter m
    obtain ⟨d, -, hd, -⟩ := known_elementOf_some.1 he
    obtain ⟨shape, as⟩ := m
    cases shape with
    | typeVar y => rfl
    | declared y => exact absurd rfl hkind
    | error e => exact absurd rfl hne
    | _ => cases hd
  · exact certain_belowFound_of hw (fun _ => certain_subtype_error herror hw)
      (fun _ => .inl H.arguments) fun _ => houter m

/-- A reference is below `Object`, as far as its kind says, if its bound and the type variables are. -/
theorem certain_belowByKind_object (H : T.ObjectNode o v n) (ht : T.Shows t t m)
    (href : T.IsReference t)
    (hbound : m.kind = .typeVar → ∀ c, Known (upperBound t) T c →
      Certain ((judgements k).subtype p false c v) T)
    (hvar : ∀ {x w y}, T.Shows x w y → y.kind = .typeVar →
      Certain ((judgements k).subtype p false x v) T) :
    Certain ((judgements k).belowByKind p false t v n) T := by
  obtain ⟨hkind, helement⟩ := href t m ht
  by_cases hfound : m.kind = .declared ∨ ∃ bounds, m.shape = .intersection bounds
  · have hm : m.kind = .declared ∨ m.kind = .intersection :=
      hfound.imp_right fun ⟨_, hbounds⟩ => congrArg TypeShape.kind hbounds
    refine certain_belowByKind_found ht hm H.kind fun hown => ⟨o, hown.unique H.element, fun hr => ?_⟩
    obtain ⟨x, rfl⟩ := Option.ne_none_iff_exists'.1
      (found_of_isObject H.object ht (hfound.imp_left fun hm => ⟨hm, helement hm⟩) hr)
    exact ⟨x, rfl, certain_belowFound_object H (above_of_known_asSuperFrom H.found hr).2 hvar⟩
  refine .of_known (known_onStore.2 (known_typeNode.2 ⟨t, ht⟩)) ?_
  cases hshape : m.shape with
  | null =>
    intro b hb
    rw [known_pure.1 hb, H.kind]
    rfl
  | error e => exact certain_true
  | typeVar y =>
    exact .bind (hbound (congrArg TypeShape.kind hshape))
  | declared y => exact absurd (.inl (congrArg TypeShape.kind hshape)) hfound
  | intersection bounds => exact absurd (.inr ⟨bounds, hshape⟩) hfound
  | array component =>
    obtain ⟨known, hknown, rfl⟩ := H.object
    obtain ⟨y, hy⟩ := TypeNode.shape_of_declared H.kind
    unfold Judgements.arrayBelow
    rw [hy]
    refine .of_known hknown (.of_known H.element ?_)
    intro b hb
    rw [known_pure.1 hb, WellKnown.aboveArrays, if_pos rfl]
    rfl
  | _ =>
    rw [TypeNode.kind, hshape] at hkind
    cases hkind

/-! ### Comparisons -/

theorem certain_subtype_toError (hs : T.Shows s v n) (hn : n.kind = .error) :
    Certain ((judgements k).subtype p false t s) T := by
  refine certain_subtype_nodes fun {k u m v' n'} _ hs' _ => ?_
  cases hs.symm.trans hs'
  obtain ⟨e, he⟩ := TypeNode.shape_of_error hn
  rw [Judgements.belowNode_of_error _ _ he]
  exact certain_true

section References

variable (H : T.ObjectNode o v n) (hbounds : T.BoundedByReferences)

include H hbounds

/-- References are below `Object` without capture. -/
theorem certain_subtype_objectNode : ∀ {k : Nat} {t s : TypeId}, T.Shows s v n → T.IsReference t →
    Certain ((judgements k).subtype p false t s) T
  | 0, _, _, _, _ => fun _ h => by cases h
  | k + 1, t, s, hs, href => by
      refine certain_subtype_succ fun {u m v' n'} ht hs' _ => ?_
      cases hs.symm.trans hs'
      have hkind : ∀ kind, kind ≠ .declared → n.kind ≠ kind := by
        rintro kind hne rfl
        exact hne H.kind
      refine certain_belowNode_of_kind H.node (hkind _ nofun) (hkind _ nofun) (hkind _ nofun) fun _ => ?_
      exact certain_belowByKind_object H ht.self (href.of_node ht)
        (fun hm c hc => certain_subtype_objectNode H.node (hbounds t u m c ht hm hc))
        fun hx hy => certain_subtype_objectNode H.node (isReference_typeVar hx hy)

/-- What capture makes of a reference is below `Object`. -/
theorem certain_belowByKind_captured (ht : T.Shows t u m) (href : T.IsReference t)
    (hrun : (judgements k).capture {} u S = (.ok t', S')) (hle : S' ≤ T) :
    Certain ((judgements k).belowByKind p false t' v n) T := by
  obtain ⟨u', m', x, hu, ht', hx⟩ := node_of_capture hrun
  cases ht.self.symm.trans (hu.mono hle)
  have ht' := ht'.mono hle
  have hvar : ∀ {y w z}, T.Shows y w z → z.kind = .typeVar →
      Certain ((judgements k).subtype p false y v) T := fun hy hz =>
    certain_subtype_objectNode H hbounds H.node (isReference_typeVar hy hz)
  rcases hx with ⟨rfl, rfl⟩ | ⟨-, hkind, helement, hsome⟩
  · exact certain_belowByKind_object H ht' (href.of_node ht) (fun hm c hc =>
      certain_subtype_objectNode H hbounds H.node (hbounds t _ _ c ht hm hc)) hvar
  · refine certain_belowByKind_object H ht' (fun w y hy => ?_) (fun hm => ?_) hvar
    · cases ht'.symm.trans hy
      exact ⟨by rw [hkind]; rfl, fun _ => by rwa [helement]⟩
    · rw [hkind] at hm
      cases hm

end References

/-- The bound of each type variable is a reference, if it has a bound. -/
def listsReferences (S : Session) : Bool :=
  (List.range S.store.types.size).all fun i => (S.store.peekType ⟨i⟩).all fun x =>
    x.2.kind != .typeVar || x.2.upperBound.all fun b => (S.store.peekType b).any fun y =>
      y.2.kind.isReference && (y.2.kind != .declared || y.2.element.isSome)

theorem boundedByReferences_of_listsReferences (h : T.listsReferences = true)
    (hobject : ∀ o, Known objectType T o → T.IsReference o) : T.BoundedByReferences := by
  intro t u n b ht hn hb
  have hu : T.Shows u u n := Store.peekType_self ht
  rcases (known_upperBound hu).1 hb with hb | ⟨-, hb⟩
  · have hslot := List.all_eq_true.1 h u.index (List.mem_range.2 (lt_of_peekType hu))
    rw [hu] at hslot
    simp only [Option.all_some, hn, hb, bne_self_eq_false, Bool.false_or, Option.any_eq_true,
      Bool.and_eq_true, Bool.or_eq_true, bne_iff_ne] at hslot
    obtain ⟨⟨v, m⟩, hv, hkind, helement⟩ := hslot
    intro v' m' hv'
    cases hv.symm.trans hv'
    refine ⟨hkind, fun hm hnone => ?_⟩
    simp [hm, hnone] at helement
  · exact hobject b hb

/-! ### `Object` is the top reference type -/

/-- Comparing with `Object` begins with finding it. -/
theorem comparison_of_objectType (hhook : ∀ s, S.hooks.isSubtype t s = none)
    (hrun : (objectType >>= isSubtype fuel t) S = (.ok b, T) ∨
      (objectType >>= isSubtypeNoCapture fuel t) S = (.ok b, T)) :
    ∃ s S₁, S ≤ T ∧ S₁.hooks.isSubtype t s = none ∧ Known objectType T s ∧
      (isSubtype fuel t s S₁ = (.ok b, T) ∨ isSubtypeNoCapture fuel t s S₁ = (.ok b, T)) := by
  obtain ⟨s, S₁, hs, hrun⟩ : ∃ s S₁, objectType S = (.ok s, S₁) ∧
      (isSubtype fuel t s S₁ = (.ok b, T) ∨ isSubtypeNoCapture fuel t s S₁ = (.ok b, T)) := by
    rcases hrun with hrun | hrun
    · obtain ⟨s, S₁, hs, hrun⟩ := bind_eq_ok hrun
      exact ⟨s, S₁, hs, .inl hrun⟩
    · obtain ⟨s, S₁, hs, hrun⟩ := bind_eq_ok hrun
      exact ⟨s, S₁, hs, .inr hrun⟩
  have hS₁ := le_of_ok hs
  have hhook₁ : S₁.hooks.isSubtype t s = none := by
    rw [hS₁.hooks]
    exact hhook s
  have hT := le_of_comparison hrun
  exact ⟨s, S₁, hS₁.trans hT, hhook₁, known_of_ok hs hT, hrun⟩

/-- No comparison of a reference with `Object` says no. -/
theorem objectType_aboveReferences (hhook : ∀ s, S.hooks.isSubtype t s = none) (hobject : T.PlainObject)
    (hbounds : T.BoundedByReferences) (href : T.IsReference t)
    (hrun : (objectType >>= isSubtype fuel t) S = (.ok b, T) ∨
      (objectType >>= isSubtypeNoCapture fuel t) S = (.ok b, T)) : b = true := by
  obtain ⟨s, S₁, -, hhook₁, hs, hrun⟩ := comparison_of_objectType hhook hrun
  obtain ⟨known, hknown, -⟩ := known_objectType hs
  have hnode : ∀ {v n}, T.Shows s v n → n.kind = .error ∨ T.ObjectNode known.object v n :=
    hobject _ s _ _ ⟨known, hknown, rfl⟩ hs
  refine eq_true_of_comparison hhook₁ hrun (fun hv => ?_) (fun ht hm => ?_) (fun {k} b hb => ?_)
    fun ht hv herror _ _ hcapture hle => ?_
  · rcases hnode hv with hn | H
    · rw [hn]
      decide
    · rw [H.kind]
      decide
  · have hkind := (href _ _ ht).1
    rw [hm] at hkind
    cases hkind
  · obtain ⟨k, -, -, v, n, rfl, -, hv, -⟩ := cases_of_known_subtype hb
    rcases hnode hv with hn | H
    · exact certain_subtype_toError hv hn b hb
    · exact certain_subtype_objectNode H hbounds hv href b hb
  · exact certain_belowByKind_captured ((hnode hv).resolve_left herror) hbounds ht href hcapture hle

/-- The type `Outer<?>.Inner<? extends Cloneable, ?>` is captured, and is below `Object`. -/
theorem objectType_aboveReferences_wildcardInstances : ∃ (b : Bool) (T : Session),
    (objectType >>= isSubtype 12 ⟨25⟩) wildcardInstances = (.ok b, T) ∧
      wildcardInstances.store.types.size < T.store.types.size ∧ T.PlainObject ∧
        T.BoundedByReferences ∧ T.IsReference ⟨25⟩ ∧ b = true := by
  have hanswer : ((objectType >>= isSubtype 12 ⟨25⟩) wildcardInstances).1 = .ok true := by
    decide +kernel
  have hsize : wildcardInstances.store.types.size <
      ((objectType >>= isSubtype 12 ⟨25⟩) wildcardInstances).2.store.types.size := by
    decide +kernel
  have hlists : ((objectType >>= isSubtype 12 ⟨25⟩) wildcardInstances).2.listsReferences = true := by
    decide +kernel
  have hknown : Known wellKnown wildcardInstances languageClasses := rfl
  have habsent : wildcardInstances.Shows TypeId.none TypeId.none { shape := .noType .none } := rfl
  have hnode : wildcardInstances.Shows ⟨14⟩ ⟨14⟩ { shape := .declared { element := some ⟨0⟩ } } := rfl
  obtain ⟨x, hx⟩ : ∃ x, wildcardInstances.store.peekElement ⟨0⟩ = some (⟨0⟩, x) := ⟨_, rfl⟩
  have ht : wildcardInstances.Shows ⟨25⟩ ⟨25⟩ (instanceNode ⟨4⟩ (some ⟨24⟩) [⟨23⟩, ⟨22⟩] none) := rfl
  have hhook : ∀ s, wildcardInstances.hooks.isSubtype ⟨25⟩ s = none := fun _ => rfl
  generalize wildcardInstances = S at *
  have hrun : (objectType >>= isSubtype 12 ⟨25⟩) S =
      (.ok true, ((objectType >>= isSubtype 12 ⟨25⟩) S).2) := Prod.ext hanswer rfl
  generalize ((objectType >>= isSubtype 12 ⟨25⟩) S).2 = T at *
  obtain ⟨-, -, hle, -⟩ := comparison_of_objectType hhook (Or.inl hrun)
  have hknown := hknown.mono hle
  have H : T.ObjectNode ⟨0⟩ ⟨14⟩ { shape := .declared { element := some ⟨0⟩ } } :=
    { object := ⟨languageClasses, hknown, rfl⟩
      type := ⟨⟨14⟩, hknown.bind rfl, hnode.mono hle⟩
      kind := rfl
      element := known_elementOf_some.2 ⟨⟨0⟩, x, rfl, peekElement_mono hle.store hx⟩
      arguments := rfl
      outermost := fun w y hy => by
        cases (habsent.mono hle).symm.trans hy
        decide }
  have hobject : T.PlainObject := by
    rintro o s v n ⟨known, hk, rfl⟩ hs hv
    obtain ⟨known', hk', rfl⟩ := known_objectType hs
    cases hk.unique hknown
    cases hk'.unique hknown
    cases (hnode.mono hle).symm.trans hv
    exact Or.inr H
  have hbounds := boundedByReferences_of_listsReferences hlists fun o ho v n hv => by
    obtain ⟨known, hk, rfl⟩ := known_objectType ho
    cases hk.unique hknown
    cases (hnode.mono hle).symm.trans hv
    exact ⟨rfl, nofun⟩
  have href : T.IsReference ⟨25⟩ := fun v n hv => by
    cases (ht.mono hle).symm.trans hv
    exact ⟨rfl, nofun⟩
  exact ⟨true, T, hrun, hsize, hobject, hbounds, href,
    objectType_aboveReferences hhook hobject hbounds href (Or.inl hrun)⟩

/-! ### Comparisons that say no -/

/-- A session in which an operation makes the type that `Object` declares, at 14, and others follow. -/
def besideObject (own : Operation) (more : List Operation) : Session where
  store := .after (own.language ++ more)

/-- A type variable, at 17, is bounded by a declared type that has no element yet. -/
def unnamedBound : Session :=
  besideObject (.newType .declared)
    [.newType .typeVar, .newType .declared, .editType ⟨17⟩ (.upperBound ⟨18⟩)]

/-- The type that `Object` declares is `Object<Cloneable>`. A class `A` extends `Object`, and declares the
type at 17. -/
def appliedObject : Session :=
  besideObject (.newType .declared)
    [.newNamedElement (.type .plain) "A", .newType .declared, .setElementType ⟨3⟩ ⟨17⟩,
      .makeShape (.declared { element := some ⟨0⟩ }), .editElement ⟨3⟩ (.superclass ⟨18⟩),
      .editType ⟨14⟩ (.argument ⟨15⟩)]

/-- The type that `Object` declares turns out to be `int`. -/
def primitiveObject : Session :=
  besideObject (.deferType (.give (TypeId.primitive .int))) []

/-- In each of the three `Object` has no type parameters, and its type lies inside no other. -/
theorem objectType_denied_besideObject :
    (∀ S ∈ [unnamedBound, appliedObject, primitiveObject],
      (typeParameters ⟨0⟩ S.store).1 = .ok [] ∧ (objectType S).1 = .ok ⟨14⟩ ∧
        (enclosingType ⟨14⟩ S.store).1 = .ok TypeId.none) ∧
      (isSubtype 5 ⟨17⟩ ⟨14⟩ unnamedBound).1 = .ok false ∧
        (isSubtypeNoCapture 5 ⟨17⟩ ⟨14⟩ unnamedBound).1 = .ok false ∧
      (isSubtype 8 ⟨17⟩ ⟨14⟩ appliedObject).1 = .ok false ∧
        (isSubtypeNoCapture 8 ⟨17⟩ ⟨14⟩ appliedObject).1 = .ok false ∧
      (isSubtype 5 TypeId.null ⟨14⟩ primitiveObject).1 = .ok false := by
  decide +kernel

end Session

end JavaTypes
