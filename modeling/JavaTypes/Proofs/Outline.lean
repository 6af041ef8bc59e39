import JavaTypes.Equality
import JavaTypes.Proofs.Reading

/-!
# What structural equality compares

The comparison of two types goes by kind, and each kind has parts of its own. An `Outline` lists the
parts of a type uniformly: the elements that it mentions, and several lists of types. Two types are
equal if their outlines match part by part (`sameTypeParts_eq`), so what is true of all kinds can be
shown for outlines.

The comparisons settle: with more fuel, and in later states, they give the answers that they gave
(`settles_typesAssuming`, `settles_elementsAssuming`).
-/

namespace JavaTypes

open Action

/-! ### Tests that say nothing -/

namespace Action

variable {σ α β : Type}

theorem both_true_left (x : Action σ Bool) : both (pure true) x = x := by
  simp [both]

theorem both_true_right (x : Action σ Bool) : both x (pure true) = x := by
  have h : ∀ c : Bool, (if c = true then pure true else pure false : Action σ Bool) = pure c := by
    intro c
    cases c <;> rfl
  simp only [both, h, bind_pure]

theorem allPairs_nil (r : α → β → Action σ Bool) : allPairs r [] [] = pure true := rfl

theorem allPairs_cons (r : α → β → Action σ Bool) (a : α) (as : List α) (b : β) (bs : List β) :
    allPairs r (a :: as) (b :: bs) = both (r a b) (allPairs r as bs) := rfl

theorem sameLists_singleton (r : α → β → Action σ Bool) (a : α) (b : β) :
    sameLists r [a] [b] = r a b := by
  simp [sameLists, allPairs_cons, allPairs_nil, both_true_right]

theorem sameLists_toList (r : α → β → Action σ Bool) (a : Option α) (b : Option β) :
    sameLists r a.toList b.toList = sameOptions r a b := by
  cases a with
  | none => cases b <;> rfl
  | some a =>
    cases b with
    | none => rfl
    | some b => exact sameLists_singleton r a b

end Action

/-! ### Outlines -/

/-- The parts of a type that count when it is compared with another. There is no kind if the type
equals only itself. -/
structure Outline where
  kind : Option TypeKind
  elements : List (Option ElementId) := []
  types : List (List TypeId) := []

/-- The outline of a type. -/
def TypeNode.outline (n : TypeNode) : Outline :=
  match n.shape with
  | .array c => { kind := some .array, types := [c.toList] }
  | .declared d =>
      { kind := some .declared, elements := [d.element], types := [[n.enclosingOrNone], d.arguments] }
  | .error e => { kind := some .error, elements := [e] }
  | .executable x =>
      { kind := some .executable
        types := [x.parameters, [n.returnOrVoid], [n.receiverOrNone], x.thrown, x.typeVariables] }
  | .intersection bs => { kind := some .intersection, types := [bs] }
  | .union bs => { kind := some .union, types := [bs] }
  | .typeVar v =>
      { kind := if v.capturedFrom.isSome then none else some .typeVar, elements := [v.element] }
  | .wildcard w => { kind := some .wildcard, types := [w.upper.toList, w.lower.toList] }
  | shape => { kind := some shape.kind }

theorem TypeNode.kind_of_outline {n : TypeNode} {k : TypeKind} (h : n.outline.kind = some k) :
    n.kind = k := by
  obtain ⟨shape, annotations⟩ := n
  cases shape with
  | typeVar v =>
    simp only [outline] at h
    split at h
    · cases h
    · cases h
      rfl
  | _ =>
    cases h
    rfl

/-- Compare two outlines part by part. -/
def sameOutlines (types : TypeId → TypeId → Build Bool)
    (elements : ElementId → ElementId → Build Bool) (o p : Outline) : Build Bool :=
  if o.kind.isSome = true ∧ o.kind = p.kind then
    both (allPairs (sameOptions elements) o.elements p.elements)
      (allPairs (sameLists types) o.types p.types)
  else
    return false

namespace Equality

/-- Types are compared by their outlines. -/
theorem sameTypeParts_eq (types : TypeId → TypeId → Build Bool)
    (elements : ElementId → ElementId → Build Bool) (m n : TypeNode) :
    sameTypeParts types elements m n = sameOutlines types elements m.outline n.outline := by
  obtain ⟨shape, annotations⟩ := m
  obtain ⟨shape', annotations'⟩ := n
  cases shape <;> cases shape' <;>
    simp [sameTypeParts, sameOutlines, TypeNode.outline, TypeShape.kind, TypeNode.element,
      TypeNode.arguments, TypeNode.parameters, TypeNode.thrown, TypeNode.typeVariables,
      allPairs_cons, allPairs_nil, both_true_left, both_true_right, sameLists_singleton,
      sameLists_toList]
  case primitive.primitive p p' =>
    by_cases h : p = p'
    · simp [h]
    · simp [h, beq_false_of_ne h]
  case noType.noType k k' =>
    by_cases h : k = k'
    · simp [h]
    · simp [h, beq_false_of_ne h]
  case typeVar.typeVar v v' => cases v.capturedFrom <;> cases v'.capturedFrom <;> simp

/-! ### The comparisons settle -/

instance settles_sameAnnotations {σ : Type} [Evolving σ]
    {types types' : TypeId → TypeId → Action σ Bool} [∀ a b, Settles (types a b) (types' a b)]
    (as bs : List AnnotationUse) :
    Settles (sameAnnotations types as bs) (sameAnnotations types' as bs) :=
  settles_sameLists as bs

instance settles_signature (n : ElementNode) : Settles (signature n) (signature n) := by
  unfold signature
  split <;> infer_instance

section Parts

variable {types types' : TypeId → TypeId → Build Bool}
  {elements elements' : ElementId → ElementId → Build Bool}
  [∀ a b, Settles (types a b) (types' a b)] [∀ a b, Settles (elements a b) (elements' a b)]

instance settles_sameTypeParts (m n : TypeNode) :
    Settles (sameTypeParts types elements m n) (sameTypeParts types' elements' m n) := by
  rw [sameTypeParts_eq, sameTypeParts_eq]
  exact settles_ite

instance settles_sameElementParts (m n : ElementNode) :
    Settles (sameElementParts types elements m n) (sameElementParts types' elements' m n) := by
  unfold sameElementParts
  cases m.kind <;> infer_instance

variable (q : Equality)

/-- The comparison of two different types of the same kind. -/
def typeContents (types : TypeId → TypeId → Build Bool)
    (elements : ElementId → ElementId → Build Bool) (m n : TypeNode) : Build Bool :=
  both (if q.includeAnnotations then sameAnnotations types m.annotations n.annotations
    else return true) (sameTypeParts types elements m n)

/-- The comparison of two different elements of the same kind and name. -/
def elementContents (types : TypeId → TypeId → Build Bool)
    (elements : ElementId → ElementId → Build Bool) (m n : ElementNode) : Build Bool :=
  both (if q.includeAnnotations then sameAnnotations types m.annotations n.annotations
    else return true) (sameElementParts types elements m n)

instance settles_typeContents (m n : TypeNode) :
    Settles (q.typeContents types elements m n) (q.typeContents types' elements' m n) :=
  settles_both

instance settles_elementContents (m n : ElementNode) :
    Settles (q.elementContents types elements m n) (q.elementContents types' elements' m n) :=
  settles_both

end Parts

variable (q : Equality)

theorem typesAssuming_succ (fuel : Nat) (assumed : List (ElementId × ElementId)) (a b : TypeId) :
    q.typesAssuming (fuel + 1) assumed a b = (do
      let x ← viewType a
      let y ← viewType b
      if x.1 = y.1 then
        return true
      else if x.2.kind ≠ y.2.kind then
        return false
      else
        q.typeContents (q.typesAssuming fuel assumed) (q.elementsAssuming fuel assumed) x.2 y.2) := by
  rfl

theorem elementsAssuming_succ (fuel : Nat) (assumed : List (ElementId × ElementId))
    (a b : ElementId) :
    q.elementsAssuming (fuel + 1) assumed a b = (do
      let x ← viewElement a
      let y ← viewElement b
      if x.1 = y.1 then
        return true
      else if x.2.kind ≠ y.2.kind ∨ x.2.simpleName ≠ y.2.simpleName then
        return false
      else if (x.1, y.1) ∈ assumed then
        return true
      else
        q.elementContents (q.typesAssuming fuel ((x.1, y.1) :: assumed))
          (q.elementsAssuming fuel ((x.1, y.1) :: assumed)) x.2 y.2) := by
  rfl

mutual

/-- The comparison of types settles, also with more fuel. -/
instance settles_typesAssuming : ∀ {fuel fuel' : Nat} [Fact (fuel ≤ fuel')]
    (assumed : List (ElementId × ElementId)) (a b : TypeId),
      Settles (q.typesAssuming fuel assumed a b) (q.typesAssuming fuel' assumed a b)
  | 0, _, _, _, _, _ => by
      rw [typesAssuming]
      infer_instance
  | fuel + 1, 0, h, _, _, _ => absurd h.out (Nat.not_succ_le_zero fuel)
  | fuel + 1, fuel' + 1, h, assumed, a, b => by
      have : Fact (fuel ≤ fuel') := ⟨Nat.le_of_succ_le_succ h.out⟩
      have := @settles_typesAssuming fuel fuel' this assumed
      have := @settles_elementsAssuming fuel fuel' ‹_› assumed
      rw [typesAssuming_succ, typesAssuming_succ]
      infer_instance

/-- The comparison of elements settles, also with more fuel. -/
instance settles_elementsAssuming : ∀ {fuel fuel' : Nat} [Fact (fuel ≤ fuel')]
    (assumed : List (ElementId × ElementId)) (a b : ElementId),
      Settles (q.elementsAssuming fuel assumed a b) (q.elementsAssuming fuel' assumed a b)
  | 0, _, _, _, _, _ => by
      rw [elementsAssuming]
      infer_instance
  | fuel + 1, 0, h, _, _, _ => absurd h.out (Nat.not_succ_le_zero fuel)
  | fuel + 1, fuel' + 1, h, assumed, a, b => by
      have : Fact (fuel ≤ fuel') := ⟨Nat.le_of_succ_le_succ h.out⟩
      have := @settles_typesAssuming fuel fuel' this
      have := @settles_elementsAssuming fuel fuel' ‹_›
      rw [elementsAssuming_succ, elementsAssuming_succ]
      infer_instance

end

instance settles_types {fuel fuel' : Nat} [Fact (fuel ≤ fuel')] (a b : TypeId) :
    Settles (q.types fuel a b) (q.types fuel' a b) :=
  settles_typesAssuming q [] a b

instance settles_elements {fuel fuel' : Nat} [Fact (fuel ≤ fuel')] (a b : ElementId) :
    Settles (q.elements fuel a b) (q.elements fuel' a b) :=
  settles_elementsAssuming q [] a b

end Equality

end JavaTypes
