import JavaTypes.Elements

/-!
# Structural equality

Two handles can denote equal types or elements without being the same. Types are equal when they
have the same kind and equal parts; elements are equal when they have the same kind and name, and
are members of equal elements. Methods also need equal parameter types. A type variable that was
captured from a wildcard equals only itself.

The parts of a method lead back to it, through a type parameter that stands in its own method's
signature, so a comparison can meet a pair of elements again that it is still comparing. Such a
pair is taken to be equal.

An `Equality` says whether the annotations that stand on types and elements count as parts.

The comparisons take `fuel`: the greatest number of comparisons inside one another.
-/

namespace JavaTypes

/-- What counts when types and elements are compared. -/
structure Equality where
  includeAnnotations : Bool
  deriving DecidableEq, Repr

namespace Equality

/-- Compare two lists of annotations: their types, and their members as given. -/
def sameAnnotations {σ : Type} (types : TypeId → TypeId → Action σ Bool) :
    List AnnotationUse → List AnnotationUse → Action σ Bool :=
  Action.sameLists fun a b =>
    Action.both (types a.type b.type) (return AnnotationValue.sameMembers a.members b.members)

/-- Compare the parts of two types, given how types and elements are compared. -/
def sameTypeParts (types : TypeId → TypeId → Build Bool)
    (elements : ElementId → ElementId → Build Bool) (a b : TypeNode) : Build Bool :=
  match a.shape, b.shape with
  | .primitive p, .primitive q => return p == q
  | .noType m, .noType n => return m == n
  | .null, .null => return true
  | .array c, .array d => Action.sameOptions types c d
  | .declared _, .declared _ =>
      Action.both (Action.sameOptions elements a.element b.element) <|
      Action.both (types a.enclosingOrNone b.enclosingOrNone) <|
      Action.sameLists types a.arguments b.arguments
  | .error d, .error e => Action.sameOptions elements d e
  | .executable _, .executable _ =>
      Action.both (Action.sameLists types a.parameters b.parameters) <|
      Action.both (types a.returnOrVoid b.returnOrVoid) <|
      Action.both (types a.receiverOrNone b.receiverOrNone) <|
      Action.both (Action.sameLists types a.thrown b.thrown) <|
      Action.sameLists types a.typeVariables b.typeVariables
  | .intersection as, .intersection bs => Action.sameLists types as bs
  | .union as, .union bs => Action.sameLists types as bs
  | .typeVar v, .typeVar w =>
      if v.capturedFrom.isSome || w.capturedFrom.isSome then
        return false
      else
        Action.sameOptions elements v.element w.element
  | .wildcard v, .wildcard w =>
      Action.both (Action.sameOptions types v.upper w.upper)
        (Action.sameOptions types v.lower w.lower)
  | _, _ => return false

/-- The parameter types of an element that has a type. -/
def signature (n : ElementNode) : Build (Option (List TypeId)) := do
  match n.type with
  | some t => return some (← parameterTypes t)
  | none => return none

/-- Compare the parts of two elements of the same kind and name, given how types and elements are
compared. Packages and modules have their full name already. -/
def sameElementParts (types : TypeId → TypeId → Build Bool)
    (elements : ElementId → ElementId → Build Bool) (a b : ElementNode) : Build Bool :=
  match a.kind with
  | .package | .module => return true
  | .executable _ =>
      Action.both (Action.sameOptions elements a.enclosing b.enclosing) do
        let as ← signature a
        let bs ← signature b
        Action.sameOptions (Action.sameLists types) as bs
  | _ => Action.sameOptions elements a.enclosing b.enclosing

mutual

/-- Compare two types, where the pairs of elements in `assumed` are taken to be equal. -/
def typesAssuming (q : Equality) :
    Nat → List (ElementId × ElementId) → TypeId → TypeId → Build Bool
  | 0, _, _, _ => throw .exhausted
  | fuel + 1, assumed, a, b => do
      let (a, m) ← viewType a
      let (b, n) ← viewType b
      if a = b then
        return true
      else if m.kind ≠ n.kind then
        return false
      else
        Action.both
          (if q.includeAnnotations then
            sameAnnotations (q.typesAssuming fuel assumed) m.annotations n.annotations
          else
            return true)
          (sameTypeParts (q.typesAssuming fuel assumed) (q.elementsAssuming fuel assumed) m n)

def elementsAssuming (q : Equality) :
    Nat → List (ElementId × ElementId) → ElementId → ElementId → Build Bool
  | 0, _, _, _ => throw .exhausted
  | fuel + 1, assumed, a, b => do
      let (a, m) ← viewElement a
      let (b, n) ← viewElement b
      if a = b then
        return true
      else if m.kind ≠ n.kind ∨ m.simpleName ≠ n.simpleName then
        return false
      else if (a, b) ∈ assumed then
        return true
      else
        Action.both
          (if q.includeAnnotations then
            sameAnnotations (q.typesAssuming fuel ((a, b) :: assumed)) m.annotations n.annotations
          else
            return true)
          (sameElementParts (q.typesAssuming fuel ((a, b) :: assumed))
            (q.elementsAssuming fuel ((a, b) :: assumed)) m n)

end

def types (q : Equality) (fuel : Nat) (a b : TypeId) : Build Bool :=
  q.typesAssuming fuel [] a b

def elements (q : Equality) (fuel : Nat) (a b : ElementId) : Build Bool :=
  q.elementsAssuming fuel [] a b

def typeLists (q : Equality) (fuel : Nat) (as bs : List TypeId) : Build Bool :=
  Action.sameLists (q.types fuel) as bs

end Equality

end JavaTypes
