import JavaTypes.Relation.SameType
import JavaTypes.Relation.Capture
import JavaTypes.Relation.Subtyping

/-!
# The relations of the language

`judgements n` are the four judgements that use one another, with at most `n` steps inside one
another: each level is one step from the level below. The relations of the language are asked at
the level that the fuel gives. Where a hook of the session has an answer, that is the answer.
-/

namespace JavaTypes

/-- The judgements that use one another, with a number of steps inside one another. -/
def judgements : Nat → Judgements
  | 0 => Judgements.exhausted
  | n + 1 =>
      { sameType := fun p t s => (judgements n).sameTypeStep p t s
        containsType := fun p t s => (judgements n).containsStep p t s
        subtype := fun p capturing t s => (judgements n).subtypeStep p capturing t s
        capture := fun p t => (judgements n).captureStep p t
        fuel := n }

theorem judgements_sameType (n : Nat) (p : Premises) (t s : TypeId) :
    (judgements (n + 1)).sameType p t s = (judgements n).sameTypeStep p t s := rfl

theorem judgements_subtype (n : Nat) (p : Premises) (capturing : Bool) (t s : TypeId) :
    (judgements (n + 1)).subtype p capturing t s = (judgements n).subtypeStep p capturing t s := rfl

/-- Ask a hook, and find the answer otherwise. -/
def answeredBy {α : Type} (hook : Hooks → Option α) (otherwise : Query α) : Query α := do
  match hook (← hooks) with
  | some answer => return answer
  | none => otherwise

/-! ### Same types -/

def sameType (fuel : Nat) (a b : TypeId) : Query Bool :=
  (judgements fuel).sameType {} a b

def isSameType (fuel : Nat) (a b : TypeId) : Query Bool :=
  answeredBy (fun h => h.sameType a b) (sameType fuel a b)

/-- Whether two types are the same when a wildcard argument matches as soon as it contains the other
argument, or is contained in it. -/
def isSameTypeLoose (fuel : Nat) (a b : TypeId) : Query Bool :=
  (judgements fuel).sameType { loose := true } a b

/-! ### Containment -/

def contains (fuel : Nat) (container contained : TypeId) : Query Bool :=
  answeredBy (fun h => h.contains container contained)
    ((judgements fuel).containsType {} container contained)

def containsAll (fuel : Nat) (containers contained : List TypeId) : Query Bool :=
  (judgements fuel).containsList {} containers contained

/-! ### Subtypes -/

def subtype (fuel : Nat) (capturing : Bool) (sub sup : TypeId) : Query Bool :=
  (judgements fuel).subtype {} capturing sub sup

/-- Whether a type is a subtype of another. The settings say whether the first is captured. -/
def isSubtype (fuel : Nat) (sub sup : TypeId) : Query Bool :=
  answeredBy (fun h => h.isSubtype sub sup) do
    subtype fuel (← config).captureInSubtyping sub sup

def isSubtypeNoCapture (fuel : Nat) (sub sup : TypeId) : Query Bool :=
  subtype fuel false sub sup

/-! ### Capture -/

def capture (fuel : Nat) (t : TypeId) : Query TypeId :=
  (judgements fuel).capture {} t

def glb (fuel : Nat) (a b : TypeId) : Query TypeId :=
  (judgements fuel).glb {} a b

end JavaTypes
