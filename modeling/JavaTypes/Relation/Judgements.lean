import JavaTypes.Relation.AsSuper

/-!
# Judgements that use one another

Whether two types are the same, whether one argument contains another, whether one type is a
subtype of another, and what the capture of a type is: each of these is decided by the others on
the parts of the types. `Judgements` holds the four of them, as they are available one level below.
The modules that follow define one step of each from given `Judgements`; the levels are put together
in `JavaTypes.Relation.Levels`.
-/

namespace JavaTypes

/-- What a judgement takes for granted. -/
structure Premises where
  /-- Whether two arguments of which one is a wildcard match as soon as either contains the other. -/
  loose : Bool := false
  /-- The pairs of types whose arguments are being compared. They are taken to be contained. -/
  assumed : List (TypeId × TypeId) := []

/-- Take it for granted that the arguments of the first type contain those of the second. -/
def Premises.assume (p : Premises) (container contained : TypeId) : Premises :=
  { p with assumed := (container, contained) :: p.assumed }

/-- The judgements available to a step. -/
structure Judgements where
  sameType : Premises → TypeId → TypeId → Query Bool
  /-- Whether the first type, as an argument, contains the second. -/
  containsType : Premises → TypeId → TypeId → Query Bool
  /-- Whether the first type is a subtype of the second; the flag says whether the first is
  captured. -/
  subtype : Premises → Bool → TypeId → TypeId → Query Bool
  capture : Premises → TypeId → Query TypeId
  /-- The fuel for the relations that do not depend on these judgements. -/
  fuel : Nat

def Judgements.exhausted : Judgements where
  sameType _ _ _ := throw .exhausted
  containsType _ _ _ := throw .exhausted
  subtype _ _ _ _ := throw .exhausted
  capture _ _ := throw .exhausted
  fuel := 0

end JavaTypes
