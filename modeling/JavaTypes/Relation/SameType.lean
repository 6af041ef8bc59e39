import JavaTypes.Relation.Containment

/-!
# Same types

Two types are the same if they are of the same kind and their parts are the same. Arguments are
compared by what they allow, so `List<?>` and `List<? extends Object>` are the same type; the bounds
of intersections and unions are compared without regard to their order; the type variables of an
executable type are renamed.
-/

namespace JavaTypes

namespace Judgements

variable (j : Judgements) (p : Premises)

def isAmong (t : TypeId) : List TypeId → Query Bool
  | [] => return false
  | s :: ss => Action.either (j.sameType p t s) (isAmong t ss)

def areAmong : List TypeId → List TypeId → Query Bool
  | [], _ => return true
  | t :: ts, ss => Action.both (j.isAmong p t ss) (areAmong ts ss)

/-- Whether two declared types belong to the same element, or neither belongs to one. -/
def sameOwner (m n : TypeNode) : Query Bool := do
  let d ← m.elementOf
  let e ← n.elementOf
  Action.sameOptions (sameElement j.fuel) d e

/-- Whether two declared types are the same: element, enclosing type, and arguments. -/
def sameDeclared (m n : TypeNode) : Query Bool :=
  Action.both (j.sameOwner m n) <|
  Action.both (j.sameType p m.enclosingOrNone n.enclosingOrNone) <|
  Action.sameLists (j.equivalentArguments p) m.arguments n.arguments

/-- Whether two executable types are the same when the type variables of the second are renamed. -/
def sameExecutable (m : TypeNode) (s : TypeId) (n : TypeNode) : Query Bool := do
  if m.typeVariables.length ≠ n.typeVariables.length then
    return false
  else
    let s' ← substitute { vars := n.typeVariables, vals := m.typeVariables } j.fuel s
    let n' ← typeNode s'
    Action.both (Action.sameLists (j.sameType p) m.parameters n'.parameters)
      (j.sameType p m.returnOrVoid n'.returnOrVoid)

/-- Whether two different nodes have the same kind and parts. -/
def sameParts (t : TypeId) (m : TypeNode) (s : TypeId) (n : TypeNode) : Query Bool :=
  match m.shape, n.shape with
  | .typeVar _, _ => sameTypeVariable j.fuel t s
  | .wildcard _, .wildcard _ => Action.both (j.containsType p t s) (j.containsType p s t)
  | .declared _, .declared _ | .error _, .error _ => j.sameDeclared p m n
  | .array c, .array d => Action.sameOptions (j.sameType p) c d
  | .intersection as, .intersection bs | .union as, .union bs =>
      Action.both (j.areAmong p as bs) (j.areAmong p bs as)
  | .executable _, .executable _ => j.sameExecutable p m s n
  | .primitive a, .primitive b => return a = b
  | .noType a, .noType b => return a = b
  | .null, .null => return true
  | _, _ => return false

def sameTypeStep (t s : TypeId) : Query Bool := do
  let (t, m) ← viewType t
  let (s, n) ← viewType s
  if t = s then
    return true
  else
    let annotated := (← config).includeAnnotations
    Action.both
      (if annotated then
        Equality.sameAnnotations (j.sameType p) m.annotations n.annotations
      else
        return true)
      (j.sameParts p t m s n)

end Judgements

end JavaTypes
