import JavaTypes.Relation.Judgements

/-!
# Containment of type arguments

An argument contains another if every type that the second allows is allowed by the first. Only
wildcards contain more than one type: `? extends T` contains what is below `T`, `? super T` what is
above it.
-/

namespace JavaTypes

namespace Judgements

variable (j : Judgements) (p : Premises)

/-- Whether two types are the same wildcard: the same node, or wildcards whose bounds are the same. -/
def sameWildcard (t : TypeId) (m : TypeNode) (s : TypeId) (n : TypeNode) : Query Bool := do
  if t = s then
    return true
  else if n.kind ≠ .wildcard then
    return false
  else
    Action.both (Action.sameOptions (j.sameType p) m.extendsBound n.extendsBound)
      (Action.sameOptions (j.sameType p) m.superBound n.superBound)

/-- Whether a type is a variable that was captured from the wildcard `t`. -/
def isCaptureOf (t : TypeId) (m : TypeNode) (n : TypeNode) : Query Bool := do
  match n.capturedFrom with
  | none => return false
  | some w =>
      let (w, wildcard) ← viewType w
      j.sameWildcard p t m w wildcard

/-- Whether the bound of the wildcard `t` from below admits the argument `s`. -/
def admitsBelow (t s : TypeId) : Query Bool :=
  Action.either (isExtendsBound t) do
    let lower ← captureLowerBound j.fuel (← wildLowerBound j.fuel s)
    j.subtype p false (← wildLowerBound j.fuel t) lower

def admitsAbove (t s : TypeId) : Query Bool :=
  Action.either (isSuperBound t) do
    let upper ← captureUpperBound j.fuel (← wildUpperBound j.fuel s)
    j.subtype p false upper (← wildUpperBound j.fuel t)

/-- One step of containment. A type that is no wildcard contains only itself. -/
def containsStep (t s : TypeId) : Query Bool := do
  let (t, m) ← viewType t
  let (s, n) ← viewType s
  if m.kind ≠ .wildcard then
    j.sameType p t s
  else
    Action.either (j.sameWildcard p t m s n) <|
    Action.either (j.isCaptureOf p t m n) <|
    Action.both (j.admitsBelow p t s) (j.admitsAbove p t s)

/-- Whether each argument of a list contains the one at its place in another list. -/
def containsList (ts ss : List TypeId) : Query Bool :=
  Action.sameLists (j.containsType p) ts ss

/-- Whether the arguments of an instance contain those of another instance of the same declaration.
A pair that is being compared already is taken to be contained. -/
def containsArguments (t s : TypeId) : Query Bool := do
  let (t, m) ← viewType t
  let (s, n) ← viewType s
  if (t, s) ∈ p.assumed then
    return true
  else
    j.containsList (p.assume t s) m.arguments n.arguments

/-- Whether two arguments allow the same types. Loosely, a wildcard matches what it contains, or what
contains it. -/
def equivalentArguments (t s : TypeId) : Query Bool :=
  Action.either (j.sameType p t s) do
    let contains ← j.containsType p t s
    let eitherWay ← Action.both (return p.loose) <|
      Action.either (do return (← typeKind t) = .wildcard) (do return (← typeKind s) = .wildcard)
    if eitherWay then
      Action.either (return contains) (j.containsType p s t)
    else
      Action.both (return contains) (j.containsType p s t)

end Judgements

end JavaTypes
