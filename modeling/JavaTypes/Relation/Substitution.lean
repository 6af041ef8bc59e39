import JavaTypes.Relation.Bounds

/-!
# Substitution

`substitute vars vals` replaces the type variables `vars` in a type by the types `vals`. A type in
which nothing changes is answered with its own handle; a type that changes is derived, so that the
same substitution gives the same handle again.

A variable in the place of an array component or of a bound can be replaced by a wildcard, which
cannot stand there: the bound of that wildcard takes its place.
-/

namespace JavaTypes

/-- A substitution: the variables, and the types that replace them, in the same order. -/
structure Substitution where
  vars : List TypeId
  vals : List TypeId

/-- Whether a substitution replaces anything. Lists of different lengths replace nothing. -/
def Substitution.isActive (σ : Substitution) : Bool :=
  !σ.vars.isEmpty && σ.vars.length == σ.vals.length

/-- The type that replaces a variable: that of the first variable that is the same. -/
def replacement (fuel : Nat) (t : TypeId) : List TypeId → List TypeId → Query TypeId
  | v :: vs, r :: rs => do
      if ← sameTypeVariable fuel t v then return r else replacement fuel t vs rs
  | _, _ => return t

/-- Apply a change to each type of a list, and say whether any of them became another. -/
def changeEach (change : TypeId → Query TypeId) : List TypeId → Query (List TypeId × Bool)
  | [] => return ([], false)
  | t :: ts => do
      let t' ← change t
      let same := t' = (← resolveType t)
      let (ts', changed) ← changeEach change ts
      return (t' :: ts', !same || changed)

/-- Apply a change to each type of a list. There is no new list if every type stays the type that it
was. -/
def changeList (change : TypeId → Query TypeId) (ts : List TypeId) :
    Query (Option (List TypeId)) := do
  let (ts', changed) ← changeEach change ts
  return if changed then some ts' else none

def changeOption (change : TypeId → Query TypeId) : Option TypeId → Query (Option TypeId)
  | some t => return some (← change t)
  | none => return none

/-- Whether an optional type is still the type that it was before a change. -/
def unchanged : Option TypeId → Option TypeId → Build Bool
  | some before, some after => return (← resolveType before) = after
  | _, _ => return true

def substituteDeclared (change : TypeId → Query TypeId) (t : TypeId) (n : TypeNode) :
    Query TypeId := do
  let (enclosing, outerNode) ← viewType n.enclosingOrNone
  let enclosing' ←
    if outerNode.kind = .declared then change enclosing else pure enclosing
  let arguments' ← changeList change n.arguments
  if enclosing' = enclosing ∧ arguments' = none then
    return t
  else
    match n.element with
    | none => return t
    | some e =>
        let outer ← unlessNone enclosing'
        deriveDeclared (← resolveElement e) outer (arguments'.getD n.arguments) n.erased

def substituteComponent (fuel : Nat) (change : TypeId → Query TypeId) (t component : TypeId) :
    Query TypeId := do
  let component' ← wildUpperBound fuel (← change component)
  if component' = (← resolveType component) then
    return t
  else
    deriveArray component'

/-- The bound from below that a wildcard keeps when it is replaced by the given type. -/
def lowerBoundAfter (fuel : Nat) : Option TypeId → Build (Option TypeId)
  | none => return none
  | some bound => do
      if (← typeKind bound) = .wildcard then
        let lower ← wildLowerBound fuel bound
        return if (← typeKind lower) = .null then none else some lower
      else
        return some bound

def substituteWildcard (fuel : Nat) (change : TypeId → Query TypeId) (t : TypeId)
    (w : WildcardType) : Query TypeId := do
  let upper ← changeOption change w.upper
  let lower ← changeOption change w.lower
  if ← Action.both (unchanged w.upper upper) (unchanged w.lower lower) then
    return t
  else
    let upper ← changeOption (wildUpperBound fuel) upper
    let lower ← lowerBoundAfter fuel lower
    derive (.wildcard { upper, lower })

def substituteBounds (change : TypeId → Query TypeId) (t : TypeId)
    (shape : List TypeId → TypeShape) (bounds : List TypeId) : Query TypeId := do
  match ← changeList change bounds with
  | some bounds' => derive (shape bounds')
  | none => return t

/-- Substitute in the signature of an executable type. Its type variables and its receiver stay. -/
def substituteExecutable (change : TypeId → Query TypeId) (t : TypeId) (n : TypeNode) :
    Query TypeId := do
  let parameters' ← changeList change n.parameters
  let thrown' ← changeList change n.thrown
  let return' ← change n.returnOrVoid
  if parameters' = none ∧ thrown' = none ∧ return' = (← resolveType n.returnOrVoid) then
    return t
  else
    let receiver ← unlessNone n.receiverOrNone
    derive (.executable
      { typeVariables := n.typeVariables, parameters := parameters'.getD n.parameters,
        returnType := some return', receiver := receiver, thrown := thrown'.getD n.thrown })

/-- Replace the variables of a substitution in a type. -/
def substitute (σ : Substitution) : Nat → TypeId → Query TypeId
  | 0, _ => throw .exhausted
  | fuel + 1, t => do
      let (t, n) ← viewType t
      if σ.isActive then
        match n.shape with
        | .typeVar _ => replacement fuel t σ.vars σ.vals
        | .declared _ => substituteDeclared (substitute σ fuel) t n
        | .array (some component) => substituteComponent fuel (substitute σ fuel) t component
        | .wildcard w => substituteWildcard fuel (substitute σ fuel) t w
        | .intersection bounds => substituteBounds (substitute σ fuel) t .intersection bounds
        | .union bounds => substituteBounds (substitute σ fuel) t .union bounds
        | .executable _ => substituteExecutable (substitute σ fuel) t n
        | _ => return t
      else
        return t

end JavaTypes
