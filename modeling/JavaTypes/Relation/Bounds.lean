import JavaTypes.Session

/-!
# Elements, arguments and bounds of a type

The readings of a type that all relations share.

* `elementOf`, `isObject`, `isInterface`: the declaration behind a type;
* `allTypeArguments`, `isRaw`: the arguments of a type together with those of the types around it;
* `upperBound`, `lowerBound`: the bounds of a type variable, `Object` and the null type by default;
* `wildUpperBound`, `wildLowerBound`, `captureUpperBound`, `captureLowerBound`: what lies behind
  wildcards, or behind captured variables;
* `sameTypeVariable`: when two variables are the same.

What the store alone decides is a `Build`; what needs the settings or the declarations that the
language names is a `Query`.
-/

namespace JavaTypes

/-! ### Elements -/

/-- The completed element that a type belongs to. -/
def TypeNode.elementOf (n : TypeNode) : Build (Option ElementId) := do
  match n.element with
  | some e => return some (← resolveElement e)
  | none => return none

def elementOf (t : TypeId) : Build (Option ElementId) := do
  (← typeNode t).elementOf

/-- Whether two handles denote the same element, or equal ones. -/
def sameElement (fuel : Nat) (a b : ElementId) : Query Bool := do
  if (← resolveElement a) = (← resolveElement b) then
    return true
  else
    (← equality).elements fuel a b

def isObject (t : TypeId) : Query Bool := do
  let n ← typeNode t
  if n.kind ≠ .declared then
    return false
  else
    match ← n.elementOf with
    | some e => return e = (← objectElement)
    | none => return false

def isInterface (t : TypeId) : Build Bool := do
  let n ← typeNode t
  if n.kind.isDeclaredLike then
    match ← n.elementOf with
    | some e => return (← elementKind e).isInterface
    | none => return false
  else
    return false

/-- The type that an element itself declares, with its own variables as arguments. -/
def declaredTypeOf (e : ElementId) : Build TypeId := do
  match ← elementType e with
  | some t => return t
  | none =>
      let name ← (qualifiedName e).outcome
      throw (.missingElement (name.toOption.getD ""))

/-! ### Arguments -/

/-- The arguments of a type and of every type around it, the outermost first. -/
def allTypeArguments : Nat → TypeId → Build (List TypeId)
  | 0, _ => throw .exhausted
  | fuel + 1, t => do
      let n ← typeNode t
      if n.kind.isDeclaredLike then
        let outer ← allTypeArguments fuel n.enclosingOrNone
        return outer ++ n.arguments
      else
        return []

def isParameterized (fuel : Nat) (t : TypeId) : Build Bool := do
  return !(← allTypeArguments fuel t).isEmpty

/-- Whether the element of a declared type has parameters for which the type gives no arguments. -/
def TypeNode.omitsArguments (n : TypeNode) : Build Bool := do
  if n.arguments.isEmpty then
    match ← n.elementOf with
    | some e => return !(← typeParameters e).isEmpty
    | none => return false
  else
    return false

/-- Whether a declared type, or a type around it, omits its arguments. -/
def isRaw : Nat → TypeId → Build Bool
  | 0, _ => throw .exhausted
  | fuel + 1, t => do
      let n ← typeNode t
      if n.kind = .declared then
        Action.either n.omitsArguments (isRaw fuel n.enclosingOrNone)
      else
        return false

/-! ### Bounds -/

/-- The upper bound of a type variable, or `Object`. -/
def upperBound (v : TypeId) : Query TypeId := do
  match ← declaredUpperBound v with
  | some bound => return bound
  | none => objectType

/-- The lower bound of a type variable, or the null type. -/
def lowerBound (v : TypeId) : Build TypeId := do
  return (← declaredLowerBound v).getD TypeId.null

/-- What a wildcard is bounded by from above: its bound, or `Object`. Every other type stands for
itself. -/
def wildUpperBound : Nat → TypeId → Query TypeId
  | 0, _ => throw .exhausted
  | fuel + 1, t => do
      let n ← typeNode t
      if n.kind ≠ .wildcard then
        return t
      else
        match n.extendsBound with
        | some bound => wildUpperBound fuel bound
        | none => objectType

/-- What a wildcard is bounded by from below: its bound, or the null type. Every other type stands
for itself. -/
def wildLowerBound : Nat → TypeId → Build TypeId
  | 0, _ => throw .exhausted
  | fuel + 1, t => do
      let n ← typeNode t
      if n.kind ≠ .wildcard then
        return t
      else
        match n.superBound with
        | some bound => wildLowerBound fuel bound
        | none => return TypeId.null

/-- What a captured variable is bounded by from above. Every other type stands for itself. -/
def captureUpperBound : Nat → TypeId → Query TypeId
  | 0, _ => throw .exhausted
  | fuel + 1, t => do
      if (← typeNode t).isCapture then
        captureUpperBound fuel (← upperBound t)
      else
        return t

def captureLowerBound : Nat → TypeId → Build TypeId
  | 0, _ => throw .exhausted
  | fuel + 1, t => do
      if (← typeNode t).isCapture then
        captureLowerBound fuel (← lowerBound t)
      else
        return t

/-- Whether a type is a wildcard without a bound from below. -/
def isExtendsBound (t : TypeId) : Build Bool := do
  let n ← typeNode t
  return n.kind = .wildcard && n.superBound.isNone

def isSuperBound (t : TypeId) : Build Bool := do
  let n ← typeNode t
  return n.kind = .wildcard && n.extendsBound.isNone

/-- A handle of a type, unless it is the absent type. -/
def unlessNone (t : TypeId) : Build (Option TypeId) := do
  return if (← typeKind t) = .noType .none then none else some t

/-! ### Variables -/

/-- Whether two types are the same variable: the same node, or two variables of one element of
which neither came from a capture. -/
def sameTypeVariable (fuel : Nat) (a b : TypeId) : Query Bool := do
  let (a, m) ← viewType a
  let (b, n) ← viewType b
  if a = b then
    return true
  else if m.kind ≠ .typeVar ∨ n.kind ≠ .typeVar ∨ m.isCapture ∨ n.isCapture then
    return false
  else
    let d ← m.elementOf
    let e ← n.elementOf
    match d, e with
    | some d, some e => sameElement fuel d e
    | _, _ => return false

end JavaTypes
