import JavaTypes.Relation.Supertype

/-!
# A type seen as one of its supertypes

`asSuper` finds the supertype of a type that a given element declares: the type itself, or one
reached through superclasses, interfaces and bounds. `asOuterSuper` searches the types around it as
well.

The search keeps the elements on the way to the current type (`seen`), and leaves a branch that
comes back to one of them, so it ends on cyclic declarations too.
-/

namespace JavaTypes

/-- The first answer that a search finds in a list. -/
def firstFound (search : TypeId → Query (Option TypeId)) : List TypeId → Query (Option TypeId)
  | [] => return none
  | t :: ts => do
      match ← search t with
      | some found => return some found
      | none => firstFound search ts

/-- Every reference type has `Object` above it. -/
def implicitObject (e : ElementId) : Query (Option TypeId) := do
  if e = (← objectElement) then
    return some (← objectType)
  else
    return none

/-- The supertype of an array that an element declares. -/
def WellKnown.aboveArrays (known : WellKnown) (e : ElementId) : Option TypeId :=
  if e = known.object then some known.objectType
  else if e = known.cloneable then some known.cloneableType
  else if e = known.serializable then some known.serializableType
  else none

/-- Search above a declared type: its superclass, then its interfaces. -/
def searchAbove (fuel : Nat) (search : TypeId → Query (Option TypeId)) (t : TypeId) :
    Query (Option TypeId) := do
  let above ← supertype fuel t
  let found ←
    if (← typeKind above) = .noType .none then pure none else search above
  match found with
  | some found => return some found
  | none => firstFound search (← interfaces fuel t)

section Search

variable (e : ElementId) (fuel : Nat) (search : List ElementId → TypeId → Query (Option TypeId))
  (seen : List ElementId)

/-- The search from a declared type whose element is known. -/
def asSuperDeclared (t : TypeId) : Option ElementId → Query (Option TypeId)
  | none => return none
  | some own =>
      if own = e then
        return some t
      else do
        let found ← if own ∈ seen then pure none else searchAbove fuel (search (own :: seen)) t
        match found with
        | some found => return some found
        | none => implicitObject e

/-- The search from a type whose parts are known, with `search` for what is above it. -/
def asSuperNode (x : TypeId × TypeNode) : Query (Option TypeId) := do
  match x.2.shape with
  | .declared _ => asSuperDeclared e fuel search seen x.1 (← x.2.elementOf)
  | .array _ => return (← wellKnown).aboveArrays e
  | .typeVar _ =>
      match ← x.2.elementOf with
      | none => search seen (← upperBound x.1)
      | some own =>
          if own = e then
            return some x.1
          else
            let bound ← upperBound x.1
            if own ∈ seen then return none
            else search (own :: seen) bound
  | .intersection bounds =>
      match ← firstFound (search seen) bounds with
      | some found => return some found
      | none => implicitObject e
  | .error _ => return some x.1
  | _ => return none

end Search

/-- The supertype of a type that the completed element `e` declares. The search does not go through
the elements in `seen` again. -/
def asSuperFrom (e : ElementId) : Nat → List ElementId → TypeId → Query (Option TypeId)
  | 0, _, _ => throw .exhausted
  | fuel + 1, seen, t => do asSuperNode e fuel (asSuperFrom e fuel) seen (← viewType t)

def superAt (fuel : Nat) (t : TypeId) (e : ElementId) : Query (Option TypeId) :=
  asSuperFrom e fuel [] t

/-- The supertype of a declared type, or of one of the types around it, that a completed element
declares. -/
def superAround (e : ElementId) : Nat → TypeId → Query (Option TypeId)
  | 0, _ => throw .exhausted
  | fuel + 1, t => do
      match ← superAt fuel t e with
      | some found => return some found
      | none =>
          let (outer, n) ← viewType (← enclosingType t)
          if n.kind = .declared then superAround e fuel outer else return none

def outerSuperAt (fuel : Nat) (t : TypeId) (e : ElementId) : Query (Option TypeId) := do
  let (t, n) ← viewType t
  match n.kind with
  | .declared => superAround e fuel t
  | .array | .typeVar | .intersection => superAt fuel t e
  | .error => return some t
  | _ => return none

def asSuper (fuel : Nat) (t : TypeId) (e : ElementId) : Query (Option TypeId) := do
  superAt fuel t (← resolveElement e)

def asOuterSuper (fuel : Nat) (t : TypeId) (e : ElementId) : Query (Option TypeId) := do
  outerSuperAt fuel t (← resolveElement e)

end JavaTypes
