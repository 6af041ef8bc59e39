import JavaTypes.Relation.Containment

/-!
# Subtyping

One step of the decision whether a type is a subtype of another. The first type can be captured
before it is compared (`capturing`).
-/

namespace JavaTypes

namespace Judgements

variable (j : Judgements) (p : Premises)

def belowAll (capturing : Bool) (t : TypeId) : List TypeId → Query Bool
  | [] => return true
  | s :: ss => Action.both (j.subtype p capturing t s) (belowAll capturing t ss)

def allBelow (capturing : Bool) (s : TypeId) : List TypeId → Query Bool
  | [] => return true
  | t :: ts => Action.both (j.subtype p capturing t s) (allBelow capturing s ts)

/-- Whether the type around the declared type `m` is a subtype of the type around `n`. This is asked
only if the latter has arguments. -/
def enclosingBelow (m n : TypeNode) : Query Bool := do
  let outer := n.enclosingOrNone
  let counts ← Action.both (do return (← typeKind outer) = .declared) (isParameterized j.fuel outer)
  if counts then
    if (← typeKind m.enclosingOrNone) = .declared then
      j.subtype p false m.enclosingOrNone outer
    else
      return false
  else
    return true

/-- Whether a declared type or an intersection is a subtype of a declared type: the supertype with
the element of the second must have arguments that those of the second contain. -/
def belowDeclared (t s : TypeId) (n : TypeNode) : Query Bool := do
  match ← n.elementOf with
  | none => return false
  | some e =>
      match ← superAt j.fuel t e with
      | none => return false
      | some above =>
          let m ← typeNode above
          if m.kind ≠ .declared then
            j.subtype p false above s
          else
            Action.both
              (Action.either (return n.arguments.isEmpty) (j.containsArguments p s above))
              (j.enclosingBelow p m n)

def arrayBelow (component : Option TypeId) (n : TypeNode) : Query Bool := do
  match n.shape with
  | .array component' =>
      match component, component' with
      | some c, some d =>
          if (← typeKind c).isPrimitive then j.sameType p c d else j.subtype p false c d
      | _, _ => return false
  | .declared _ =>
      let known ← wellKnown
      match ← n.elementOf with
      | some e => return (known.aboveArrays e).isSome
      | none => return false
  | _ => return false

/-- Whether the type `t`, captured if that was asked for, is a subtype of `s`, by the kind of `t`. -/
def belowByKind (capturing : Bool) (t s : TypeId) (n : TypeNode) : Query Bool := do
  let m ← typeNode t
  match m.shape with
  | .primitive a =>
      match n.shape with
      | .primitive b => return a = b || a.widensTo b
      | _ => return false
  | .null => return n.kind.isReference
  | .error _ => return true
  | .typeVar _ => j.subtype p false (← upperBound t) s
  | .declared _ | .intersection _ =>
      if n.kind = .declared then j.belowDeclared p t s n else return false
  | .array component => j.arrayBelow p component n
  | .union alternatives => j.allBelow p capturing s alternatives
  | .noType _ | .executable _ | .wildcard _ => throw (.undefinedRelation "is_subtype" m.kind)

/-- One step of subtyping. A supertype with a bound from below, a wildcard or a captured variable,
stands for that bound. -/
def subtypeStep (capturing : Bool) (t s : TypeId) : Query Bool := do
  let t ← resolveType t
  let (s, n) ← viewType s
  if ← j.sameType p t s then
    return true
  else
    match n.shape with
    | .intersection bounds => j.belowAll p capturing t bounds
    | .error _ => return true
    | _ =>
        let lower ← captureLowerBound j.fuel (← wildLowerBound j.fuel s)
        let throughBound ← Action.both (return lower ≠ s) (do return (← typeKind lower) ≠ .null)
        let t ← if capturing then j.capture p t else pure t
        if throughBound then
          j.subtype p false t lower
        else
          j.belowByKind p capturing t s n

end Judgements

end JavaTypes
