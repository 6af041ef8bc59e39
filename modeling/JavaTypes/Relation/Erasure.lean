import JavaTypes.Relation.Substitution

/-!
# Erasure

`erase` takes away what a type says about type variables: a declared type becomes raw, a variable
becomes its bound, an intersection becomes its first bound, and the parts of arrays and executable
types are erased. `erasure` is the relation of the language, which is defined for fewer kinds.
-/

namespace JavaTypes

/-- Erase a declared type and the types around it. A type that is erased already, or that belongs to
no generic declaration, stays. -/
def eraseDeclared (erase : TypeId → Query TypeId) (t : TypeId) (n : TypeNode) : Query TypeId := do
  if n.erased then
    return t
  else
    match n.element with
    | none => return t
    | some e =>
        let (enclosing, outerNode) ← viewType n.enclosingOrNone
        let enclosing' ←
          if outerNode.kind = .declared then erase enclosing else pure enclosing
        let plain ← Action.both (pure n.arguments.isEmpty) do
          return (← typeParameters e).isEmpty
        if plain ∧ enclosing' = enclosing then
          return t
        else
          let outer ← unlessNone enclosing'
          deriveDeclared (← resolveElement e) outer [] true

def mapTypes (change : TypeId → Query TypeId) : List TypeId → Query (List TypeId)
  | [] => return []
  | t :: ts => do
      let t' ← change t
      return t' :: (← mapTypes change ts)

def eraseExecutable (erase : TypeId → Query TypeId) (n : TypeNode) : Query TypeId := do
  let parameters ← mapTypes erase n.parameters
  let receiver ← changeOption erase (← unlessNone n.receiverOrNone)
  let thrown ← mapTypes erase n.thrown
  let returnType ← erase n.returnOrVoid
  derive (.executable
    { typeVariables := [], parameters := parameters, returnType := some returnType,
      receiver := receiver, thrown := thrown })

def erase : Nat → TypeId → Query TypeId
  | 0, _ => throw .exhausted
  | fuel + 1, t => do
      let (t, n) ← viewType t
      match n.shape with
      | .declared _ => eraseDeclared (erase fuel) t n
      | .array (some component) => do
          let component' ← erase fuel component
          if component' = (← resolveType component) then return t else deriveArray component'
      | .typeVar _ => erase fuel (← upperBound t)
      | .intersection (first :: _) => erase fuel first
      | .intersection [] => objectType
      | .wildcard _ => erase fuel (← wildUpperBound fuel t)
      | .executable _ => eraseExecutable (erase fuel) n
      | _ => return t

def TypeKind.hasErasure : TypeKind → Bool
  | executable | wildcard | union | intersection => false
  | _ => true

def erasure (fuel : Nat) (t : TypeId) : Query TypeId := do
  match (← hooks).erasure t with
  | some answer => return answer
  | none =>
      let kind ← typeKind t
      if kind.hasErasure then
        erase fuel t
      else
        throw (.undefinedRelation "erasure" kind)

end JavaTypes
