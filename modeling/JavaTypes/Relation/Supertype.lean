import JavaTypes.Relation.Erasure

/-!
# Direct supertypes

* `supertype`: the direct superclass of a type; the absent type if it has none;
* `interfaces`: the interfaces that a type directly implements or extends;
* `directSupertypes`: both together.

What a declaration names is seen from an instance of it (`seenFrom`): with the arguments of the
instance in place of the variables, and erased if the instance is raw.
-/

namespace JavaTypes

/-- A type that the declaration `e` names, seen from the instance `t` of the declaration. -/
def seenFrom (fuel : Nat) (t : TypeId) (e : ElementId) (named : TypeId) : Query TypeId := do
  if ← isRaw fuel t then
    erase fuel named
  else if ← isParameterized fuel t then
    let vars ← allTypeArguments fuel (← declaredTypeOf e)
    let vals ← allTypeArguments fuel t
    substitute { vars, vals } fuel named
  else
    return named

def superclassOf (fuel : Nat) (t : TypeId) (n : TypeNode) : Query TypeId := do
  match ← n.elementOf with
  | none => return TypeId.none
  | some e =>
      let rootless ← Action.either (do return (← elementKind e).isInterface) (isObject t)
      if rootless then
        return TypeId.none
      else
        let superclass ←
          match ← declaredSuperclass e with
          | some superclass => pure superclass
          | none => objectType
        if (← typeKind superclass) = .noType .none then
          return TypeId.none
        else
          seenFrom fuel t e superclass

/-- The first type of a list that is not an interface, or `Object`. -/
def firstClass : List TypeId → Query TypeId
  | [] => objectType
  | t :: ts => do
      if ← isInterface t then firstClass ts else return t

/-- Whether a type is primitive or `Object`. Arrays of such components have no array above them. -/
def isTopComponent (t : TypeId) : Query Bool := do
  Action.either (do return (← typeKind t).isPrimitive) (isObject t)

/-- The direct superclass of a type, or the absent type. -/
def supertype : Nat → TypeId → Query TypeId
  | 0, _ => throw .exhausted
  | fuel + 1, t => do
      let (t, n) ← viewType t
      match n.shape with
      | .declared _ => superclassOf fuel t n
      | .typeVar _ =>
          let bound ← upperBound t
          match ← typeKind bound with
          | .typeVar => return bound
          | .intersection => supertype fuel bound
          | _ => if ← isInterface bound then objectType else return bound
      | .intersection bounds => firstClass bounds
      | .array none => objectType
      | .array (some component) =>
          if ← isTopComponent component then
            objectType
          else
            let above ← supertype fuel component
            if (← typeKind above) = .noType .none then objectType else deriveArray above
      | _ => return TypeId.none

def onlyInterfaces : List TypeId → Query (List TypeId)
  | [] => return []
  | t :: ts => do
      let keep ← isInterface t
      let rest ← onlyInterfaces ts
      return if keep then t :: rest else rest

def interfaces : Nat → TypeId → Query (List TypeId)
  | 0, _ => throw .exhausted
  | fuel + 1, t => do
      let (t, n) ← viewType t
      match n.shape with
      | .declared _ =>
          match ← n.elementOf with
          | none => return []
          | some e => mapTypes (seenFrom fuel t e) (← declaredInterfaces e)
      | .typeVar _ =>
          let bound ← upperBound t
          if (← typeKind bound) = .intersection then
            interfaces fuel bound
          else if ← isInterface bound then
            return [bound]
          else
            return []
      | .intersection bounds => onlyInterfaces bounds
      | _ => return []

/-- The direct supertypes of an array, given the direct supertypes of its component. -/
def arraysOver (objectType : TypeId) : List TypeId → Query (List TypeId)
  | [] => return [← deriveArray objectType]
  | ts => mapTypes deriveArray ts

/-- The direct supertypes of a type whose parts are known, with `above` for components. -/
def supertypesOfNode (fuel : Nat) (above : TypeId → Query (List TypeId)) (x : TypeId × TypeNode) :
    Query (List TypeId) := do
  match x.2.shape with
  | .declared _ =>
      if ← isObject x.1 then
        return []
      else
        let superclass ← unlessNone (← supertype fuel x.1)
        return superclass.toList ++ (← interfaces fuel x.1)
  | .typeVar _ =>
      let bound ← upperBound x.1
      let boundNode ← typeNode bound
      match boundNode.shape with
      | .intersection bounds => return bounds
      | _ => return [bound]
  | .intersection bounds => return bounds
  | .array component =>
      let known ← wellKnown
      match component with
      | none => return [known.objectType]
      | some component =>
          if ← isTopComponent component then
            return [known.objectType, known.cloneableType, known.serializableType]
          else
            arraysOver known.objectType (← above component)
  | .error _ => return []
  | _ => throw (.undefinedRelation "direct_supertypes" x.2.kind)

def supertypesOf : Nat → TypeId → Query (List TypeId)
  | 0, _ => throw .exhausted
  | fuel + 1, t => do supertypesOfNode fuel (supertypesOf fuel) (← viewType t)

/-- The direct supertypes of a type: the superclass and then the interfaces, or the bounds. -/
def directSupertypes (fuel : Nat) (t : TypeId) : Query (List TypeId) := do
  match (← hooks).directSupertypes t with
  | some answer => return answer
  | none => supertypesOf fuel t

end JavaTypes
