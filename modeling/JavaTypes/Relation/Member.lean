import JavaTypes.Relation.Levels

/-!
# Members seen from a type

The type of a member as seen from a type that contains it. The variables of the type that declares
the member are replaced by the arguments that the containing type gives for it, through its
supertypes and the types around it. A member seen through a raw type is erased. A static member has
its declared type everywhere.
-/

namespace JavaTypes

/-- The type of a member that is declared with type `own`, seen from a declared type or an
intersection. Wildcard arguments are captured, so that none of them gets into a signature. -/
def memberInDeclared (fuel : Nat) (member : ElementId) (own t : TypeId) : Query TypeId := do
  match ← enclosingElement member with
  | none => return own
  | some owner =>
      let (owner, ownerNode) ← viewElement owner
      if ownerNode.kind.isType then
        let vars ← allTypeArguments fuel (← declaredTypeOf owner)
        if vars.isEmpty then
          return own
        else
          match ← outerSuperAt fuel t owner with
          | none => return own
          | some base =>
              if (← typeKind base) = .declared then
                let vals ← allTypeArguments fuel (← capture fuel base)
                if vals.isEmpty then
                  erase fuel own
                else
                  substitute { vars, vals } fuel own
              else
                return own
      else
        return own

/-- The type of a member that is declared with type `own`, seen from a type. -/
def memberFrom (member : ElementId) (own : TypeId) : Nat → TypeId → Query TypeId
  | 0, _ => throw .exhausted
  | fuel + 1, t => do
      let (t, n) ← viewType t
      match n.shape with
      | .wildcard _ => memberFrom member own fuel (← wildUpperBound fuel t)
      | .typeVar _ => memberFrom member own fuel (← upperBound t)
      | .declared _ | .intersection _ => memberInDeclared fuel member own t
      | .error _ => return t
      | .array _ => return own
      | _ => throw (.undefinedRelation "member_type" n.kind)

/-- The type of a member as seen from a type that contains it. -/
def memberType (fuel : Nat) (containing : TypeId) (member : ElementId) : Query TypeId := do
  let n ← elementNode member
  let own := n.type.getD TypeId.none
  if n.hasModifier .static then
    return own
  else
    memberFrom member own fuel containing

end JavaTypes
