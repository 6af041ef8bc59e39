import JavaTypes.Relation.Containment

/-!
# Capture and greatest lower bounds

The capture of a type replaces each wildcard argument by a new type variable whose bounds are those
of the wildcard together with those of the parameter that the argument stands for. Each capture
makes its own variables.

The greatest lower bound of two types is the one that is a subtype of the other, or the intersection
of both with the classes before the interfaces.
-/

namespace JavaTypes

/-- The type variables of the type parameters of an element. -/
def formals : List ElementId → Build (List TypeId)
  | [] => return []
  | e :: es => do
      let t ← elementType e
      return t.toList ++ (← formals es)

def wildcardFlags : List TypeId → Build (List Bool)
  | [] => return []
  | t :: ts => do
      let flag := (← typeKind t) = .wildcard
      return flag :: (← wildcardFlags ts)

/-- Make a type variable that stands for a wildcard. -/
def freshCapture (wildcard : TypeId) : Query TypeId := do
  modifyMemo fun m => { m with captures := m.captures + 1 }
  let serial := (← get).memo.captures
  let e ← newNamedElement .typeParameter s!"capture#{serial}"
  let v ← blankType .typeVar
  setElementType e v
  editType v (.capturedWildcard wildcard)
  return v

def freshCaptures : List TypeId → Query (List TypeId)
  | [] => return []
  | t :: ts => do
      let t' ← if (← typeKind t) = .wildcard then freshCapture t else pure t
      return t' :: (← freshCaptures ts)

/-- A declared type with another enclosing type and other arguments. It is made anew each time. -/
def withArguments (t : TypeId) (n : TypeNode) (enclosing : TypeId) (arguments : List TypeId) :
    Query TypeId := do
  match n.element with
  | none => return t
  | some e =>
      let outer ← unlessNone enclosing
      let result ← declaredType outer e arguments
      if arguments.isEmpty && n.erased then
        editType result (.erased true)
      return result

namespace Judgements

variable (j : Judgements) (p : Premises)

/-- Whether a type is the same as one in a list; all of the list is looked at. -/
def isListed (t : TypeId) : List TypeId → Query Bool
  | [] => return false
  | s :: ss => do
      let here ← j.sameType p s t
      let there ← isListed t ss
      return here || there

/-- Sort types into classes and interfaces, each type once. -/
def sortBounds : List TypeId → List TypeId → List TypeId → Query (List TypeId × List TypeId)
  | classes, interfaces, [] => return (classes, interfaces)
  | classes, interfaces, t :: ts => do
      if ← isInterface t then
        let listed ← j.isListed p t interfaces
        sortBounds classes (if listed then interfaces else interfaces ++ [t]) ts
      else
        let listed ← j.isListed p t classes
        sortBounds (if listed then classes else classes ++ [t]) interfaces ts

/-- The bounds of an intersection; any other type is its own bound. -/
def boundsOrSelf (t : TypeId) : Query (List TypeId) := do
  let n ← typeNode t
  match n.shape with
  | .intersection bounds => return bounds
  | _ => return [t]

def glb (a b : TypeId) : Query TypeId := do
  let a ← resolveType a
  let b ← resolveType b
  if ← j.subtype p false a b then
    return a
  else if ← j.subtype p false b a then
    return b
  else
    let (classes, interfaces) ← j.sortBounds p [] [] (← boundsOrSelf a)
    let (classes, interfaces) ← j.sortBounds p classes interfaces (← boundsOrSelf b)
    match classes ++ interfaces with
    | [single] => return single
    | bounds => derive (.intersection bounds)

/-- Give the variable that was captured from a wildcard its bounds: the bound of the type parameter
that it stands for, seen with the captured arguments, and the bounds of the wildcard. -/
def boundCapture (σ : Substitution) (argument formal var : TypeId) : Query Unit := do
  let n ← typeNode argument
  if n.kind = .wildcard then
    let formalBound ← substitute σ j.fuel (← upperBound formal)
    let upper ←
      match n.extendsBound with
      | some bound => j.glb p bound formalBound
      | none => pure formalBound
    if (← resolveType upper) = var then
      editType var (.upperBound (← objectType))
    else
      editType var (.upperBound upper)
    match n.superBound with
    | some lower => editType var (.lowerBound lower)
    | none => return ()

def boundCaptures (σ : Substitution) : List TypeId → List TypeId → List TypeId → Query Unit
  | argument :: arguments, formal :: formals, var :: vars => do
      j.boundCapture p σ argument formal var
      boundCaptures σ arguments formals vars
  | _, _, _ => return ()

/-- One step of capture: the type around a type is captured too. All variables are made before the
first gets its bounds, which may mention any of them. -/
def captureStep (t : TypeId) : Query TypeId := do
  let (t, n) ← viewType t
  if n.kind ≠ .declared then
    return t
  else
    match ← n.elementOf with
    | none => return t
    | some e =>
        let (enclosing, outerNode) ← viewType n.enclosingOrNone
        let enclosing' ←
          if outerNode.kind = .declared then j.capture p enclosing else pure enclosing
        let flags ← wildcardFlags n.arguments
        let vars ← formals (← typeParameters e)
        if (← isRaw j.fuel t) || !flags.any id || vars.length != n.arguments.length then
          if enclosing' = enclosing then
            return t
          else
            withArguments t n enclosing' n.arguments
        else
          let captured ← freshCaptures n.arguments
          j.boundCaptures p { vars, vals := captured } n.arguments vars captured
          withArguments t n enclosing' captured

end Judgements

end JavaTypes
