import JavaTypes.ElementEdit
import JavaTypes.Types

/-!
# Elements of a store

Reading and filling in the elements of a store by handle, and the links between elements:

* `attach`: make an element a member of another; both directions of the link are written together;
* `setElementType`: give an element its own type; the type of a type element or type parameter is
  linked back to the element, and the link is tested before anything is written.

As for types, every reader completes the element first.
-/

namespace JavaTypes

def newElement (k : ElementKind) : Build ElementId :=
  makeElement { detail := ElementDetail.blank k }

def editElement (e : ElementId) (edit : ElementEdit) : Build Unit := do
  let s ← get
  Action.ofExcept (edit.admissible s)
  let (owner, n) ← viewElement e
  let n' ← Action.ofExcept (edit.applyTo n)
  modify fun s => s.setElementNode owner n'

def newNamedElement (k : ElementKind) (name : String) : Build ElementId := do
  let e ← newElement k
  editElement e (.simpleName name)
  return e

/-- Make the second element a member of the first. -/
def attach (role : Membership) (parent child : ElementId) : Build Unit := do
  let (parent, parentNode) ← viewElement parent
  let (child, childNode) ← viewElement child
  if Membership.of childNode.kind ≠ role then
    throw (.elementKind role.operation childNode.kind)
  let childNode' ← Action.ofExcept (childNode.enclosedBy parent parentNode.kind)
  modify fun s => s.setElementNode child childNode'
  let parentNode' ← elementNode parent
  if !parentNode'.takesMembers role then
    throw (.elementKind role.operation parentNode'.kind)
  modify fun s => s.setElementNode parent (parentNode'.addMember role child)

/-! ### The type of an element -/

/-- Whether a type of the second kind can be the type of an element of the first. -/
def ElementKind.admitsType : ElementKind → TypeKind → Bool
  | .type _, k => k.isDeclaredLike
  | .typeParameter, k => k == .typeVar
  | .executable _, k => k == .executable
  | .package, k => k == .noType .package
  | .module, k => k == .noType .module
  | .var _, k | .recordComponent, k => k.isComponent

/-- Whether the type of an element of the kind is linked back to the element. -/
def ElementKind.linksBack : ElementKind → Bool
  | .type _ | .typeParameter => true
  | _ => false

/-- Whether the node of a type can be linked to the element that it is the type of. -/
def TypeNode.checkLink (s : Store) (owner : TypeId) (n : TypeNode) (e : ElementId) :
    Except Fault Unit :=
  match n.shape with
  | .error element => checkOnce "element" element e
  | .declared d =>
      if n.shape.isFrozen owner then
        .error (.frozen n.kind)
      else do
        s.admitElement "set_defining_element" ElementKind.isType e
        checkOnce "element" d.element e
  | .typeVar v =>
      if n.shape.isFrozen owner then
        .error (.frozen n.kind)
      else do
        s.admitElement "set_defining_element" (· == .typeParameter) e
        checkOnce "element" v.element e
  | _ => .ok ()

/-- Test whether a type can be linked to the element that it is the type of. -/
def checkDefiningElement (t : TypeId) (e : ElementId) : Build Unit := do
  let (owner, n) ← viewType t
  let s ← get
  Action.ofExcept (n.checkLink s owner e)

/-- Link a type to the element that it is the type of. A declared type or type variable is filled in
as usual. An error type, which is otherwise fixed, takes the link too. Types of other kinds have no
link. -/
def linkDefiningElement (t : TypeId) (e : ElementId) : Build Unit := do
  let (owner, n) ← viewType t
  match n.shape with
  | .error element =>
      let element' ← Action.ofExcept (setOnce "element" element e)
      modify fun s => s.setTypeNode owner { n with shape := .error element' }
  | .declared _ | .typeVar _ => editType t (.definingElement e)
  | _ => return ()

/-- Test whether an element can be given a type. The answer is the element as it will be. -/
def checkElementType (e : ElementId) (t : TypeId) : Build (ElementId × ElementNode) := do
  let (e, n) ← viewElement e
  let s ← get
  Action.ofExcept (s.admitType "set_element_type" n.kind.admitsType t)
  Action.onlyIf n.kind.linksBack (checkDefiningElement t e)
  let type' ← Action.ofExcept (setOnce "type" n.type t)
  return (e, { n with type := type' })

/-- Give an element its type. Nothing is written before all tests have passed. -/
def setElementType (e : ElementId) (t : TypeId) : Build Unit := do
  let (e, n) ← checkElementType e t
  modify fun s => s.setElementNode e n
  Action.onlyIf n.kind.linksBack (linkDefiningElement t e)

/-! ### Readers -/

def simpleName (e : ElementId) : Build String := do
  return (← elementNode e).simpleName

def elementType (e : ElementId) : Build (Option TypeId) := do
  return (← elementNode e).type

def modifiers (e : ElementId) : Build (List Modifier) := do
  return (← elementNode e).modifierList

def hasModifier (e : ElementId) (m : Modifier) : Build Bool := do
  return (← elementNode e).hasModifier m

def enclosingElement (e : ElementId) : Build (Option ElementId) := do
  return (← elementNode e).enclosing

def enclosedElements (e : ElementId) : Build (List ElementId) := do
  return (← elementNode e).enclosed

def elementAnnotations (e : ElementId) : Build (List AnnotationUse) := do
  return (← elementNode e).annotations

def nestingKind (e : ElementId) : Build (Option Nesting) := do
  return (← elementNode e).nesting

def declaredSuperclass (e : ElementId) : Build (Option TypeId) := do
  return (← elementNode e).superclass

def declaredInterfaces (e : ElementId) : Build (List TypeId) := do
  return (← elementNode e).interfaces

def permittedSubclasses (e : ElementId) : Build (List TypeId) := do
  return (← elementNode e).permitted

def typeParameters (e : ElementId) : Build (List ElementId) := do
  return (← elementNode e).typeParameters

def parameters (e : ElementId) : Build (List ElementId) := do
  return (← elementNode e).parameters

def isVarargs (e : ElementId) : Build Bool := do
  return (← elementNode e).varargs

def isDefault (e : ElementId) : Build Bool := do
  return (← elementNode e).isDefault

def defaultValue (e : ElementId) : Build (Option AnnotationValue) := do
  return (← elementNode e).defaultValue

def constantValue (e : ElementId) : Build (Option Constant) := do
  return (← elementNode e).constant

def accessor (e : ElementId) : Build (Option ElementId) := do
  return (← elementNode e).accessor

/-- The thrown types of a method or constructor, which its type knows. -/
def elementThrownTypes (e : ElementId) : Build (List TypeId) := do
  let n ← elementNode e
  match n.kind, n.type with
  | .executable _, some t => thrownTypes t
  | _, _ => return []

/-- The bounds of a type parameter: the upper bound of its variable, or the bounds that the upper
bound is the intersection of. -/
def typeParameterBounds (e : ElementId) : Build (List TypeId) := do
  let n ← elementNode e
  match n.kind, n.type with
  | .typeParameter, some v =>
      match ← declaredUpperBound v with
      | some upper =>
          let upperNode ← typeNode upper
          match upperNode.shape with
          | .intersection bs => return bs
          | _ => return [upper]
      | none => return []
  | _, _ => return []

/-- The members of a list that are elements of a kind. -/
def ofKind (k : ElementKind) : List ElementId → Build (List ElementId)
  | [] => return []
  | e :: es => do
      let kind ← elementKind e
      let rest ← ofKind k es
      return if kind = k then e :: rest else rest

def recordComponents (e : ElementId) : Build (List ElementId) := do
  ofKind .recordComponent (← enclosedElements e)

end JavaTypes
