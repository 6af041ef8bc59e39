import JavaTypes.Completion

/-!
# Types of a store

Reading and filling in the types of a store by handle. Every reader completes the type first. A
part that types of its kind do not have, or that has not been given, is answered with nothing, or
with the type that stands for nothing: the absent type, or `void` for a return type.
-/

namespace JavaTypes

def editType (t : TypeId) (edit : TypeEdit) : Build Unit := do
  let (owner, n) ← viewType t
  let _ ← editTypeNode owner n edit

namespace TypeNode

def enclosingOrNone (n : TypeNode) : TypeId :=
  n.enclosing.getD TypeId.none

def returnOrVoid (n : TypeNode) : TypeId :=
  n.returnType.getD TypeId.void

def receiverOrNone (n : TypeNode) : TypeId :=
  n.receiver.getD TypeId.none

end TypeNode

def componentType (t : TypeId) : Build (Option TypeId) := do
  return (← typeNode t).component

def definingElement (t : TypeId) : Build (Option ElementId) := do
  return (← typeNode t).element

def enclosingType (t : TypeId) : Build TypeId := do
  return (← typeNode t).enclosingOrNone

def typeArguments (t : TypeId) : Build (List TypeId) := do
  return (← typeNode t).arguments

def isErased (t : TypeId) : Build Bool := do
  return (← typeNode t).erased

def parameterTypes (t : TypeId) : Build (List TypeId) := do
  return (← typeNode t).parameters

def returnType (t : TypeId) : Build TypeId := do
  return (← typeNode t).returnOrVoid

def receiverType (t : TypeId) : Build TypeId := do
  return (← typeNode t).receiverOrNone

def thrownTypes (t : TypeId) : Build (List TypeId) := do
  return (← typeNode t).thrown

def executableTypeVariables (t : TypeId) : Build (List TypeId) := do
  return (← typeNode t).typeVariables

def bounds (t : TypeId) : Build (List TypeId) := do
  return (← typeNode t).bounds

def declaredUpperBound (t : TypeId) : Build (Option TypeId) := do
  return (← typeNode t).upperBound

def declaredLowerBound (t : TypeId) : Build (Option TypeId) := do
  return (← typeNode t).lowerBound

def capturedWildcard (t : TypeId) : Build (Option TypeId) := do
  return (← typeNode t).capturedFrom

def extendsBound (t : TypeId) : Build (Option TypeId) := do
  return (← typeNode t).extendsBound

def superBound (t : TypeId) : Build (Option TypeId) := do
  return (← typeNode t).superBound

def typeAnnotations (t : TypeId) : Build (List AnnotationUse) := do
  return (← typeNode t).annotations

def primitiveType (k : TypeKind) : Build TypeId :=
  match k with
  | .primitive p => return TypeId.primitive p
  | k => throw (.typeKind "primitive_type" k)

def noType (k : TypeKind) : Build TypeId :=
  match k with
  | .noType n => return TypeId.noType n
  | k => throw (.typeKind "no_type" k)

end JavaTypes
