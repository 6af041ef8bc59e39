import JavaTypes.TypeKind
import JavaTypes.Constant

/-!
# Type nodes

What a store knows about one type. `TypeShape` has one constructor for each kind of type, with the
parts that types of that kind have; a part that has not been given yet is absent. `TypeNode` adds
the annotations that stand on the type.

The readers at the end are total: asked for a part that types of its kind do not have, a node
answers with nothing.
-/

namespace JavaTypes

structure DeclaredType where
  element : Option ElementId := none
  enclosing : Option TypeId := none
  arguments : List TypeId := []
  erased : Option Bool := none
  deriving DecidableEq, Repr

structure ExecutableType where
  typeVariables : List TypeId := []
  parameters : List TypeId := []
  returnType : Option TypeId := none
  receiver : Option TypeId := none
  thrown : List TypeId := []
  deriving DecidableEq, Repr

/-- The parts of a type variable. One that came from capturing a wildcard remembers it. -/
structure TypeVariable where
  element : Option ElementId := none
  upper : Option TypeId := none
  lower : Option TypeId := none
  capturedFrom : Option TypeId := none
  deriving DecidableEq, Repr

/-- The bounds of a wildcard: the one after `extends` and the one after `super`. -/
structure WildcardType where
  upper : Option TypeId := none
  lower : Option TypeId := none
  deriving DecidableEq, Repr

/-- The kind of a type together with its parts. -/
inductive TypeShape
  | primitive (p : Primitive)
  | noType (n : NoType)
  | null
  | array (component : Option TypeId)
  | declared (d : DeclaredType)
  | error (element : Option ElementId)
  | executable (x : ExecutableType)
  | intersection (bounds : List TypeId)
  | typeVar (v : TypeVariable)
  | union (alternatives : List TypeId)
  | wildcard (w : WildcardType)
  deriving DecidableEq, Repr

def TypeShape.kind : TypeShape → TypeKind
  | primitive p => .primitive p
  | noType n => .noType n
  | null => .null
  | array _ => .array
  | declared _ => .declared
  | error _ => .error
  | executable _ => .executable
  | intersection _ => .intersection
  | typeVar _ => .typeVar
  | union _ => .union
  | wildcard _ => .wildcard

structure TypeNode where
  shape : TypeShape
  annotations : List AnnotationUse := []

namespace TypeNode

def kind (n : TypeNode) : TypeKind :=
  n.shape.kind

def component (n : TypeNode) : Option TypeId :=
  match n.shape with
  | .array c => c
  | _ => none

/-- The element that a declared type, an error type or a type variable belongs to. -/
def element (n : TypeNode) : Option ElementId :=
  match n.shape with
  | .declared d => d.element
  | .error e => e
  | .typeVar v => v.element
  | _ => none

def enclosing (n : TypeNode) : Option TypeId :=
  match n.shape with
  | .declared d => d.enclosing
  | _ => none

def arguments (n : TypeNode) : List TypeId :=
  match n.shape with
  | .declared d => d.arguments
  | _ => []

def erased (n : TypeNode) : Bool :=
  match n.shape with
  | .declared d => d.erased.getD false
  | _ => false

def parameters (n : TypeNode) : List TypeId :=
  match n.shape with
  | .executable x => x.parameters
  | _ => []

def returnType (n : TypeNode) : Option TypeId :=
  match n.shape with
  | .executable x => x.returnType
  | _ => none

def receiver (n : TypeNode) : Option TypeId :=
  match n.shape with
  | .executable x => x.receiver
  | _ => none

def thrown (n : TypeNode) : List TypeId :=
  match n.shape with
  | .executable x => x.thrown
  | _ => []

def typeVariables (n : TypeNode) : List TypeId :=
  match n.shape with
  | .executable x => x.typeVariables
  | _ => []

def bounds (n : TypeNode) : List TypeId :=
  match n.shape with
  | .intersection bs => bs
  | .union bs => bs
  | _ => []

def upperBound (n : TypeNode) : Option TypeId :=
  match n.shape with
  | .typeVar v => v.upper
  | _ => none

def lowerBound (n : TypeNode) : Option TypeId :=
  match n.shape with
  | .typeVar v => v.lower
  | _ => none

def capturedFrom (n : TypeNode) : Option TypeId :=
  match n.shape with
  | .typeVar v => v.capturedFrom
  | _ => none

def extendsBound (n : TypeNode) : Option TypeId :=
  match n.shape with
  | .wildcard w => w.upper
  | _ => none

def superBound (n : TypeNode) : Option TypeId :=
  match n.shape with
  | .wildcard w => w.lower
  | _ => none

/-- Whether the type is a variable that came from capturing a wildcard. -/
def isCapture (n : TypeNode) : Bool :=
  n.capturedFrom.isSome

end TypeNode

theorem isCapture_eq_false {n : TypeNode} (hn : n.kind ≠ .typeVar) : n.isCapture = false := by
  obtain ⟨shape, as⟩ := n
  cases shape with
  | typeVar v => exact absurd rfl hn
  | _ => rfl

end JavaTypes
