import JavaTypes.ElementKind
import JavaTypes.Constant

/-!
# Element nodes

What a store knows about one element. `ElementDetail` has one constructor for each family of
kinds, with the parts that only that family has; `ElementNode` adds what every element has.

As for types, the readers are total: an element answers with nothing when asked for a part that
elements of its kind do not have.
-/

namespace JavaTypes

/-- The parts of an element that declares a type. -/
structure ClassDecl where
  nesting : Option Nesting := none
  superclass : Option TypeId := none
  interfaces : List TypeId := []
  permitted : List TypeId := []
  typeParameters : List ElementId := []

structure ExecutableDecl where
  parameters : List ElementId := []
  typeParameters : List ElementId := []
  varargs : Option Bool := none
  isDefault : Option Bool := none
  defaultValue : Option AnnotationValue := none

/-- The kind of an element together with the parts that its kind has. -/
inductive ElementDetail
  | module
  | package
  | type (k : ClassKind) (d : ClassDecl)
  | var (k : VariableKind) (constant : Option Constant)
  | executable (k : ExecutableKind) (d : ExecutableDecl)
  | typeParameter
  | recordComponent (accessor : Option ElementId)

namespace ElementDetail

def kind : ElementDetail → ElementKind
  | module => .module
  | package => .package
  | type k _ => .type k
  | var k _ => .var k
  | executable k _ => .executable k
  | typeParameter => .typeParameter
  | recordComponent _ => .recordComponent

/-- The parts of a new element of a kind: none is given yet. -/
def blank : ElementKind → ElementDetail
  | .module => module
  | .package => package
  | .type k => type k {}
  | .var k => var k none
  | .executable k => executable k {}
  | .typeParameter => typeParameter
  | .recordComponent => recordComponent none

end ElementDetail

structure ElementNode where
  name : Option String := none
  type : Option TypeId := none
  modifiers : List Modifier := []
  enclosing : Option ElementId := none
  enclosed : List ElementId := []
  annotations : List AnnotationUse := []
  detail : ElementDetail

namespace ElementNode

def kind (n : ElementNode) : ElementKind :=
  n.detail.kind

/-- The simple name; the full name of a package or module. -/
def simpleName (n : ElementNode) : String :=
  n.name.getD ""

/-- The modifiers in the order in which they are listed. -/
def modifierList (n : ElementNode) : List Modifier :=
  Modifier.all.filter fun m => n.modifiers.contains m

def hasModifier (n : ElementNode) (m : Modifier) : Bool :=
  n.modifiers.contains m

def nesting (n : ElementNode) : Option Nesting :=
  match n.detail with
  | .type _ d => d.nesting
  | _ => none

def superclass (n : ElementNode) : Option TypeId :=
  match n.detail with
  | .type _ d => d.superclass
  | _ => none

def interfaces (n : ElementNode) : List TypeId :=
  match n.detail with
  | .type _ d => d.interfaces
  | _ => []

def permitted (n : ElementNode) : List TypeId :=
  match n.detail with
  | .type _ d => d.permitted
  | _ => []

def typeParameters (n : ElementNode) : List ElementId :=
  match n.detail with
  | .type _ d => d.typeParameters
  | .executable _ d => d.typeParameters
  | _ => []

def parameters (n : ElementNode) : List ElementId :=
  match n.detail with
  | .executable _ d => d.parameters
  | _ => []

/-- Whether a method or constructor takes a variable number of arguments. -/
def varargs (n : ElementNode) : Bool :=
  match n.detail with
  | .executable _ d => d.varargs.getD false
  | _ => false

def isDefault (n : ElementNode) : Bool :=
  match n.detail with
  | .executable _ d => d.isDefault.getD false
  | _ => false

def defaultValue (n : ElementNode) : Option AnnotationValue :=
  match n.detail with
  | .executable _ d => d.defaultValue
  | _ => none

def constant (n : ElementNode) : Option Constant :=
  match n.detail with
  | .var _ c => c
  | _ => none

def accessor (n : ElementNode) : Option ElementId :=
  match n.detail with
  | .recordComponent a => a
  | _ => none

end ElementNode

end JavaTypes
