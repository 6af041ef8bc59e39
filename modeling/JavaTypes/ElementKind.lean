/-!
# Kinds of elements

An *element* is something that a program declares. Its kind is fixed when the element is created.

* `ClassKind`, `VariableKind`, `ExecutableKind`: the three families of declarations;
* `ElementKind`: all kinds, with `ElementKind.canEnclose`, the table of who may contain whom;
* `Modifier` and `Nesting`: what a declaration says about itself.

`ElementKind.code` numbers the kinds from zero in the order of the language's own list.
-/

namespace JavaTypes

/-- The kinds of elements that declare a type. -/
inductive ClassKind
  | plain
  | interface
  | enum
  | annotationType
  | record
  deriving DecidableEq, Repr

/-- The kinds of elements that declare a variable. -/
inductive VariableKind
  | enumConstant
  | field
  | parameter
  | localVariable
  | exceptionParameter
  | resourceVariable
  | bindingVariable
  deriving DecidableEq, Repr

/-- The kinds of elements that declare code. -/
inductive ExecutableKind
  | method
  | constructor
  | staticInit
  | instanceInit
  deriving DecidableEq, Repr

inductive ElementKind
  | module
  | package
  | type (k : ClassKind)
  | var (k : VariableKind)
  | executable (k : ExecutableKind)
  | typeParameter
  | recordComponent
  deriving DecidableEq, Repr

/-- Interfaces, and the interfaces that annotation types are. -/
def ClassKind.isInterface : ClassKind → Bool
  | .interface | .annotationType => true
  | _ => false

/-- Whether code of the kind has parameters: initializers have none. -/
def ExecutableKind.isCallable : ExecutableKind → Bool
  | .method | .constructor => true
  | _ => false

namespace ElementKind

/-- All kinds, in the order of their codes. -/
def all : List ElementKind :=
  [.module, .package,
    .type .plain, .type .interface, .type .enum, .type .annotationType, .type .record,
    .var .enumConstant, .var .field, .var .parameter, .var .localVariable,
    .var .exceptionParameter, .var .resourceVariable, .var .bindingVariable,
    .executable .method, .executable .constructor, .executable .staticInit,
    .executable .instanceInit, .typeParameter, .recordComponent]

def code : ElementKind → Nat
  | module => 0
  | package => 1
  | type .plain => 2
  | type .interface => 3
  | type .enum => 4
  | type .annotationType => 5
  | type .record => 6
  | var .enumConstant => 7
  | var .field => 8
  | var .parameter => 9
  | var .localVariable => 10
  | var .exceptionParameter => 11
  | var .resourceVariable => 12
  | var .bindingVariable => 13
  | executable .method => 14
  | executable .constructor => 15
  | executable .staticInit => 16
  | executable .instanceInit => 17
  | typeParameter => 18
  | recordComponent => 19

def name : ElementKind → String
  | module => "Module"
  | package => "Package"
  | type .plain => "Class"
  | type .interface => "Interface"
  | type .enum => "Enum"
  | type .annotationType => "AnnotationType"
  | type .record => "Record"
  | var .enumConstant => "EnumConstant"
  | var .field => "Field"
  | var .parameter => "Parameter"
  | var .localVariable => "LocalVariable"
  | var .exceptionParameter => "ExceptionParameter"
  | var .resourceVariable => "ResourceVariable"
  | var .bindingVariable => "BindingVariable"
  | executable .method => "Method"
  | executable .constructor => "Constructor"
  | executable .staticInit => "StaticInit"
  | executable .instanceInit => "InstanceInit"
  | typeParameter => "TypeParameter"
  | recordComponent => "RecordComponent"

def isType : ElementKind → Bool
  | type _ => true
  | _ => false

def isInterface : ElementKind → Bool
  | type k => k.isInterface
  | _ => false

def isExecutable : ElementKind → Bool
  | executable _ => true
  | _ => false

def isVariable : ElementKind → Bool
  | var _ => true
  | _ => false

def isCallable : ElementKind → Bool
  | executable k => k.isCallable
  | _ => false

/-- Whether an element of the first kind may directly contain one of the second.

The enclosing element of a type parameter is the type, method or constructor that it is a
parameter of. -/
def canEnclose (outer : ElementKind) : ElementKind → Bool
  | module => false
  | package => outer == module
  | type _ => outer == package || outer.isType || outer.isExecutable
  | var .enumConstant => outer == type .enum
  | recordComponent => outer == type .record
  | var .field | executable _ => outer.isType
  | var .parameter => outer.isCallable
  | var .localVariable | var .exceptionParameter | var .resourceVariable
  | var .bindingVariable => outer.isExecutable
  | typeParameter => outer.isType || outer.isCallable

end ElementKind

inductive Modifier
  | publicAccess
  | protectedAccess
  | privateAccess
  | abstract
  | default
  | static
  | sealed
  | nonSealed
  | final
  | transient
  | volatile
  | synchronized
  | native
  | strictfp
  deriving DecidableEq, Repr

/-- The modifiers in the order in which they are listed. -/
def Modifier.all : List Modifier :=
  [.publicAccess, .protectedAccess, .privateAccess, .abstract, .default, .static, .sealed,
    .nonSealed, .final, .transient, .volatile, .synchronized, .native, .strictfp]

def Modifier.word : Modifier → String
  | publicAccess => "public"
  | protectedAccess => "protected"
  | privateAccess => "private"
  | abstract => "abstract"
  | default => "default"
  | static => "static"
  | sealed => "sealed"
  | nonSealed => "nonsealed"
  | final => "final"
  | transient => "transient"
  | volatile => "volatile"
  | synchronized => "synchronized"
  | native => "native"
  | strictfp => "strictfp"

inductive Nesting
  | topLevel
  | member
  | local
  | anonymous
  deriving DecidableEq, Repr

def Nesting.all : List Nesting :=
  [.topLevel, .member, .local, .anonymous]

def Nesting.word : Nesting → String
  | topLevel => "top_level"
  | member => "member"
  | «local» => "local"
  | anonymous => "anonymous"

end JavaTypes
