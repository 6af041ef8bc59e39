/-!
# Kinds of types

Every type of a program has a *kind*, fixed when the type is created.

* `Primitive`: the eight primitive types, with their keywords, their boxes and the widening order;
* `NoType`: the four types that no value has;
* `TypeKind`: all kinds, with the classes of kinds that the rules of the language speak of.

`TypeKind.code` numbers the kinds from zero in the order of the language's own list. Fingerprints
of types are built from these numbers.
-/

namespace JavaTypes

inductive Primitive
  | boolean
  | byte
  | short
  | int
  | long
  | char
  | float
  | double
  deriving DecidableEq, Repr

namespace Primitive

/-- The primitive types in their fixed order. -/
def all : List Primitive :=
  [.boolean, .byte, .short, .int, .long, .char, .float, .double]

def index : Primitive → Nat
  | .boolean => 0
  | .byte => 1
  | .short => 2
  | .int => 3
  | .long => 4
  | .char => 5
  | .float => 6
  | .double => 7

def keyword : Primitive → String
  | .boolean => "boolean"
  | .byte => "byte"
  | .short => "short"
  | .int => "int"
  | .long => "long"
  | .char => "char"
  | .float => "float"
  | .double => "double"

/-- The qualified name of the class whose objects box values of the type. -/
def boxName : Primitive → String
  | .boolean => "java.lang.Boolean"
  | .byte => "java.lang.Byte"
  | .short => "java.lang.Short"
  | .int => "java.lang.Integer"
  | .long => "java.lang.Long"
  | .char => "java.lang.Character"
  | .float => "java.lang.Float"
  | .double => "java.lang.Double"

/-- Widening between two different primitive types. -/
def widensTo : Primitive → Primitive → Bool
  | .byte, .short | .byte, .int | .byte, .long | .byte, .float | .byte, .double => true
  | .short, .int | .short, .long | .short, .float | .short, .double => true
  | .char, .int | .char, .long | .char, .float | .char, .double => true
  | .int, .long | .int, .float | .int, .double => true
  | .long, .float | .long, .double => true
  | .float, .double => true
  | _, _ => false

theorem widensTo_irrefl (p : Primitive) : p.widensTo p = false := by
  cases p <;> rfl

theorem widensTo_trans {p q r : Primitive} (hpq : p.widensTo q = true)
    (hqr : q.widensTo r = true) : p.widensTo r = true := by
  cases p <;> cases q <;> cases r <;> simp_all [widensTo]

def name : Primitive → String
  | .boolean => "Boolean"
  | .byte => "Byte"
  | .short => "Short"
  | .int => "Int"
  | .long => "Long"
  | .char => "Char"
  | .float => "Float"
  | .double => "Double"

end Primitive

/-- A type that no value has: the absent type, the result of a method that returns nothing, and
the types of modules and packages. -/
inductive NoType
  | none
  | void
  | module
  | package
  deriving DecidableEq, Repr

namespace NoType

/-- The no-types in their fixed order. -/
def all : List NoType :=
  [.none, .void, .module, .package]

def index : NoType → Nat
  | .none => 0
  | .void => 1
  | .module => 2
  | .package => 3

def name : NoType → String
  | .none => "None"
  | .void => "Void"
  | .module => "Module"
  | .package => "Package"

def code : NoType → Nat
  | .void => 8
  | .none => 9
  | .module => 10
  | .package => 11

end NoType

inductive TypeKind
  | primitive (p : Primitive)
  | noType (n : NoType)
  | null
  | array
  | declared
  | error
  | executable
  | intersection
  | typeVar
  | union
  | wildcard
  deriving DecidableEq, Repr

namespace TypeKind

/-- All kinds, in the order of their codes. -/
def all : List TypeKind :=
  Primitive.all.map .primitive ++
    [.noType .void, .noType .none, .noType .module, .noType .package, .null, .array, .declared,
      .error, .executable, .intersection, .typeVar, .union, .wildcard]

def code : TypeKind → Nat
  | primitive p => p.index
  | noType n => n.code
  | null => 12
  | array => 13
  | declared => 14
  | error => 15
  | executable => 16
  | intersection => 17
  | typeVar => 18
  | union => 19
  | wildcard => 20

def name : TypeKind → String
  | primitive p => p.name
  | noType n => n.name
  | null => "Null"
  | array => "Array"
  | declared => "Declared"
  | error => "Error"
  | executable => "Executable"
  | intersection => "Intersection"
  | typeVar => "TypeVar"
  | union => "Union"
  | wildcard => "Wildcard"

def primitive? : TypeKind → Option Primitive
  | primitive p => some p
  | _ => none

def isPrimitive : TypeKind → Bool
  | primitive _ => true
  | _ => false

def isNoType : TypeKind → Bool
  | noType _ => true
  | _ => false

/-- The kinds whose values are references: those that the null reference has. -/
def isReference : TypeKind → Bool
  | array | declared | error | intersection | null | typeVar => true
  | _ => false

/-- The kinds of type arguments, array components and bounds. -/
def isValue : TypeKind → Bool
  | wildcard => true
  | k => k.isPrimitive || k.isReference

/-- The kinds that name a declaration: a declared type, or one that could not be found. -/
def isDeclaredLike : TypeKind → Bool
  | declared | error => true
  | _ => false

/-- The references that a program can write down: every reference kind but that of null. -/
def isNonNullReference (k : TypeKind) : Bool :=
  k.isReference && k != null

end TypeKind

end JavaTypes
