import JavaTypes.Handle

/-!
# Constants and annotation values

What a program can fix at compile time: the values of constant variables and of the members of
annotations. Floating-point constants are kept as the bits of their IEEE formats.

`Constant.same` and `AnnotationValue.same` are the language's own comparison of such values. They
are not equality: a floating-point "not a number" differs from itself, and the two zeros agree.
-/

namespace JavaTypes

/-- Comparison of two numbers in the 32-bit IEEE format, given by their bits. -/
def sameBinary32 (a b : UInt32) : Bool :=
  let magnitudeA := a &&& 0x7fffffff
  let magnitudeB := b &&& 0x7fffffff
  magnitudeA ≤ 0x7f800000 && magnitudeB ≤ 0x7f800000 &&
    (a == b || (magnitudeA == 0 && magnitudeB == 0))

def sameBinary64 (a b : UInt64) : Bool :=
  let magnitudeA := a &&& 0x7fffffffffffffff
  let magnitudeB := b &&& 0x7fffffffffffffff
  magnitudeA ≤ 0x7ff0000000000000 && magnitudeB ≤ 0x7ff0000000000000 &&
    (a == b || (magnitudeA == 0 && magnitudeB == 0))

inductive Constant
  | boolean (value : Bool)
  | byte (value : Int8)
  | short (value : Int16)
  | char (value : Char)
  | int (value : Int32)
  | long (value : Int64)
  | float (bits : UInt32)
  | double (bits : UInt64)
  | string (value : String)
  deriving DecidableEq

/-- Whether two constants are the same value of the same type. -/
def Constant.same : Constant → Constant → Bool
  | boolean a, boolean b => a == b
  | byte a, byte b => a == b
  | short a, short b => a == b
  | char a, char b => a == b
  | int a, int b => a == b
  | long a, long b => a == b
  | float a, float b => sameBinary32 a b
  | double a, double b => sameBinary64 a b
  | string a, string b => a == b
  | _, _ => false

/-- The value of a member of an annotation. -/
inductive AnnotationValue
  | constant (value : Constant)
  | type (t : TypeId)
  | enumConstant (e : ElementId)
  | nested (type : TypeId) (members : List (String × AnnotationValue))
  | list (items : List AnnotationValue)

/-- An annotation that stands on a type or an element: its type, and its members in the order
in which they were given. -/
structure AnnotationUse where
  type : TypeId
  members : List (String × AnnotationValue)

mutual

/-- Whether two annotation values are the same. Types and elements are compared by handle. -/
def AnnotationValue.same : AnnotationValue → AnnotationValue → Bool
  | .constant a, .constant b => a.same b
  | .type a, .type b => a == b
  | .enumConstant a, .enumConstant b => a == b
  | .nested a as, .nested b bs => a == b && AnnotationValue.sameMembers as bs
  | .list as, .list bs => AnnotationValue.sameItems as bs
  | _, _ => false

def AnnotationValue.sameItems : List AnnotationValue → List AnnotationValue → Bool
  | [], [] => true
  | a :: as, b :: bs => a.same b && AnnotationValue.sameItems as bs
  | _, _ => false

/-- Whether two lists of members have the same names and values in the same order. -/
def AnnotationValue.sameMembers :
    List (String × AnnotationValue) → List (String × AnnotationValue) → Bool
  | [], [] => true
  | (m, a) :: as, (n, b) :: bs => m == n && a.same b && AnnotationValue.sameMembers as bs
  | _, _ => false

end

/-- The value of the first member with the given name. -/
def AnnotationUse.value? (a : AnnotationUse) (name : String) : Option AnnotationValue :=
  (a.members.find? fun member => member.1 == name).map Prod.snd

end JavaTypes
