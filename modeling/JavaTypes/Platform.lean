import JavaTypes.Declaration

/-!
# The platform

The declarations of the module `java.base` that the rules of the language speak of, and the types
that programs use most: `Object`, `String`, the boxes of the primitive types, `Number`,
`Comparable`, `Cloneable`, `Serializable`, the interfaces of constants, the collections, `Enum`,
`Record` and `Annotation`.

`Store.platform` is the store that holds them.
-/

namespace JavaTypes

namespace Platform

def declareFinalClass (package : ElementId) (name : String) (superclass : TypeId) :
    Build ElementId := do
  let e ← declareClass package name []
  editElement e (.modifier .final)
  editElement e (.superclass superclass)
  return e

/-- Let a class implement `Comparable` for itself. -/
def implementComparable (comparable e : ElementId) : Build Unit := do
  let own ← typeOf e
  let t ← declaredType none comparable [own]
  editElement e (.interface t)

/-- Let a type element have further interfaces. -/
def addInterfaces (e : ElementId) : List TypeId → Build Unit
  | [] => return ()
  | t :: ts => do
      editElement e (.interface t)
      addInterfaces e ts

/-- Declare the boxes of numbers: final classes under `Number` that are comparable and have further
interfaces. -/
def declareNumberBoxes (package comparable : ElementId) (number : TypeId)
    (interfaces : List TypeId) : List String → Build Unit
  | [] => return ()
  | name :: names => do
      let e ← declareFinalClass package name number
      implementComparable comparable e
      addInterfaces e interfaces
      declareNumberBoxes package comparable number interfaces names

/-- Declare the other boxes: final classes that are serializable, comparable and constable. -/
def declarePlainBoxes (package comparable : ElementId) (object serializable constable : TypeId) :
    List String → Build Unit
  | [] => return ()
  | name :: names => do
      let e ← declareFinalClass package name object
      editElement e (.interface serializable)
      implementComparable comparable e
      editElement e (.interface constable)
      declarePlainBoxes package comparable object serializable constable names

def declare : Build Unit := do
  let base ← declareModule "java.base"
  let lang ← declarePackage base "java.lang"
  let io ← declarePackage base "java.io"
  let util ← declarePackage base "java.util"
  let constants ← declarePackage base "java.lang.constant"
  let annotations ← declarePackage base "java.lang.annotation"
  let int := TypeId.primitive .int
  let boolean := TypeId.primitive .boolean
  let object ← declareClass lang "Object" []
  let objectType ← typeOf object
  -- `Number` refers to `Serializable` by name, so its interface is completed on first use.
  let laterSerializable ← lazyDeclaredType "java.io.Serializable" []
  let serializable ← typeOf (← declareInterface io "Serializable" [])
  let cloneable ← typeOf (← declareInterface lang "Cloneable" [])
  let charSequence ← declareInterface lang "CharSequence" []
  let charSequenceType ← typeOf charSequence
  let constable ← typeOf (← declareInterface constants "Constable" [])
  let constantDesc ← typeOf (← declareInterface constants "ConstantDesc" [])
  let _ ← declareInterface annotations "Annotation" []
  let comparable ← declareInterface lang "Comparable" ["T"]
  let comparableT ← typeVariable comparable "T"
  let _ ← declareMethod comparable "compareTo" int [("o", comparableT)]
  let iterable ← declareInterface lang "Iterable" ["T"]
  let collection ← declareInterface util "Collection" ["E"]
  let collectionE ← typeVariable collection "E"
  editElement collection (.interface (← declaredType none iterable [collectionE]))
  let _ ← declareMethod collection "add" boolean [("e", collectionE)]
  let _ ← declareMethod collection "size" int []
  let list ← declareInterface util "List" ["E"]
  let listE ← typeVariable list "E"
  editElement list (.interface (← declaredType none collection [listE]))
  let _ ← declareMethod list "get" listE [("index", int)]
  let _ ← declareMethod list "add" boolean [("e", listE)]
  let arrayList ← declareClass util "ArrayList" ["E"]
  let arrayListE ← typeVariable arrayList "E"
  editElement arrayList (.superclass objectType)
  editElement arrayList (.interface (← declaredType none list [arrayListE]))
  addInterfaces arrayList [cloneable, serializable]
  let map ← declareInterface util "Map" ["K", "V"]
  let mapK ← typeVariable map "K"
  let mapV ← typeVariable map "V"
  let _ ← declareMethod map "get" mapV [("key", objectType)]
  let _ ← declareMethod map "put" mapV [("key", mapK), ("value", mapV)]
  let number ← declareClass lang "Number" []
  editElement number (.modifier .abstract)
  editElement number (.superclass objectType)
  editElement number (.interface laterSerializable)
  let numberType ← typeOf number
  let _ ← declareMethod number "intValue" int []
  let string ← declareFinalClass lang "String" objectType
  let stringType ← typeOf string
  implementComparable comparable string
  addInterfaces string [serializable, charSequenceType, constable, constantDesc]
  let _ ← declareMethod string "length" int []
  let _ ← declareMethod charSequence "length" int []
  let _ ← declareMethod object "toString" stringType []
  let _ ← declareMethod object "equals" boolean [("obj", objectType)]
  declareNumberBoxes lang comparable numberType [constable, constantDesc]
    ["Integer", "Long", "Float", "Double"]
  declareNumberBoxes lang comparable numberType [constable] ["Byte", "Short"]
  declarePlainBoxes lang comparable objectType serializable constable ["Character", "Boolean"]
  let _ ← declareFinalClass lang "Void" objectType
  let enum ← declareClass lang "Enum" ["E"]
  let enumE ← typeVariable enum "E"
  setBounds enumE [← declaredType none enum [enumE]]
  editElement enum (.modifier .abstract)
  editElement enum (.superclass objectType)
  editElement enum (.interface (← declaredType none comparable [enumE]))
  addInterfaces enum [serializable, constable]
  let _ ← declareMethod enum "name" stringType []
  let _ ← declareMethod enum "ordinal" int []
  let record ← declareClass lang "Record" []
  editElement record (.modifier .abstract)
  editElement record (.superclass objectType)

end Platform

/-- The store that holds the declarations of the platform. -/
def Store.platform : Store :=
  (Platform.declare Store.empty).2

end JavaTypes
