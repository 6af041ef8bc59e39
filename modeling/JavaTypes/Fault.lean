import JavaTypes.TypeKind
import JavaTypes.ElementKind
import JavaTypes.Handle

/-!
# Faults

The ways in which an operation on a store, or a question about it, can fail. `Fault.message` is
the only place where their wording stands.

`Fault.exhausted` is apart from the others: it says nothing about the store, only that a recursive
question was given too little fuel to be answered.
-/

namespace JavaTypes

/-- What is wrong with a method offered as the accessor of a record component. -/
inductive AccessorFlaw
  | notMethod
  | notPublic
  | isStatic
  | takesParameters
  | otherName
  | otherType
  | otherRecord
  deriving DecidableEq, Repr

def AccessorFlaw.message : AccessorFlaw → String
  | notMethod => "accessor must be a method"
  | notPublic => "accessor must be public"
  | isStatic => "accessor must not be static"
  | takesParameters => "accessor must not take parameters"
  | otherName => "accessor name must match the component name"
  | otherType => "accessor return type must match the component type"
  | otherRecord => "accessor must be declared by the component's record"

/-- The reason why an operation failed. -/
inductive Fault
  /-- A field that can be set only once has another value. -/
  | alreadySet (field : String)
  /-- Types of this kind, or this very type, cannot be changed. -/
  | frozen (kind : TypeKind)
  /-- A type was to become a part of itself. -/
  | selfReference (field : String)
  | typeKind (operation : String) (kind : TypeKind)
  | elementKind (operation : String) (kind : ElementKind)
  /-- An element of the first kind cannot contain one of the second. -/
  | enclosure (outer inner : ElementKind)
  /-- The method cannot be the accessor of the record component. -/
  | accessor (flaw : AccessorFlaw)
  | erasedArguments
  /-- The relation has no meaning for types of this kind. -/
  | undefinedRelation (relation : String) (kind : TypeKind)
  /-- A type variable was matched with two types that do not agree. -/
  | conflictingAdaptation (typeVar : TypeId)
  /-- To complete a slot, the slot itself was needed. -/
  | cyclicCompletion
  | unknownType (t : TypeId)
  | unknownElement (e : ElementId)
  | missingElement (name : String)
  /-- The fuel given to a question did not last. -/
  | exhausted
  deriving DecidableEq, Repr

def Fault.message : Fault → String
  | alreadySet field => "write-once field `" ++ field ++ "` is already set to a different value"
  | frozen kind => kind.name ++ " nodes are immutable"
  | selfReference field => "a node cannot be its own `" ++ field ++ "`"
  | typeKind operation kind =>
      "`" ++ operation ++ "` does not accept a " ++ kind.name ++ " type"
  | elementKind operation kind =>
      "`" ++ operation ++ "` does not accept a " ++ kind.name ++ " element"
  | enclosure outer inner =>
      "a " ++ outer.name ++ " element cannot enclose a " ++ inner.name ++ " element"
  | accessor flaw => "invalid record component accessor: " ++ flaw.message
  | erasedArguments => "type arguments cannot be added to an erased declared type"
  | undefinedRelation relation kind =>
      "`" ++ relation ++ "` is not defined for " ++ kind.name ++ " types"
  | conflictingAdaptation v => "type variable " ++ v.text ++ " adapts to conflicting types"
  | cyclicCompletion => "deferred node re-entered its own completion"
  | unknownType t => "unknown type handle " ++ t.text
  | unknownElement e => "unknown element handle " ++ e.text
  | missingElement name => "required element `" ++ name ++ "` could not be resolved"
  | exhausted => "the question needs more fuel"

end JavaTypes
