/-!
# Handles

Types and elements refer to each other through *handles*: positions in the two arrays of slots
that a store holds. A handle can be written down before the thing it denotes is known.
-/

namespace JavaTypes

/-- The handle of a type. -/
structure TypeId where
  index : Nat
  deriving DecidableEq, Repr, Inhabited

/-- The handle of an element. -/
structure ElementId where
  index : Nat
  deriving DecidableEq, Repr, Inhabited

def TypeId.text (t : TypeId) : String :=
  "TypeId(" ++ toString t.index ++ ")"

def ElementId.text (e : ElementId) : String :=
  "ElementId(" ++ toString e.index ++ ")"

inductive SlotRef
  | type (t : TypeId)
  | element (e : ElementId)
  deriving DecidableEq, Repr

end JavaTypes
