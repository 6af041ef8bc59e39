import JavaTypes.Action
import JavaTypes.ElementNode
import JavaTypes.Names
import JavaTypes.Slot

/-!
# The store

A `Store` holds the types and elements of a program, in two growing arrays of slots, together with
the names under which they can be found. Its first fourteen types are shared by everyone: the
primitive types, the no-types, the null type and the empty union. They never change.

* `Store.empty`: the store with those fourteen types only;
* `Store.peekType`, `Store.peekElement`: what a handle denotes, as far as that is known already;
* `Build`: actions on a store, with `makeType`, `makeElement`, `deferType` and `deferElement`, which
  add a slot and answer with its handle.
-/

namespace JavaTypes

/-- The types and elements of a program, and their names. -/
structure Store where
  types : Array (Slot TypeNode TypeId)
  elements : Array (Slot ElementNode ElementId)
  registry : Registry
  labels : Labels
  /-- The deferred slots whose supplier has been started, the latest first. -/
  started : List SlotRef

abbrev Build (α : Type) : Type :=
  Action Store α

/-! ### The shared types -/

def TypeId.primitive (p : Primitive) : TypeId :=
  ⟨p.index⟩

def TypeId.noType (n : NoType) : TypeId :=
  ⟨8 + n.index⟩

def TypeId.none : TypeId :=
  .noType .none

def TypeId.void : TypeId :=
  .noType .void

def TypeId.null : TypeId :=
  ⟨12⟩

def TypeId.emptyUnion : TypeId :=
  ⟨13⟩

namespace Store

/-- The shapes of the shared types, in the order of their handles. -/
def sharedShapes : List TypeShape :=
  Primitive.all.map .primitive ++ NoType.all.map .noType ++ [.null, .union []]

/-- The store that holds the shared types only. -/
def empty : Store where
  types := (sharedShapes.map fun shape => Slot.node { shape := shape }).toArray
  elements := #[]
  registry := {}
  labels := {}
  started := []

/-! ### What is known already -/

/-- The node that a type's handle stands for, with its own handle, if it is known without starting
a supplier. A walk that is longer than the array of slots has come back to a slot. -/
def peekType (s : Store) (t : TypeId) : Option (TypeId × TypeNode) :=
  Slot.peek s.types TypeId.index (s.types.size + 1) t

def peekElement (s : Store) (e : ElementId) : Option (ElementId × ElementNode) :=
  Slot.peek s.elements ElementId.index (s.elements.size + 1) e

/-- The kind of a type, if it is known without starting a supplier. -/
def peekTypeKind (s : Store) (t : TypeId) : Option TypeKind :=
  (s.peekType t).map fun found => found.2.kind

def peekElementKind (s : Store) (e : ElementId) : Option ElementKind :=
  (s.peekElement e).map fun found => found.2.kind

/-! ### Changing a node -/

def setTypeNode (s : Store) (t : TypeId) (n : TypeNode) : Store :=
  { s with types := s.types.setIfInBounds t.index (.node n) }

def setElementNode (s : Store) (e : ElementId) (n : ElementNode) : Store :=
  { s with elements := s.elements.setIfInBounds e.index (.node n) }

@[simp] theorem size_types_setTypeNode (s : Store) (t : TypeId) (n : TypeNode) :
    (s.setTypeNode t n).types.size = s.types.size := by
  simp [setTypeNode]

@[simp] theorem size_elements_setElementNode (s : Store) (e : ElementId) (n : ElementNode) :
    (s.setElementNode e n).elements.size = s.elements.size := by
  simp [setElementNode]

end Store

/-! ### New slots -/

def makeType (n : TypeNode) : Build TypeId :=
  fun s => (.ok ⟨s.types.size⟩, { s with types := s.types.push (.node n) })

def makeElement (n : ElementNode) : Build ElementId :=
  fun s => (.ok ⟨s.elements.size⟩, { s with elements := s.elements.push (.node n) })

/-- Add a deferred slot for a type and answer with its handle. -/
def deferType (supplier : Supplier TypeId) : Build TypeId :=
  fun s => (.ok ⟨s.types.size⟩, { s with types := s.types.push (.pending supplier) })

def deferElement (supplier : Supplier ElementId) : Build ElementId :=
  fun s => (.ok ⟨s.elements.size⟩, { s with elements := s.elements.push (.pending supplier) })

end JavaTypes
