import JavaTypes.TypeEdit

/-!
# Completion of deferred slots

To *complete* a handle is to follow deferred slots until a node is reached, starting the suppliers
of the slots on the way that are still pending.

* `viewType`, `viewElement`: complete a handle, and answer with the handle of the node and the node;
* `resolveType`, `typeNode` and their twins for elements: either half of that answer.

A supplier may itself complete other handles, so completions nest. Two bounds, both taken from
the store, keep the definitions total, and neither is ever met by a completion that could go on. A
walk that is longer than the array of slots has come back to a slot, and would never end. And each
nested completion starts a supplier of its own, so there are never more of them inside one another
than there are slots.
-/

namespace JavaTypes

/-- One of the two arrays of slots of a store. -/
structure Shelf (ν κ : Type) where
  slots : Store → Array (Slot ν κ)
  /-- The store after a change of the slots. -/
  modify : (Array (Slot ν κ) → Array (Slot ν κ)) → Store → Store
  /-- The position of the slot that a handle denotes. -/
  index : κ → Nat
  /-- What is wrong with a handle that denotes no slot. -/
  unknown : κ → Fault
  /-- The handle, without regard to its sort. -/
  ref : κ → SlotRef

namespace Shelf

def types : Shelf TypeNode TypeId where
  slots s := s.types
  modify f s := { s with types := f s.types }
  index := TypeId.index
  unknown := Fault.unknownType
  ref := SlotRef.type

def elements : Shelf ElementNode ElementId where
  slots s := s.elements
  modify f s := { s with elements := f s.elements }
  index := ElementId.index
  unknown := Fault.unknownElement
  ref := SlotRef.element

variable {ν κ : Type}

def setSlot (shelf : Shelf ν κ) (k : κ) (slot : Slot ν κ) (s : Store) : Store :=
  shelf.modify (fun slots => slots.setIfInBounds (shelf.index k) slot) s

/-- Mark the slot of a handle as running, and record that its supplier was started. -/
def start (shelf : Shelf ν κ) (k : κ) (s : Store) : Store :=
  let s' := shelf.setSlot k .running s
  { s' with started := shelf.ref k :: s'.started }

/-- Run the supplier of a pending slot, and keep its outcome in the slot. -/
def complete (shelf : Shelf ν κ) (run : Supplier κ → Build κ) (k : κ) (supplier : Supplier κ) :
    Build κ :=
  fun s =>
    match run supplier (shelf.start k s) with
    | (.ok target, s') => (.ok target, shelf.setSlot k (.done target) s')
    | (.error f, s') => (.error f, shelf.setSlot k (.failed f) s')

/-- Follow deferred slots from a handle to a node, in at most the given number of steps. -/
def follow (shelf : Shelf ν κ) (run : Supplier κ → Build κ) : Nat → κ → Build (κ × ν)
  | 0, _ => throw .cyclicCompletion
  | n + 1, k => fun s =>
      match (shelf.slots s)[shelf.index k]? with
      | none => (.error (shelf.unknown k), s)
      | some (.node v) => (.ok (k, v), s)
      | some (.done k') => shelf.follow run n k' s
      | some (.failed f) => (.error f, s)
      | some .running => (.error .cyclicCompletion, s)
      | some (.pending supplier) =>
          (shelf.complete run k supplier >>= shelf.follow run n) s

end Shelf

/-- Run a supplier, given how it can complete types and elements. -/
def Supplier.run {κ : Type} (viewType : TypeId → Build (TypeId × TypeNode))
    (viewElement : ElementId → Build (ElementId × ElementNode)) : Supplier κ → Build κ
  | give k => return k
  | fail f => throw f
  | typeLabel label next => do
      let s ← get
      (next (s.labels.type? label)).run viewType viewElement
  | elementLabel label next => do
      let s ← get
      (next (s.labels.element? label)).run viewType viewElement
  | registered name next => do
      let s ← get
      (next (s.registry.find? none name)).run viewType viewElement
  | resolveType t next => do
      let found ← (viewType t).outcome
      (next (found.map Prod.fst)).run viewType viewElement
  | resolveElement e next => do
      let found ← (viewElement e).outcome
      (next (found.map Prod.fst)).run viewType viewElement
  | newType shape next => do
      let made ← (makeShape shape).outcome
      (next made).run viewType viewElement
  | newElement kind next => do
      let made ← makeElement { detail := .blank kind }
      (next made).run viewType viewElement

mutual

/-- Complete a type, with at most the given number of completions inside one another. -/
def viewTypeWithin : Nat → TypeId → Build (TypeId × TypeNode)
  | 0, _ => throw .cyclicCompletion
  | n + 1, t => fun s =>
      Shelf.types.follow (Supplier.run (viewTypeWithin n) (viewElementWithin n))
        (s.types.size + 1) t s

def viewElementWithin : Nat → ElementId → Build (ElementId × ElementNode)
  | 0, _ => throw .cyclicCompletion
  | n + 1, e => fun s =>
      Shelf.elements.follow (Supplier.run (viewTypeWithin n) (viewElementWithin n))
        (s.elements.size + 1) e s

end

/-- More completions than can be inside one another. -/
def Store.completionDepth (s : Store) : Nat :=
  s.types.size + s.elements.size + 1

def viewType (t : TypeId) : Build (TypeId × TypeNode) :=
  fun s => viewTypeWithin s.completionDepth t s

def viewElement (e : ElementId) : Build (ElementId × ElementNode) :=
  fun s => viewElementWithin s.completionDepth e s

def resolveType (t : TypeId) : Build TypeId := do
  return (← viewType t).1

def typeNode (t : TypeId) : Build TypeNode := do
  return (← viewType t).2

def resolveElement (e : ElementId) : Build ElementId := do
  return (← viewElement e).1

def elementNode (e : ElementId) : Build ElementNode := do
  return (← viewElement e).2

def typeKind (t : TypeId) : Build TypeKind := do
  return (← typeNode t).kind

def elementKind (e : ElementId) : Build ElementKind := do
  return (← elementNode e).kind

/-! ### A node completes to itself -/

theorem viewType_node {s : Store} {t : TypeId} {n : TypeNode}
    (h : s.types[t.index]? = some (.node n)) : viewType t s = (.ok (t, n), s) := by
  simp [viewType, Store.completionDepth, viewTypeWithin, Shelf.follow, Shelf.types, h]

theorem viewElement_node {s : Store} {e : ElementId} {n : ElementNode}
    (h : s.elements[e.index]? = some (.node n)) : viewElement e s = (.ok (e, n), s) := by
  simp [viewElement, Store.completionDepth, viewElementWithin, Shelf.follow, Shelf.elements, h]

end JavaTypes
