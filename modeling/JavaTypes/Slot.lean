import JavaTypes.Fault
import JavaTypes.TypeNode

/-!
# Slots and suppliers

A handle denotes a *slot*. A slot holds a node, or it is *deferred*: it will stand for another
handle, which a *supplier* finds when the slot is first needed. A supplier runs once. While it runs
the slot is `running`; afterwards the slot keeps what the supplier found, or the fault it ended
with.

A supplier is a tree of requests. Each request carries what to do with the answer, so a supplier
can look a name up, complete other slots, make types and elements, and go on as the answers tell it
to.
-/

namespace JavaTypes

/-- How the handle that a deferred slot stands for is found. A supplier allocates nodes and completes
handles, and never edits a node that exists: what is proved of runs and of questions rests on that. -/
inductive Supplier (κ : Type)
  | give (target : κ)
  | fail (fault : Fault)
  /-- Ask for the type that a label denotes now. -/
  | typeLabel (label : String) (next : Option TypeId → Supplier κ)
  /-- Ask for the element that a label denotes now. -/
  | elementLabel (label : String) (next : Option ElementId → Supplier κ)
  /-- Ask for the type element that is registered under a qualified name now. -/
  | registered (name : String) (next : Option ElementId → Supplier κ)
  | resolveType (t : TypeId) (next : Except Fault TypeId → Supplier κ)
  | resolveElement (e : ElementId) (next : Except Fault ElementId → Supplier κ)
  | newType (shape : TypeShape) (next : Except Fault TypeId → Supplier κ)
  | newElement (kind : ElementKind) (next : ElementId → Supplier κ)

namespace Supplier

variable {κ : Type}

/-- Hand on what was found, or the fault. -/
def ofExcept : Except Fault κ → Supplier κ
  | .ok k => give k
  | .error f => fail f

/-- The type that a label denotes when the supplier runs, treated further. -/
def labelledType (label : String) (next : TypeId → Supplier κ) : Supplier κ :=
  typeLabel label fun
    | some t => next t
    | none => fail (.missingElement label)

def labelledElement (label : String) (next : ElementId → Supplier κ) : Supplier κ :=
  elementLabel label fun
    | some e => next e
    | none => fail (.missingElement label)

/-- The type element that is registered under a name when the supplier runs, treated further. -/
def registeredElement (name : String) (next : ElementId → Supplier κ) : Supplier κ :=
  registered name fun
    | some e => next e
    | none => fail (.missingElement name)

def newArray (component : TypeId) (next : Except Fault TypeId → Supplier κ) : Supplier κ :=
  newType (.array (some component)) next

def newDeclared (element : ElementId) (arguments : List TypeId)
    (next : Except Fault TypeId → Supplier κ) : Supplier κ :=
  newType (.declared { element := element, arguments := arguments }) next

end Supplier

/-- What a handle denotes. -/
inductive Slot (ν κ : Type)
  | node (value : ν)
  /-- A deferred slot that has not been needed yet. -/
  | pending (supplier : Supplier κ)
  /-- A deferred slot whose supplier has started and not ended. -/
  | running
  /-- A deferred slot that stands for another handle. -/
  | done (target : κ)
  | failed (fault : Fault)

namespace Slot

variable {ν κ : Type}

/-- Follow completed slots from a handle to a node, in at most the given number of steps, without
starting any supplier. -/
def peek (slots : Array (Slot ν κ)) (index : κ → Nat) : Nat → κ → Option (κ × ν)
  | 0, _ => none
  | n + 1, k =>
      match slots[index k]? with
      | some (.node v) => some (k, v)
      | some (.done k') => peek slots index n k'
      | _ => none

theorem peek_node {slots : Array (Slot ν κ)} {index : κ → Nat} {k : κ} {v : ν}
    (h : slots[index k]? = some (.node v)) (n : Nat) :
    peek slots index (n + 1) k = some (k, v) := by
  simp [peek, h]

theorem peek_done {slots : Array (Slot ν κ)} {index : κ → Nat} {k k' : κ}
    (h : slots[index k]? = some (.done k')) (n : Nat) :
    peek slots index (n + 1) k = peek slots index n k' := by
  simp [peek, h]

end Slot

end JavaTypes
