import JavaTypes.Handle

/-!
# Names

Two ways of finding a handle by a name.

* `Registry`: type elements by qualified name, over all modules and inside one module. The first
  element registered under a name keeps it.
* `Labels`: names that a client chooses for handles. A label can be given again, and then denotes
  the latest handle.
-/

namespace JavaTypes

/-- The type elements that can be found by qualified name. -/
structure Registry where
  byName : List (String × ElementId) := []
  byModule : List ((String × String) × ElementId) := []

namespace Registry

/-- Add an entry at the end, unless the key has one. -/
def insertNew {κ : Type} [BEq κ] (key : κ) (e : ElementId) (entries : List (κ × ElementId)) :
    List (κ × ElementId) :=
  match entries.lookup key with
  | some _ => entries
  | none => entries ++ [(key, e)]

/-- The element registered under a name, over all modules or inside one. -/
def find? (r : Registry) (module? : Option String) (name : String) : Option ElementId :=
  match module? with
  | some m => r.byModule.lookup (m, name)
  | none => r.byName.lookup name

/-- Register an element under its name, and under its name in its module if it is in one. -/
def register (r : Registry) (module? : Option String) (name : String) (e : ElementId) :
    Registry where
  byName := insertNew name e r.byName
  byModule :=
    match module? with
    | some m => insertNew (m, name) e r.byModule
    | none => r.byModule

def size (r : Registry) : Nat :=
  r.byName.length

end Registry

/-- The labels of types and of elements, the latest first. -/
structure Labels where
  types : List (String × TypeId) := []
  elements : List (String × ElementId) := []

namespace Labels

def type? (l : Labels) (label : String) : Option TypeId :=
  l.types.lookup label

def element? (l : Labels) (label : String) : Option ElementId :=
  l.elements.lookup label

def bindType (l : Labels) (label : String) (t : TypeId) : Labels :=
  { l with types := (label, t) :: l.types }

def bindElement (l : Labels) (label : String) (e : ElementId) : Labels :=
  { l with elements := (label, e) :: l.elements }

end Labels

end JavaTypes
