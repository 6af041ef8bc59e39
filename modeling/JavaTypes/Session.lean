import JavaTypes.Config
import JavaTypes.Declaration
import JavaTypes.Fingerprint

/-!
# Sessions

The relations between types are asked in a `Session`: a store, the settings, the answers that a
host gives in place of the computed ones (`Hooks`), and what the session remembers (`Memo`).

* `Query`: a question to a session. It may complete deferred slots, make types, and extend what
  the session remembers. Every action on the store is a question too.
* `derive`: the type of a shape that a relation needs. The session makes it once, and gives the
  same handle whenever the same shape is needed again.
* `wellKnown`: the three declarations that the rules of the language name.

A question that follows the graph of types takes `fuel`, the greatest number of calls inside one
another. `Query.bounded` gives it the limit of the session.
-/

namespace JavaTypes

/-- Answers of a host. Where a hook has no answer the session finds one itself. -/
structure Hooks where
  /-- Names under which the host finds nothing, although they are registered. -/
  hidden : List String := []
  sameType : TypeId → TypeId → Option Bool := fun _ _ => none
  isSubtype : TypeId → TypeId → Option Bool := fun _ _ => none
  isAssignable : TypeId → TypeId → Option Bool := fun _ _ => none
  contains : TypeId → TypeId → Option Bool := fun _ _ => none
  erasure : TypeId → Option TypeId := fun _ => none
  directSupertypes : TypeId → Option (List TypeId) := fun _ => none

/-- A type and its closure. -/
structure ClosureEntry where
  type : TypeId
  closure : List TypeId

/-- What a session remembers. -/
structure Memo where
  /-- The closures found so far, by the fingerprint of the type, and for each fingerprint in the
  order in which they were found. -/
  closures : List (Fingerprint × List ClosureEntry) := []
  ranks : List (ElementId × Nat) := []
  /-- The types made for the relations, by shape. -/
  derived : List (TypeShape × TypeId) := []
  /-- How many variables have been made by capturing wildcards. -/
  captures : Nat := 0

/-- A store together with what is needed to answer questions about its types. -/
structure Session where
  store : Store
  config : Config := {}
  hooks : Hooks := {}
  memo : Memo := {}

abbrev Query (α : Type) : Type :=
  Action Session α

/-- Run an action on the store of a session. -/
@[inline]
def onStore {α : Type} (x : Build α) : Query α :=
  fun s =>
    match s with
    | { store, config, hooks, memo } =>
        match x store with
        | (r, store') => (r, { store := store', config, hooks, memo })

instance : MonadLift (Action Store) (Action Session) where
  monadLift := onStore

theorem onStore_apply {α : Type} (x : Build α) (s : Session) :
    onStore x s = ((x s.store).1, { s with store := (x s.store).2 }) := rfl

/-! ### Limits -/

/-- The fuel that a session gives to a question: more than the fourth power of the number of
slots. A comparison that meets no pair twice stays below it. -/
def Session.fuel (s : Session) : Nat :=
  Nat.pow (s.store.types.size + s.store.elements.size + 2) 4

/-- Ask a question with the fuel of the session. -/
def Query.bounded {α : Type} (question : Nat → Query α) : Query α :=
  fun s => question s.fuel s

/-! ### The session's own data -/

def config : Query Config := do
  return (← get).config

def hooks : Query Hooks := do
  return (← get).hooks

def Config.equality (c : Config) : Equality :=
  ⟨c.includeAnnotations⟩

def equality : Query Equality := do
  return (← config).equality

def modifyMemo (f : Memo → Memo) : Query Unit :=
  modify fun s => { s with memo := f s.memo }

/-! ### Names -/

/-- The type element with a qualified name, over all modules or inside one, as the host sees it. -/
def typeElementIn (module? : Option String) (name : String) : Query (Option ElementId) := do
  let s ← get
  if s.hooks.hidden.contains name then
    return none
  else
    return s.store.registry.find? module? name

def typeElement (name : String) : Query (Option ElementId) :=
  typeElementIn none name

/-- A declaration that must be there: the element, and its type. -/
def requireTypeElement (name : String) : Query (ElementId × TypeId) := do
  match ← typeElement name with
  | none => throw (.missingElement name)
  | some e =>
      let (e', n) ← viewElement e
      match n.type with
      | some t => return (e', t)
      | none => throw (.missingElement name)

/-- The declarations that the rules of the language name. -/
structure WellKnown where
  object : ElementId
  objectType : TypeId
  cloneable : ElementId
  cloneableType : TypeId
  serializable : ElementId
  serializableType : TypeId

/-- Find the declarations that the rules of the language name. All three must be there. -/
def wellKnown : Query WellKnown := do
  let (object, objectType) ← requireTypeElement "java.lang.Object"
  let (cloneable, cloneableType) ← requireTypeElement "java.lang.Cloneable"
  let (serializable, serializableType) ← requireTypeElement "java.io.Serializable"
  return { object, objectType, cloneable, cloneableType, serializable, serializableType }

def objectType : Query TypeId := do
  return (← wellKnown).objectType

def objectElement : Query ElementId := do
  return (← wellKnown).object

/-! ### Derived types -/

/-- The type of a shape that a relation needs: the one made before, or a new one. -/
def derive (shape : TypeShape) : Query TypeId := do
  match (← get).memo.derived.lookup shape with
  | some t => return t
  | none =>
      let t ← makeShape shape
      modifyMemo fun m => { m with derived := (shape, t) :: m.derived }
      return t

def deriveDeclared (element : ElementId) (enclosing : Option TypeId) (arguments : List TypeId)
    (erased : Bool) : Query TypeId :=
  derive (.declared
    { element := element, enclosing := enclosing, arguments := arguments,
      erased := if erased then some true else none })

def deriveArray (component : TypeId) : Query TypeId :=
  derive (.array (some component))

end JavaTypes
