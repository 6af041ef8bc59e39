import JavaTypes.Proofs.Outline
import JavaTypes.Relation.Bounds

/-!
# Questions to a session

A question of the language's relations completes handles and derives types, and does nothing else: the
settings and the hooks stay, and what was derived for a shape is given again.

* `Session.Grows`: what is known in a session is known in the other;
* `Step` of a session: a handle is completed, or a type is derived;
* `settles_onStore`: what settles in the store settles in the session;
* `settles_derive`, `settles_wellKnown`: the same for derived types and for the declarations that the
  language names;
* `Session.ofSlots`, `Session.ofNodes`: sessions for examples.

What a session remembers of closures and ranks is no part of this order, and no step changes it.
-/

namespace JavaTypes

open Action

variable {k : TypeId} {s : Session} {shape : TypeShape} {store : Store} {α : Type} {x y : Build α}

/-- A session that knows more than another. -/
structure Session.Grows (s t : Session) : Prop where
  store : s.store ≤ t.store
  config : t.config = s.config
  hooks : t.hooks = s.hooks
  derived : ∀ {shape : TypeShape} {k : TypeId}, s.memo.derived.lookup shape = some k →
    t.memo.derived.lookup shape = some k

instance : LE Session where
  le := Session.Grows

instance : Preorder Session where
  le_refl s :=
    { store := le_refl s.store
      config := rfl
      hooks := rfl
      derived := id }
  le_trans s t u h₁ h₂ :=
    { store := le_trans h₁.store h₂.store
      config := h₂.config.trans h₁.config
      hooks := h₂.hooks.trans h₁.hooks
      derived := fun h => h₂.derived (h₁.derived h) }

theorem Session.grows_store (h : s.store ≤ store) : s ≤ { s with store := store } where
  store := h
  config := rfl
  hooks := rfl
  derived := id

/-! ### Derived types -/

/-- Remembering the type of one more shape forgets none. -/
theorem lookup_cons_of_lookup {derived : List (TypeShape × TypeId)} {shape' : TypeShape}
    {k' : TypeId} (hnew : derived.lookup shape' = none) (h : derived.lookup shape = some k) :
    ((shape', k') :: derived).lookup shape = some k := by
  have hne : shape ≠ shape' := by
    rintro rfl
    rw [hnew] at h
    cases h
  rw [List.lookup_cons, beq_false_of_ne hne]
  exact h

theorem derive_of_lookup (h : s.memo.derived.lookup shape = some k) : derive shape s = (.ok k, s) := by
  have hget : (get : Query Session) s = (.ok s, s) := rfl
  rw [derive, bind_of_ok hget, h]
  rfl

/-- A shape that is new to the session is made and remembered. -/
theorem derive_of_lookup_none (h : s.memo.derived.lookup shape = none) : derive shape s =
      match makeShape shape s.store with
      | (.ok k, store) => (.ok k, { s with
          store := store, memo := { s.memo with derived := (shape, k) :: s.memo.derived } })
      | (.error f, store) => (.error f, { s with store := store }) := by
  have hget : (get : Query Session) s = (.ok s, s) := rfl
  rw [derive, bind_of_ok hget, h]
  show (onStore (makeShape shape) >>= _) s = _
  rw [bind_apply, onStore_apply]
  cases makeShape shape s.store with
  | mk r store => cases r <;> rfl

theorem grows_derive (shape : TypeShape) (s : Session) : s ≤ (derive shape s).2 := by
  cases hlook : s.memo.derived.lookup shape with
  | some k =>
    rw [derive_of_lookup hlook]
  | none =>
    have hstore := (completion_makeShape shape s.store).le
    rw [derive_of_lookup_none hlook]
    cases hmade : makeShape shape s.store with
    | mk r store =>
      rw [hmade] at hstore
      cases r with
      | ok k =>
        exact
          { store := hstore
            config := rfl
            hooks := rfl
            derived := lookup_cons_of_lookup hlook }
      | error f => exact Session.grows_store hstore

theorem lookup_of_derive {s' : Session}
    (h : derive shape s = (.ok k, s')) : s'.memo.derived.lookup shape = some k := by
  cases hlook : s.memo.derived.lookup shape with
  | some k' =>
    rw [derive_of_lookup hlook] at h
    cases h
    exact hlook
  | none =>
    rw [derive_of_lookup_none hlook] at h
    cases hmade : makeShape shape s.store with
    | mk r store =>
      rw [hmade] at h
      cases r with
      | ok k' =>
        cases h
        exact List.lookup_cons_self
      | error f => cases h

/-! ### Steps of a session -/

/-- Questions to a session complete handles and derive types. -/
instance : Evolving Session where
  Step s t := (∃ store, Evolving.Step s.store store ∧ t = { s with store := store }) ∨
    ∃ shape, t = (derive shape s).2
  le_of_step := by
    rintro s t (⟨store, hstep, rfl⟩ | ⟨shape, rfl⟩)
    · exact Session.grows_store (Evolving.le_of_step hstep)
    · exact grows_derive shape s

theorem Leads.onStore {store' : Store} (h : Leads store store') (s : Session) :
    Leads { s with store := store } { s with store := store' } := by
  induction h with
  | refl => exact .refl _
  | tail _ hstep ih => exact ih.trans (.single (.inl ⟨_, hstep, rfl⟩))

/-- What settles in the store settles in the session. -/
instance settles_onStore [h : Settles x y] : Settles (onStore x) (onStore y) where
  leads s := Leads.onStore (h.leads s.store) s
  stays := by
    intro s s' t a hx ht
    rw [onStore_apply] at hx ⊢
    obtain ⟨hr, rfl⟩ := Prod.mk.inj hx
    rw [h.stays (Prod.ext hr rfl) ht.store]
  repeats := by
    intro s a s' hx
    rw [onStore_apply] at hx ⊢
    obtain ⟨hr, rfl⟩ := Prod.mk.inj hx
    rw [h.repeats s.store a (x s.store).2 (Prod.ext hr rfl)]

-- Lifts that are inserted by `do` blocks are written `liftM`.
instance settles_liftM [Settles x y] : Settles (liftM x : Query α) (liftM y) :=
  settles_onStore

instance settles_onStore_liftM [Settles x y] : Settles (onStore x) (liftM y : Query α) :=
  settles_onStore

theorem known_onStore {a : α} : Known (onStore x) s a ↔ Known x s.store a := by
  unfold Known
  rw [onStore_apply]
  constructor
  · intro h
    obtain ⟨hr, hs⟩ := Prod.mk.inj h
    exact Prod.ext hr (congrArg Session.store hs)
  · intro h
    rw [h]

/-- In the session the handle `t` leads to the node `n`, which is at `u`. -/
abbrev Session.Shows (S : Session) (t u : TypeId) (n : TypeNode) : Prop :=
  S.store.peekType t = some (u, n)

section Shows

variable {S T : Session} {t u : TypeId} {n : TypeNode}

theorem Session.Shows.mono (h : S.Shows t u n) (hle : S ≤ T) : T.Shows t u n :=
  peekType_mono hle.store h

theorem Session.Shows.self (h : S.Shows t u n) : S.Shows u u n :=
  Store.peekType_self h

theorem Session.Shows.known (h : S.Shows t u n) : Known (onStore (viewType t)) S (u, n) :=
  known_onStore.2 (known_viewType.2 h)

theorem shows_of_known (h : Known (onStore (viewType t)) S (u, n)) : S.Shows t u n :=
  known_viewType.1 (known_onStore.1 h)

end Shows

instance settles_derive (shape : TypeShape) : Settles (derive shape) (derive shape) where
  leads _ := .single (.inr ⟨shape, rfl⟩)
  stays h ht := derive_of_lookup (ht.derived (lookup_of_derive h))
  repeats := .refl _

instance settles_deriveDeclared (e : ElementId) (enclosing : Option TypeId)
    (arguments : List TypeId) (erased : Bool) :
    Settles (deriveDeclared e enclosing arguments erased)
      (deriveDeclared e enclosing arguments erased) :=
  settles_derive _

instance settles_deriveArray (t : TypeId) : Settles (deriveArray t) (deriveArray t) :=
  settles_derive _

/-! ### The session's own data -/

/-- What depends only on data that stays can be read at any time. -/
theorem settles_read {f : Session → α} (hf : ∀ {s t}, s ≤ t → f t = f s) :
    Settles (do return f (← get) : Query α) (do return f (← get)) where
  leads s := .refl s
  stays := by
    intro s s' t a h ht
    cases h
    exact congrArg (fun a => (Except.ok a, t)) (hf ht)
  repeats := .refl _

instance settles_config : Settles config config :=
  settles_read Session.Grows.config

instance settles_hooks : Settles hooks hooks :=
  settles_read Session.Grows.hooks

instance settles_equality : Settles equality equality :=
  settles_bind

theorem known_config {c : Config} : Known config s c ↔ c = s.config := by
  constructor
  · intro h
    cases h
    rfl
  · rintro rfl
    rfl

instance settles_typeElement (name : String) : Settles (typeElement name) (typeElement name) := by
  have h := settles_read (f := fun s : Session => if s.hooks.hidden.contains name then none
    else s.store.registry.find? none name) fun {s t} h => by rw [h.hooks, h.store.registry]
  have heq : typeElement name = (do return (fun s : Session => if s.hooks.hidden.contains name then
      none else s.store.registry.find? none name) (← get)) := by
    funext s
    show (if s.hooks.hidden.contains name then pure none
      else pure (s.store.registry.find? none name) : Query _) s = (.ok (if _ then _ else _), s)
    split <;> rfl
  rw [heq]
  exact h

instance settles_requireTypeElement (name : String) :
    Settles (requireTypeElement name) (requireTypeElement name) := by
  refine settles_bind_of fun found => ?_
  cases found with
  | none => exact settles_throw _ _
  | some e =>
    refine settles_bind_of fun x => ?_
    obtain ⟨e', n⟩ := x
    dsimp only
    cases n.type <;> infer_instance

instance settles_wellKnown : Settles wellKnown wellKnown := by
  unfold wellKnown
  infer_instance

instance settles_objectType : Settles objectType objectType :=
  settles_bind

instance settles_objectElement : Settles objectElement objectElement :=
  settles_bind

/-! ### Sessions of given slots -/

/-- The type of a class at a handle, with arguments at handles. -/
def TypeNode.ofClass (e : Nat) (arguments : List Nat) : TypeNode :=
  { shape := .declared { element := some ⟨e⟩, arguments := arguments.map TypeId.mk } }

/-- The type of a class inside another type. -/
def TypeNode.ofInner (e outer : Nat) (arguments : List Nat) : TypeNode :=
  { shape := .declared
      { element := some ⟨e⟩, enclosing := some ⟨outer⟩, arguments := arguments.map TypeId.mk } }

def TypeNode.variableOf (e : Nat) : TypeNode :=
  { shape := .typeVar { element := some ⟨e⟩ } }

def TypeNode.arrayOf (component : Nat) : TypeNode :=
  { shape := .array (some ⟨component⟩) }

/-- A class whose own type is at a handle. -/
def ElementNode.ofType (name : String) (type : Nat) (k : ClassKind) (d : ClassDecl) : ElementNode :=
  { name := some name, type := some ⟨type⟩, detail := .type k d }

/-- The parameter of an element, with a type variable. -/
def ElementNode.parameter (name : String) (type owner : Nat) : ElementNode :=
  { name := some name, type := some ⟨type⟩, enclosing := some ⟨owner⟩, detail := .typeParameter }

namespace Session

/-- The types that `Object`, `Cloneable` and `Serializable` declare. -/
def languageTypes : List TypeNode :=
  [.ofClass 0 [], .ofClass 1 [], .ofClass 2 []]

/-- `Object`, `Cloneable` and `Serializable`. -/
def languageElements : List ElementNode :=
  [.ofType "Object" 14 .plain {}, .ofType "Cloneable" 15 .interface {},
   .ofType "Serializable" 16 .interface {}]

/-- What sessions with these elements know of the language. -/
def languageClasses : WellKnown :=
  ⟨⟨0⟩, ⟨14⟩, ⟨1⟩, ⟨15⟩, ⟨2⟩, ⟨16⟩⟩

/-- A session with these elements and more slots. Its types start at 17, and its elements at 3. -/
def ofSlots (types : List (Slot TypeNode TypeId)) (elements : List (Slot ElementNode ElementId)) :
    Session where
  store := { Store.empty with
    types := Store.empty.types ++ (languageTypes.map Slot.node ++ types).toArray
    elements := (languageElements.map Slot.node ++ elements).toArray
    registry := { byName := [("java.lang.Object", ⟨0⟩), ("java.lang.Cloneable", ⟨1⟩),
      ("java.io.Serializable", ⟨2⟩)] } }

/-- A session with these elements and more, none of them deferred. -/
def ofNodes (types : List TypeNode) (elements : List ElementNode) : Session :=
  ofSlots (types.map Slot.node) (elements.map Slot.node)

end Session

end JavaTypes
