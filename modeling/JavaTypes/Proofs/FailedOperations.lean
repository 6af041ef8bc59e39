import JavaTypes.Proofs.Completions

/-!
# Operations that fail

An operation makes all its tests before it writes to a node that was there before. If it fails, some
slots may have been completed and some nodes may have been made on the way, and that is all: each node
is as it was, at both ends of a link that was refused too.

* `Build.Spares s x`: if `x` fails in `s`, it leaves a completion of `s`;
* one lemma for each operation, of which `spares_attach` and `spares_setElementType` also say that no
  test fails between two writes;
* `Operation.call`: an operation together with its answer;
* `Operation.spares_call`: an operation that fails leaves a completion of the store.
-/

namespace JavaTypes

open Action

/-- If the action fails in the store, it leaves the store with slots completed and nodes added. -/
def Build.Spares {α : Type} (s : Store) (x : Build α) : Prop :=
  ∀ (f : Fault) (s' : Store), x s = (.error f, s') → s.Completion s'

namespace Build

variable {α β : Type} {s : Store} {x : Build α} {f : α → Build β}

theorem spares_of_completion (h : s.Completion (x s).2) : Spares s x := by
  intro f s' hx
  rwa [hx] at h

theorem spares_of_ok {a : α} {s' : Store} (h : x s = (.ok a, s')) : Spares s x := by
  intro f s'' hx
  rw [h] at hx
  cases hx

/-- Completions, and then something that spares the nodes. -/
theorem spares_bind (hx : s.Completion (x s).2)
    (hf : ∀ {a s'}, x s = (.ok a, s') → Spares s' (f a)) : Spares s (x >>= f) := by
  intro fault s'' h
  rw [bind_apply] at h
  cases hs : x s with
  | mk r s' =>
    rw [hs] at hx h
    cases r with
    | ok a => exact hx.trans (hf hs fault s'' h)
    | error e =>
      cases h
      exact hx

/-- Questions, and then something that spares the nodes. -/
theorem Finds.spares {P : Store → α → Prop} (hx : Finds s x P)
    (hf : ∀ {a s'}, s ≤ s' → P s' a → Spares s' (f a)) : Spares s (x >>= f) := by
  have hcompletion := completion_of_leads hx.leads
  refine spares_bind hcompletion fun {a s'} hs => hf ?_ (hx.found hs)
  rw [hs] at hcompletion
  exact hcompletion.le

/-- What is done with the answer of an action does not matter if it cannot fail. -/
theorem Spares.andThen (hx : Spares s x)
    (hf : ∀ a s', ∃ b, f a s' = (.ok b, s')) : Spares s (x >>= f) := by
  intro fault s'' h
  rw [bind_apply] at h
  cases hs : x s with
  | mk r s' =>
    rw [hs] at h
    cases r with
    | ok a =>
      obtain ⟨b, hb⟩ := hf a s'
      cases hb.symm.trans h
    | error e =>
      cases h
      exact hx _ _ hs

end Build

open Build

/-! ### Operations -/

theorem spares_editTypeNode (s : Store) (owner : TypeId) (n : TypeNode) (edit : TypeEdit) :
    Spares s (editTypeNode owner n edit) := by
  intro f s' h
  unfold editTypeNode at h
  cases hn : edit.applyTo s owner n with
  | ok n' =>
    rw [hn] at h
    cases h
  | error e =>
    rw [hn] at h
    cases h
    exact .refl s

theorem spares_editType (s : Store) (t : TypeId) (edit : TypeEdit) : Spares s (editType t edit) :=
  (finds_viewType t).spares fun _ _ => (spares_editTypeNode _ _ _ edit).andThen fun _ _ => ⟨(), rfl⟩

theorem spares_editElement (s : Store) (e : ElementId) (edit : ElementEdit) :
    Spares s (editElement e edit) :=
  finds_get.spares fun _ _ => (finds_ofExcept _).spares fun _ _ =>
    (finds_viewElement e).spares fun _ _ => (finds_ofExcept _).spares fun _ _ => spares_of_ok rfl

theorem spares_newNamedElement (s : Store) (k : ElementKind) (name : String) :
    Spares s (newNamedElement k name) :=
  spares_bind ((Store.Completion.refl s).makeElement _) fun _ =>
    (spares_editElement _ _ (.simpleName name)).andThen fun _ _ => ⟨_, rfl⟩

/-- The last test of `attach` stands between its two writes; it does not fail there. -/
theorem spares_attach (s : Store) (role : Membership) (parent child : ElementId) :
    Spares s (attach role parent child) := by
  refine (finds_viewElement parent).spares fun {found s₁} _ hp => ?_
  refine (finds_viewElement child).spares fun {found s₂} hle hc => ?_
  replace hp := Slot.slot_of_peek (peekElement_mono hle hp)
  replace hc := Slot.slot_of_peek hc
  dsimp only
  split
  · exact spares_of_completion (.refl s₂)
  · next hrole =>
    obtain rfl := not_not.1 hrole
    refine (finds_ofExcept _).spares fun {n' s₃} _ hset => ?_
    obtain ⟨rfl, hset⟩ := hset
    exact spares_of_ok (attach_of_enclosedBy hp hc hset)

/-- The type of an element is tested at both ends before the first end is written. -/
theorem spares_setElementType (s : Store) (e : ElementId) (t : TypeId) :
    Spares s (setElementType e t) := by
  cases hcheck : checkElementType e t s with
  | mk r s' =>
    cases r with
    | ok x =>
      obtain ⟨s'', hset, -⟩ := setElementType_of_checkElementType hcheck
      exact spares_of_ok hset
    | error f =>
      have hleads := (finds_checkElementType e t (s := s)).leads
      have hset : setElementType e t s = (.error f, s') := bind_of_error hcheck
      rw [hcheck] at hleads
      refine spares_of_completion ?_
      rw [hset]
      exact completion_of_leads hleads

theorem spares_setAccessor (s : Store) (fuel : Nat) (component accessor : ElementId) :
    Spares s (setAccessor fuel component accessor) := by
  refine (finds_viewElement component).spares fun {found s₁} _ _ => ?_
  obtain ⟨e, n⟩ := found
  cases hdetail : n.detail with
  | recordComponent old =>
    simp only [hdetail]
    refine (finds_of_settles).spares fun {method s₂} _ _ => ?_
    refine (finds_of_settles).spares fun _ _ => ?_
    exact (finds_ofExcept _).spares fun _ _ => spares_of_ok rfl
  | _ =>
    simp only [hdetail]
    exact spares_of_completion (.refl s₁)

/-! ### All operations -/

/-- An operation, without the handle that it may answer with. -/
def Operation.call : Operation → Build Unit
  | newType b => discard (blankType b)
  | newErrorType element => discard (errorType element)
  | makeShape shape => discard (JavaTypes.makeShape shape)
  | editType t edit => JavaTypes.editType t edit
  | newElement k => discard (JavaTypes.newElement k)
  | newNamedElement k name => discard (JavaTypes.newNamedElement k name)
  | editElement e edit => JavaTypes.editElement e edit
  | attach role parent child => JavaTypes.attach role parent child
  | setElementType e t => JavaTypes.setElementType e t
  | setAccessor fuel component accessor => JavaTypes.setAccessor fuel component accessor
  | deferType supplier => discard (JavaTypes.deferType supplier)
  | deferElement supplier => discard (JavaTypes.deferElement supplier)
  | viewType t => discard (JavaTypes.viewType t)
  | viewElement e => discard (JavaTypes.viewElement e)
  | rename registry labels => modify fun s => { s with registry := registry, labels := labels }

theorem discard_apply {α : Type} (x : Build α) (s : Store) :
    (discard x : Build Unit) s = ((x s).1.map fun _ => (), (x s).2) := by
  show (x >>= fun _ => pure ()) s = _
  rw [bind_apply]
  cases x s with
  | mk r s' => cases r <;> rfl

/-- The answer comes with the store that the operation leaves behind. -/
theorem Operation.call_eq (op : Operation) (s : Store) : (op.call s).2 = op.apply s := by
  cases op with
  | newType | newErrorType | makeShape | newElement | newNamedElement | deferType | deferElement
  | viewType | viewElement => exact congrArg Prod.snd (discard_apply _ s)
  | _ => rfl

theorem Build.Spares.discard {α : Type} {s : Store} {x : Build α} (h : Spares s x) :
    Spares s (discard x : Build Unit) :=
  h.andThen fun _ _ => ⟨(), rfl⟩

theorem Operation.spares_call (op : Operation) (s : Store) : Spares s op.call := by
  cases op with
  | newType b => exact .discard (spares_of_ok rfl)
  | newErrorType element => exact .discard (spares_of_ok rfl)
  | makeShape shape => exact .discard (spares_of_completion (completion_makeShape shape s))
  | editType t edit => exact spares_editType s t edit
  | newElement k => exact .discard (spares_of_ok rfl)
  | newNamedElement k name => exact .discard (spares_newNamedElement s k name)
  | editElement e edit => exact spares_editElement s e edit
  | attach role parent child => exact spares_attach s role parent child
  | setElementType e t => exact spares_setElementType s e t
  | setAccessor fuel component accessor => exact spares_setAccessor s fuel component accessor
  | deferType supplier => exact .discard (spares_of_ok rfl)
  | deferElement supplier => exact .discard (spares_of_ok rfl)
  | viewType t => exact .discard (spares_of_completion (completion_viewType t s))
  | viewElement e => exact .discard (spares_of_completion (completion_viewElement e s))
  | rename registry labels => exact spares_of_ok rfl

/-- An operation that fails leaves every node as it was: it has only completed slots and made nodes. -/
theorem Operation.completion_of_fault {op : Operation} {s : Store} {f : Fault}
    (h : (op.call s).1 = .error f) :
    s.Completion (op.apply s) ∧
    (∀ (i : Nat) (n : TypeNode), s.types[i]? = some (.node n) →
      (op.apply s).types[i]? = some (.node n)) ∧
    ∀ (i : Nat) (n : ElementNode), s.elements[i]? = some (.node n) →
      (op.apply s).elements[i]? = some (.node n) := by
  have hcompletion := op.spares_call s f (op.apply s) (Prod.ext h (op.call_eq s))
  exact ⟨hcompletion, fun i n hn => hcompletion.types.kept i _ hn rfl,
    fun i n hn => hcompletion.elements.kept i _ hn rfl⟩

/-- A class in a package, and a deferred handle of another package. -/
def Store.takenClass : Store :=
  .after [.newElement .package, .newElement .package, .newElement (.type .plain),
    .attach .enclosed ⟨0⟩ ⟨2⟩, .deferElement (.give ⟨1⟩)]

/-- The class cannot be put into the other package. On the way the handle is completed, and both
packages and the class stay as they are. -/
theorem Operation.completion_of_fault_takenClass :
    ((Operation.attach .enclosed ⟨3⟩ ⟨2⟩).call Store.takenClass).1 =
      .error (.alreadySet "enclosing element") ∧
    Store.takenClass.Completion ((Operation.attach .enclosed ⟨3⟩ ⟨2⟩).apply Store.takenClass) ∧
    ((Operation.attach .enclosed ⟨3⟩ ⟨2⟩).apply Store.takenClass).elements[3]? =
      some (.done ⟨1⟩) := by
  have hfault : ((Operation.attach .enclosed ⟨3⟩ ⟨2⟩).call Store.takenClass).1 =
      .error (.alreadySet "enclosing element") := rfl
  exact ⟨hfault, (Operation.completion_of_fault hfault).1, rfl⟩

end JavaTypes
