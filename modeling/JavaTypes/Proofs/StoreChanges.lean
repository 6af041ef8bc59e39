import JavaTypes.Proofs.DerivedTypes

/-!
# What an operation can change in a store

An operation on a store completes handles and makes tests before it writes, and may fail between any
two steps. `Store.Change` lists what can happen to a store in one step, where the two ends of a link
are written together. `Store.Moves` is any number of steps.

* `Store.Change`: one step;
* `moves_viewType`, `moves_viewElement`: to complete a handle is a number of such steps;
* `moves_editType`, `moves_editElement`, `moves_attach`, `moves_setElementType`, `moves_setAccessor`:
  so is every operation that writes, whether it succeeds or fails.
* `Operation`, `Store.after`: what a client can do, and the store after a sequence of operations;
* `Store.after_induction`: an invariant of stores is therefore proved for one step only.
-/

namespace JavaTypes

/-! ### Steps -/

variable {c e p parent e' : ElementId} {m n n' : ElementNode} {owner t : TypeId} {s s' : Store}
  {fuel fuel' : Nat}

/-- The node of a type that has just been made: without parts, or an error type. -/
def TypeNode.IsNew (n : TypeNode) : Prop :=
  n.annotations = [] ∧ (n.shape.blank = n.shape ∨ ∃ e, n.shape = .error e)

/-- The node of a type with a link to the element that it is the type of. Types of other kinds have
no link. -/
def TypeNode.linked (n : TypeNode) (e : ElementId) : TypeNode :=
  match n.shape with
  | .declared d => { n with shape := .declared { d with element := some e } }
  | .error _ => { n with shape := .error (some e) }
  | .typeVar v => { n with shape := .typeVar { v with element := some e } }
  | _ => n

/-- The store in which an element is a member of another, given the node `n` of the member. -/
def Store.withMember (s : Store) (role : Membership) (parent child : ElementId) (m n : ElementNode) :
    Store :=
  (s.setElementNode child n).setElementNode parent
    ((if parent = child then n else m).addMember role child)

/-- One step of an operation on a store. -/
inductive Store.Change : Store → Store → Prop
  /-- Names are given or taken away. -/
  | names {s : Store} (registry : Registry) (labels : Labels) :
      Change s { s with registry := registry, labels := labels }
  | newType {s : Store} {n : TypeNode} (hn : n.IsNew) :
      Change s { s with types := s.types.push (.node n) }
  | newElement {s : Store} (k : ElementKind) :
      Change s { s with elements := s.elements.push (.node { detail := .blank k }) }
  | deferType {s : Store} (supplier : Supplier TypeId) :
      Change s { s with types := s.types.push (.pending supplier) }
  | deferElement {s : Store} (supplier : Supplier ElementId) :
      Change s { s with elements := s.elements.push (.pending supplier) }
  | startType {s : Store} {t : TypeId} {supplier : Supplier TypeId}
      (h : s.types[t.index]? = some (.pending supplier)) : Change s (Shelf.types.start t s)
  | startElement {s : Store} {e : ElementId} {supplier : Supplier ElementId}
      (h : s.elements[e.index]? = some (.pending supplier)) : Change s (Shelf.elements.start e s)
  | finishType {s : Store} {t : TypeId} {slot : Slot TypeNode TypeId}
      (h : s.types[t.index]? = some .running) (hslot : slot.IsOutcome) :
      Change s (Shelf.types.setSlot t slot s)
  | finishElement {s : Store} {e : ElementId} {slot : Slot ElementNode ElementId}
      (h : s.elements[e.index]? = some .running) (hslot : slot.IsOutcome) :
      Change s (Shelf.elements.setSlot e slot s)
  | editType {s : Store} {t : TypeId} {n n' : TypeNode} {edit : TypeEdit}
      (h : s.types[t.index]? = some (.node n)) (hedit : edit.applyTo s t n = .ok n') :
      Change s (s.setTypeNode t n')
  | editElement {s : Store} {e : ElementId} {n n' : ElementNode} {edit : ElementEdit}
      (h : s.elements[e.index]? = some (.node n)) (hedit : edit.applyTo n = .ok n') :
      Change s (s.setElementNode e n')
  | setAccessor {s : Store} {e accessor : ElementId} {n : ElementNode} {old new : Option ElementId}
      (h : s.elements[e.index]? = some (.node n)) (hn : n.detail = .recordComponent old)
      (hset : setOnce "accessor" old accessor = .ok new) :
      Change s (s.setElementNode e { n with detail := .recordComponent new })
  /-- An element becomes a member of another. -/
  | attach {s : Store} {parent child : ElementId} {m n n' : ElementNode}
      (hp : s.elements[parent.index]? = some (.node m))
      (hc : s.elements[child.index]? = some (.node n))
      (hset : n.enclosedBy parent m.kind = .ok n') :
      Change s (s.withMember (Membership.of n.kind) parent child m n')
  /-- An element whose type has no link back is given its type. -/
  | setType {s : Store} {e : ElementId} {n : ElementNode} {t : TypeId} {type' : Option TypeId}
      (h : s.elements[e.index]? = some (.node n)) (hkind : n.kind.linksBack = false)
      (hset : setOnce "type" n.type t = .ok type') :
      Change s (s.setElementNode e { n with type := type' })
  /-- An element is given its type, and the type is linked back. -/
  | linkType {s : Store} {e : ElementId} {n : ElementNode} {t owner : TypeId} {m : TypeNode}
      {type' : Option TypeId} (h : s.elements[e.index]? = some (.node n))
      (hkind : n.kind.linksBack = true) (hset : setOnce "type" n.type t = .ok type')
      (ht : s.peekType t = some (owner, m)) (hfree : m.element = none ∨ m.element = some e) :
      Change s ((s.setElementNode e { n with type := type' }).setTypeNode owner (m.linked e))

/-- Any number of steps. -/
abbrev Store.Moves : Store → Store → Prop :=
  Relation.ReflTransGen Store.Change

/-! ### Completion -/

/-- Filling in a type whose node is known. -/
theorem moves_editTypeNode {k : TypeId} {n : TypeNode}
    (hk : s.types[k.index]? = some (.node n)) (edit : TypeEdit) :
    Store.Moves s (editTypeNode k n edit s).2 := by
  unfold editTypeNode
  cases hedit : edit.applyTo s k n with
  | error f => exact .refl
  | ok n' => exact .single (.editType hk hedit)

theorem moves_makeType {n : TypeNode} (hn : n.IsNew) (s : Store) : Store.Moves s (makeType n s).2 :=
  .single (.newType hn)

theorem TypeNode.isNew_blank (shape : TypeShape) : TypeNode.IsNew { shape := shape.blank } :=
  ⟨rfl, .inl (by cases shape <;> rfl)⟩

theorem moves_makeShape (shape : TypeShape) (s : Store) : Store.Moves s (makeShape shape s).2 :=
  makeShape_induction (moves_makeType (TypeNode.isNew_blank shape) s)
    fun _ hmoves hn hedit => hmoves.tail (.editType hn hedit)

/-- A supplier runs while its slot is marked, so nothing that it does reaches the slot. -/
theorem respected_moves : Store.Respected (fun _ _ => True)
    fun s t => s.Completion t ∧ Store.Moves s t where
  refl s := ⟨.refl s, .refl⟩
  trans h₁ h₂ := ⟨h₁.1.trans h₂.1, h₁.2.trans h₂.2⟩
  makeShape _ := ⟨completion_makeShape _ _, moves_makeShape _ _⟩
  makeElement k s := ⟨respected_completion.makeElement k s, .single (.newElement k)⟩
  types hk h hslot := ⟨respected_completion.types hk h.1 hslot,
    .head (.startType hk) (h.2.tail (.finishType (h.1.types.running hk) hslot))⟩
  elements hk h hslot := ⟨respected_completion.elements hk h.1 hslot,
    .head (.startElement hk) (h.2.tail (.finishElement (h.1.elements.running hk) hslot))⟩

theorem moves_viewType (t : TypeId) (s : Store) : Store.Moves s (viewType t s).2 :=
  (respects_viewType respected_moves fun _ _ => trivial).2

theorem moves_viewElement (e : ElementId) (s : Store) : Store.Moves s (viewElement e s).2 :=
  (respects_viewElement respected_moves fun _ _ => trivial).2

/-- Whatever a question does to a store is a number of steps. -/
theorem moves_of_leads {t : Store} (h : Leads s t) : Store.Moves s t := by
  induction h with
  | refl => exact .refl
  | tail _ hstep ih =>
    obtain ⟨k, rfl⟩ | ⟨k, rfl⟩ := hstep
    · exact ih.trans (moves_viewType k _)
    · exact ih.trans (moves_viewElement k _)

/-! ### Tests before a change -/

/-- An action that only asks questions, with what holds of its answer. -/
structure Build.Finds {α : Type} (s : Store) (x : Build α) (P : Store → α → Prop) : Prop where
  leads : Leads s (x s).2
  found : ∀ {a s'}, x s = (.ok a, s') → P s' a

namespace Build

variable {α β : Type} {s : Store} {P : Store → α → Prop} {Q : Store → β → Prop} {x : Build α}
  {f : α → Build β}

theorem Finds.bind (hx : Finds s x P)
    (hf : ∀ {a s'}, s ≤ s' → P s' a → Finds s' (f a) Q) : Finds s (x >>= f) Q := by
  have hleads := hx.leads
  cases hs : x s with
  | mk r s' =>
    rw [hs] at hleads
    cases r with
    | ok a =>
      have hrest := hf hleads.le (hx.found hs)
      have hxf : (x >>= f) s = f a s' := Action.bind_of_ok hs
      exact ⟨hxf ▸ hleads.trans hrest.leads, fun h => hrest.found (hxf ▸ h)⟩
    | error e =>
      have hxf : (x >>= f) s = (.error e, s') := Action.bind_of_error hs
      refine ⟨hxf ▸ hleads, fun h => ?_⟩
      rw [hxf] at h
      cases h

/-- Questions, and then a change. -/
theorem Finds.moves (hx : Finds s x P)
    (hf : ∀ {a s'}, s ≤ s' → P s' a → Store.Moves s' (f a s').2) :
    Store.Moves s ((x >>= f) s).2 := by
  have hleads := hx.leads
  rw [Action.bind_apply]
  cases hs : x s with
  | mk r s' =>
    rw [hs] at hleads
    cases r with
    | ok a => exact (moves_of_leads hleads).trans (hf hleads.le (hx.found hs))
    | error e => exact moves_of_leads hleads

theorem finds_viewType (t : TypeId) :
    Finds s (viewType t) fun s' found => s'.peekType t = some found where
  leads := (settles_viewType t).leads s
  found := peekType_of_viewType

theorem finds_viewElement (e : ElementId) :
    Finds s (viewElement e) fun s' found => s'.peekElement e = some found where
  leads := (settles_viewElement e).leads s
  found := peekElement_of_viewElement

theorem finds_get : Finds s (get : Build Store) fun s' a => s' = a where
  leads := .refl s
  found h := by
    cases h
    rfl

theorem finds_ofExcept (r : Except Fault α) :
    Finds s (Action.ofExcept r) fun s' a => s' = s ∧ r = .ok a where
  leads := .refl s
  found h := by
    cases h
    exact ⟨rfl, rfl⟩

theorem finds_pure {a : α} (h : P s a) : Finds s (pure a : Build α) P where
  leads := .refl s
  found h' := by
    cases h'
    exact h

/-- A question whose answer does not matter. -/
theorem finds_of_settles [hx : Action.Settles x x] : Finds s x fun _ _ => True where
  leads := hx.leads s
  found _ := trivial

end Build

/-! ### Operations -/

open Build

theorem moves_editType (t : TypeId) (edit : TypeEdit) (s : Store) :
    Store.Moves s (editType t edit s).2 := by
  refine (finds_viewType t).moves fun {found s'} _ ht => ?_
  obtain ⟨owner, n⟩ := found
  have hmoves := moves_editTypeNode (Slot.slot_of_peek ht) edit
  dsimp only
  rw [Action.bind_apply]
  cases hr : editTypeNode owner n edit s' with
  | mk r s'' =>
    rw [hr] at hmoves
    cases r with
    | ok _ => exact hmoves
    | error _ => exact hmoves

theorem moves_editElement (e : ElementId) (edit : ElementEdit) (s : Store) :
    Store.Moves s (editElement e edit s).2 := by
  refine finds_get.moves fun _ _ => (finds_ofExcept _).moves fun _ _ => ?_
  refine (finds_viewElement e).moves fun {found s'} _ he => ?_
  refine (finds_ofExcept _).moves fun _ hset => ?_
  obtain ⟨rfl, hedit⟩ := hset
  exact .single (.editElement (Slot.slot_of_peek he) hedit)

theorem moves_newNamedElement (k : ElementKind) (name : String) (s : Store) :
    Store.Moves s (newNamedElement k name s).2 := by
  have hmade : newElement k s = (.ok ⟨s.elements.size⟩, (newElement k s).2) := rfl
  have hnamed := moves_editElement ⟨s.elements.size⟩ (.simpleName name) (newElement k s).2
  have hmoves := Relation.ReflTransGen.head (.newElement k) hnamed
  unfold newNamedElement
  rw [Action.bind_of_ok hmade, Action.bind_apply]
  cases hr : editElement ⟨s.elements.size⟩ (.simpleName name) (newElement k s).2 with
  | mk r s' =>
    rw [hr] at hmoves
    cases r with
    | ok _ => exact hmoves
    | error _ => exact hmoves

/-- An element that can contain another has a list for it. -/
theorem ElementNode.takesMembers_of_canEnclose {k : ElementKind}
    (h : n.kind.canEnclose k = true) : n.takesMembers (Membership.of k) = true := by
  unfold kind at h
  cases k with
  | typeParameter =>
    cases hd : n.detail <;> rw [hd] at h <;> first | cases h | skip
    all_goals simp [takesMembers, Membership.of, hd]
  | var v =>
    cases v with
    | parameter =>
      cases hd : n.detail <;> rw [hd] at h <;> first | cases h | skip
      simp [takesMembers, Membership.of, hd]
    | _ => rfl
  | _ => rfl

/-- What an element that becomes a member of another has from then on. -/
theorem ElementNode.of_enclosedBy {outer : ElementKind} (h : n.enclosedBy parent outer = .ok n') :
    outer.canEnclose n.kind = true ∧ ∃ enclosing', n' = { n with enclosing := enclosing' } ∧
      setOnce "enclosing element" n.enclosing parent = .ok enclosing' := by
  unfold enclosedBy at h
  split at h
  · next hcan =>
    obtain ⟨enclosing', hset, h⟩ := exists_of_bind_eq_ok h
    cases h
    exact ⟨hcan, enclosing', rfl, hset⟩
  · cases h

/-- The node of an element after another, or the same, was written. -/
theorem Store.slot_setElementNode
    (hp : s.elements[p.index]? = some (.node m)) (hc : s.elements[c.index]? = some (.node n))
    (n' : ElementNode) : (s.setElementNode c n').elements[p.index]? =
      some (.node (if p = c then n' else m)) := by
  by_cases hpc : p = c
  · rw [if_pos hpc, hpc]
    exact Slot.get_set hc _
  · rw [if_neg hpc, setElementNode, Array.getElem?_setIfInBounds_ne fun h => hpc ?_]
    · exact hp
    · exact (congrArg ElementId.mk h).symm

theorem elementNode_of_slot
    (h : s.elements[e.index]? = some (.node n)) : elementNode e s = (.ok n, s) :=
  Action.bind_of_ok (viewElement_node h)

/-- What is done once the tests have passed: both ends of the link are written. The list of the
container is looked for between the two writes, and is there. -/
theorem attach_of_enclosedBy
    (hp : s.elements[p.index]? = some (.node m)) (hc : s.elements[c.index]? = some (.node n))
    (hset : n.enclosedBy p m.kind = .ok n') :
    (do
      modify fun s => s.setElementNode c n'
      let parentNode' ← elementNode p
      if !parentNode'.takesMembers (Membership.of n.kind) then
        throw (.elementKind (Membership.of n.kind).operation parentNode'.kind)
      modify fun s => s.setElementNode p (parentNode'.addMember (Membership.of n.kind) c) :
        Build Unit) s = (.ok (), s.withMember (Membership.of n.kind) p c m n') := by
  obtain ⟨hcan, enclosing', rfl, -⟩ := ElementNode.of_enclosedBy hset
  have hwritten := Store.slot_setElementNode hp hc { n with enclosing := enclosing' }
  have hread := elementNode_of_slot hwritten
  -- An element can be made a member of itself; its node is then the one just written.
  have htakes : (if p = c then { n with enclosing := enclosing' } else m).takesMembers
      (Membership.of n.kind) = true := by
    refine ElementNode.takesMembers_of_canEnclose ?_
    split
    · next hpc =>
      subst hpc
      cases hp.symm.trans hc
      exact hcan
    · exact hcan
  show (elementNode p >>= _) (s.setElementNode c { n with enclosing := enclosing' }) = _
  rw [Action.bind_of_ok hread]
  simp only [htakes, Bool.not_true, Bool.false_eq_true, if_false]
  rfl

/-- Both ends of the link between an element and its member are written, or nothing is. -/
theorem moves_attach (role : Membership) (parent child : ElementId) (s : Store) :
    Store.Moves s (attach role parent child s).2 := by
  refine (finds_viewElement parent).moves fun {found s₁} _ hp => ?_
  refine (finds_viewElement child).moves fun {found s₂} hle hc => ?_
  replace hp := Slot.slot_of_peek (peekElement_mono hle hp)
  replace hc := Slot.slot_of_peek hc
  dsimp only
  split
  · exact .refl
  · next hrole =>
    obtain rfl := not_not.1 hrole
    refine (finds_ofExcept _).moves fun {n' s₃} _ hset => ?_
    obtain ⟨rfl, hset⟩ := hset
    rw [attach_of_enclosedBy hp hc hset]
    exact .single (.attach hp hc hset)

instance settles_statedReturnType (method : ElementNode) :
    Action.Settles (statedReturnType method) (statedReturnType method) := by
  unfold statedReturnType
  split <;> infer_instance

instance settles_returnsComponentType [Fact (fuel ≤ fuel')] (component method : ElementNode) :
    Action.Settles (returnsComponentType fuel component method)
      (returnsComponentType fuel' component method) := by
  refine Action.settles_bind_of fun actual => ?_
  split <;> infer_instance

instance settles_sameOwner (component method : ElementNode) :
    Action.Settles (sameOwner component method) (sameOwner component method) := by
  unfold sameOwner
  split <;> infer_instance

/-- The tests of an accessor only complete handles. -/
instance settles_checkAccessor [Fact (fuel ≤ fuel')] (component method : ElementNode) :
    Action.Settles (checkAccessor fuel component method) (checkAccessor fuel' component method) := by
  have hrefuse : ∀ (c : Bool) (f : Fault),
      Action.Settles (Action.onlyIf c (throw f) : Build Unit) (Action.onlyIf c (throw f)) :=
    fun _ _ => Action.settles_ite
  unfold checkAccessor
  split <;> infer_instance

theorem moves_setAccessor (fuel : Nat) (component accessor : ElementId) (s : Store) :
    Store.Moves s (setAccessor fuel component accessor s).2 := by
  refine (finds_viewElement component).moves fun {found s₁} _ he => ?_
  obtain ⟨e, n⟩ := found
  cases hdetail : n.detail with
  | recordComponent old =>
    simp only [hdetail]
    refine (finds_of_settles).moves fun {method s₂} hle₂ _ => ?_
    refine (finds_of_settles).moves fun {_ s₃} hle₃ _ => ?_
    refine (finds_ofExcept _).moves fun {new s₄} _ hset => ?_
    obtain ⟨rfl, hset⟩ := hset
    have hnode := Slot.slot_of_peek (peekElement_mono (hle₂.trans hle₃) he)
    exact .single (.setAccessor hnode hdetail hset)
  | _ =>
    simp only [hdetail]
    exact .refl

/-! ### The type of an element -/

/-- A part that can be given is there once it is given. -/
theorem setOnce_of_checkOnce {α : Type} [BEq α] [LawfulBEq α] {field : String} {old : Option α}
    {new : α} (h : checkOnce field old new = .ok ()) :
    setOnce field old new = .ok (some new) ∧ (old = none ∨ old = some new) := by
  cases old with
  | none => exact ⟨rfl, .inl rfl⟩
  | some v =>
    by_cases hv : v = new
    · rw [hv]
      exact ⟨by simp [setOnce, setOnceBy], .inr rfl⟩
    · simp [checkOnce, hv] at h

theorem Store.setTypeNode_self {n : TypeNode}
    (h : s.types[t.index]? = some (.node n)) : s.setTypeNode t n = s := by
  obtain ⟨hlt, hn⟩ := Array.getElem?_eq_some_iff.1 h
  have hsame : s.types.setIfInBounds t.index (.node n) = s.types := by
    rw [← hn, Array.setIfInBounds_def, dif_pos hlt, Array.set_getElem_self]
  rw [Store.setTypeNode, hsame]

/-- What the tests find before an element is given its type: the element as it is, its new type
and, where the type is to be linked back, the node of the type. -/
structure TypeGivable (s : Store) (t : TypeId) (e : ElementId) (n : ElementNode)
    (type' : Option TypeId) : Prop where
  node : s.elements[e.index]? = some (.node n)
  set : setOnce "type" n.type t = .ok type'
  link : n.kind.linksBack = true →
    ∃ owner m, s.peekType t = some (owner, m) ∧ m.checkLink s owner e = .ok ()

theorem finds_checkDefiningElement (t : TypeId) (e : ElementId) :
    Finds s (checkDefiningElement t e) fun s' _ =>
      ∃ owner m, s'.peekType t = some (owner, m) ∧ m.checkLink s' owner e = .ok () := by
  refine (finds_viewType t).bind fun {found s₁} _ ht => ?_
  obtain ⟨owner, m⟩ := found
  refine finds_get.bind fun {s₂ s₃} hle hs => ?_
  subst hs
  refine ⟨(finds_ofExcept _).leads, fun {_ _} h => ?_⟩
  obtain ⟨rfl, hlink⟩ := (finds_ofExcept _).found h
  exact ⟨owner, m, peekType_mono hle ht, hlink⟩

/-- The tests only complete handles. -/
theorem finds_checkElementType (e : ElementId) (t : TypeId) : Finds s (checkElementType e t) fun s' x =>
      ∃ n type', x.2 = { n with type := type' } ∧ TypeGivable s' t x.1 n type' := by
  refine (finds_viewElement e).bind fun {found s₁} _ he => ?_
  obtain ⟨e', n⟩ := found
  refine finds_get.bind fun {_ s₂} hle₂ _ => (finds_ofExcept _).bind fun {_ s₃} hle₃ _ => ?_
  have hlink : Finds s₃ (Action.onlyIf n.kind.linksBack (checkDefiningElement t e'))
      fun s' _ => n.kind.linksBack = true →
        ∃ owner m, s'.peekType t = some (owner, m) ∧ m.checkLink s' owner e' = .ok () := by
    unfold Action.onlyIf
    split
    · exact ⟨(finds_checkDefiningElement t e').leads,
        fun h _ => (finds_checkDefiningElement t e').found h⟩
    · next hkind => exact finds_pure fun h => absurd h hkind
  refine hlink.bind fun {_ s₄} hle₄ hlinked => (finds_ofExcept _).bind fun {type' s₅} _ hset => ?_
  obtain ⟨rfl, hset⟩ := hset
  have hnode := Slot.slot_of_peek (peekElement_mono (hle₂.trans (hle₃.trans hle₄)) he)
  exact finds_pure ⟨n, type', rfl, hnode, hset, hlinked⟩

/-- A test that an element passes, it passes also with another node of its kind. -/
theorem Store.admitElement_setElementNode
    (he : s.elements[e.index]? = some (.node n)) (hkind : n'.kind = n.kind) (operation : String)
    (accepts : ElementKind → Bool) :
    (s.setElementNode e n').admitElement operation accepts e =
      s.admitElement operation accepts e := by
  have he' : (s.setElementNode e n').elements[e.index]? = some (.node n') := Slot.get_set he _
  simp [Store.admitElement, Store.peekElementKind, Store.peekElement, Slot.peek_node he,
    Slot.peek_node he', hkind]

theorem TypeNode.checkLink_setElementNode
    (he : s.elements[e.index]? = some (.node n)) (n' : ElementNode) (hkind : n'.kind = n.kind)
    (owner : TypeId) (m : TypeNode) :
    m.checkLink (s.setElementNode e n') owner e = m.checkLink s owner e := by
  simp only [TypeNode.checkLink, Store.admitElement_setElementNode he hkind]

/-- The tests for the link of a type that is filled in are those of the edit that writes it. -/
theorem TypeEdit.applyTo_of_checkLink {m : TypeNode}
    (hkind : m.kind = .declared ∨ m.kind = .typeVar) (hlink : m.checkLink s owner e = .ok ()) :
    (TypeEdit.definingElement e).applyTo s owner m = .ok (m.linked e) ∧
      (m.element = none ∨ m.element = some e) := by
  obtain ⟨shape, annotations⟩ := m
  cases shape with
  | declared _ | typeVar _ =>
    obtain ⟨⟨⟩, hadmit, hcheck⟩ := exists_of_bind_eq_ok hlink
    obtain ⟨hset, hfree⟩ := setOnce_of_checkOnce hcheck
    refine ⟨?_, hfree⟩
    simp [applyTo, reshape, TypeShape.isFrozen, operation, hadmit, hset, bind, Except.bind, pure,
      Except.pure, TypeNode.linked]
  | _ => simp [TypeNode.kind, TypeShape.kind] at hkind

/-- Once the tests have passed, linking a type cannot fail. -/
theorem linkDefiningElement_of_checkLink {m : TypeNode}
    (ht : s.peekType t = some (owner, m)) (hlink : m.checkLink s owner e = .ok ()) :
    linkDefiningElement t e s = (.ok (), s.setTypeNode owner (m.linked e)) ∧
      (m.element = none ∨ m.element = some e) := by
  have hview := viewType_of_peekType ht
  have hedit (hkind : m.kind = .declared ∨ m.kind = .typeVar) :
      editType t (.definingElement e) s = (.ok (), s.setTypeNode owner (m.linked e)) ∧
        (m.element = none ∨ m.element = some e) := by
    obtain ⟨happly, hfree⟩ := TypeEdit.applyTo_of_checkLink hkind hlink
    refine ⟨?_, hfree⟩
    unfold editType
    rw [Action.bind_of_ok hview]
    simp [editTypeNode, happly, Action.bind_apply]
  unfold linkDefiningElement
  rw [Action.bind_of_ok hview]
  obtain ⟨shape, annotations⟩ := m
  cases shape with
  | error element =>
    obtain ⟨hset, hfree⟩ := setOnce_of_checkOnce hlink
    refine ⟨?_, hfree⟩
    simp [hset, Action.bind_apply, TypeNode.linked]
    rfl
  | declared d => exact hedit (.inl rfl)
  | typeVar v => exact hedit (.inr rfl)
  | _ =>
    refine ⟨?_, .inl rfl⟩
    rw [TypeNode.linked, Store.setTypeNode_self (Slot.slot_of_peek ht)]
    rfl

/-- What giving an element its type does, once the tests have passed. -/
theorem setElementType_of_checkElementType (h : checkElementType e t s = (.ok (e', n'), s')) :
    ∃ s'', setElementType e t s = (.ok (), s'') ∧ Store.Change s' s'' := by
  obtain ⟨n, type', rfl, hgive⟩ := (finds_checkElementType e t).found h
  have hset : setElementType e t s = Action.onlyIf n.kind.linksBack (linkDefiningElement t e')
        (s'.setElementNode e' { n with type := type' }) :=
    Action.bind_of_ok h
  rw [hset]
  cases hkind : n.kind.linksBack with
  | false => exact ⟨_, rfl, .setType hgive.node hkind hgive.set⟩
  | true =>
    obtain ⟨owner, m, ht, hlink⟩ := hgive.link hkind
    have hkept := TypeNode.checkLink_setElementNode hgive.node { n with type := type' } rfl owner m
    obtain ⟨hlinked, hfree⟩ := linkDefiningElement_of_checkLink
      (s := s'.setElementNode e' { n with type := type' }) ht (hkept.trans hlink)
    exact ⟨_, hlinked, .linkType hgive.node hkind hgive.set ht hfree⟩

/-- An element that cannot be given the type is left as it is, and so is the type. -/
theorem le_of_setElementType_eq_error {f : Fault}
    (h : setElementType e t s = (.error f, s')) : s ≤ s' := by
  cases hcheck : checkElementType e t s with
  | mk r s₁ =>
    cases r with
    | ok x =>
      obtain ⟨s'', hset, -⟩ := setElementType_of_checkElementType hcheck
      rw [hset] at h
      cases h
    | error f' =>
      have hleads := (finds_checkElementType e t (s := s)).leads
      have hset : setElementType e t s = (.error f', s₁) := Action.bind_of_error hcheck
      rw [hcheck] at hleads
      rw [hset] at h
      cases h
      exact hleads.le

theorem moves_setElementType (e : ElementId) (t : TypeId) (s : Store) :
    Store.Moves s (setElementType e t s).2 := by
  have hleads := (finds_checkElementType e t (s := s)).leads
  cases hcheck : checkElementType e t s with
  | mk r s' =>
    rw [hcheck] at hleads
    cases r with
    | ok x =>
      obtain ⟨s'', hset, hchange⟩ := setElementType_of_checkElementType hcheck
      rw [hset]
      exact (moves_of_leads hleads).tail hchange
    | error f =>
      have hset : setElementType e t s = (.error f, s') := Action.bind_of_error hcheck
      rw [hset]
      exact moves_of_leads hleads

/-! ## Sequences of operations -/

/-- What a client can do to a store. -/
inductive Operation
  /-- Make a type without parts. -/
  | newType (b : BlankType)
  | newErrorType (element : Option ElementId)
  /-- Make a type with the parts of a shape. -/
  | makeShape (shape : TypeShape)
  | editType (t : TypeId) (edit : TypeEdit)
  | newElement (k : ElementKind)
  | newNamedElement (k : ElementKind) (name : String)
  | editElement (e : ElementId) (edit : ElementEdit)
  | attach (role : Membership) (parent child : ElementId)
  | setElementType (e : ElementId) (t : TypeId)
  | setAccessor (fuel : Nat) (component accessor : ElementId)
  | deferType (supplier : Supplier TypeId)
  | deferElement (supplier : Supplier ElementId)
  /-- Read something of a type, which completes it. -/
  | viewType (t : TypeId)
  | viewElement (e : ElementId)
  /-- Change the names that suppliers look up. -/
  | rename (registry : Registry) (labels : Labels)

/-- The store that an operation leaves behind, whether it succeeds or fails. -/
def Operation.apply (s : Store) : Operation → Store
  | newType b => (blankType b s).2
  | newErrorType element => (errorType element s).2
  | makeShape shape => (JavaTypes.makeShape shape s).2
  | editType t edit => (JavaTypes.editType t edit s).2
  | newElement k => (JavaTypes.newElement k s).2
  | newNamedElement k name => (JavaTypes.newNamedElement k name s).2
  | editElement e edit => (JavaTypes.editElement e edit s).2
  | attach role parent child => (JavaTypes.attach role parent child s).2
  | setElementType e t => (JavaTypes.setElementType e t s).2
  | setAccessor fuel component accessor => (JavaTypes.setAccessor fuel component accessor s).2
  | deferType supplier => (JavaTypes.deferType supplier s).2
  | deferElement supplier => (JavaTypes.deferElement supplier s).2
  | viewType t => (JavaTypes.viewType t s).2
  | viewElement e => (JavaTypes.viewElement e s).2
  | rename registry labels => { s with registry := registry, labels := labels }

/-- The store after a sequence of operations. -/
def Store.after (ops : List Operation) : Store :=
  ops.foldl Operation.apply .empty

/-- Make the classes of the language, at 0, 1 and 2, and their types from 14 on. The operation makes the
type that `Object` declares. -/
def Operation.language (own : Operation) : List Operation :=
  [.newNamedElement (.type .plain) "Object", .newNamedElement (.type .interface) "Cloneable",
    .newNamedElement (.type .interface) "Serializable", own, .newType .declared, .newType .declared,
    .setElementType ⟨0⟩ ⟨14⟩, .setElementType ⟨1⟩ ⟨15⟩, .setElementType ⟨2⟩ ⟨16⟩,
    .rename { byName := [("java.lang.Object", ⟨0⟩), ("java.lang.Cloneable", ⟨1⟩),
      ("java.io.Serializable", ⟨2⟩)] } {}]

/-- An operation is a number of steps. -/
theorem Operation.moves (s : Store) (op : Operation) : Store.Moves s (op.apply s) := by
  cases op with
  | newType b => exact moves_makeType ⟨rfl, .inl (by cases b <;> rfl)⟩ s
  | newErrorType element => exact moves_makeType ⟨rfl, .inr ⟨element, rfl⟩⟩ s
  | makeShape shape => exact moves_makeShape shape s
  | editType t edit => exact moves_editType t edit s
  | newElement k => exact .single (.newElement k)
  | newNamedElement k name => exact moves_newNamedElement k name s
  | editElement e edit => exact moves_editElement e edit s
  | attach role parent child => exact moves_attach role parent child s
  | setElementType e t => exact moves_setElementType e t s
  | setAccessor fuel component accessor => exact moves_setAccessor fuel component accessor s
  | deferType supplier => exact .single (.deferType supplier)
  | deferElement supplier => exact .single (.deferElement supplier)
  | viewType t => exact moves_viewType t s
  | viewElement e => exact moves_viewElement e s
  | rename registry labels => exact .single (.names registry labels)

namespace Store

variable {P : Store → Prop}

/-- What every step keeps, any number of steps keep. -/
theorem Moves.keeps {s t : Store} (h : Moves s t) (hstep : ∀ {s t}, Change s t → P s → P t)
    (hs : P s) : P t := by
  induction h with
  | refl => exact hs
  | tail _ hchange ih => exact hstep hchange ih

/-- What holds at first and is kept by every step holds after every sequence of operations. -/
theorem after_induction (hempty : P empty) (hstep : ∀ {s t}, Change s t → P s → P t)
    (ops : List Operation) : P (after ops) := by
  have hfrom : ∀ {s : Store}, P s → P (ops.foldl Operation.apply s) := by
    induction ops with
    | nil => exact id
    | cons op ops ih => exact fun hs => ih ((op.moves _).keeps hstep hs)
  exact hfrom hempty

end Store

end JavaTypes
