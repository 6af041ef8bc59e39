import JavaTypes.Proofs.StoreChanges

/-!
# What operations do to elements

Seen from the elements, a step makes an element, makes one a member of another, gives one its type,
or leaves all their links as they are.

* `Store.Maps g s t`: the elements of `s` and `t` are the same, and `g` gives their nodes in `t`;
* `ElementNode.Agrees`: two nodes with the same kind, type, enclosing element and members;
* `Store.ElementChange`: the four cases, and `Store.Change.elementChange`: there are no others.
-/

namespace JavaTypes

/-! ### What steps do to the nodes of elements -/

variable {e e' parent child : ElementId} {m : TypeNode} {n n' y : ElementNode} {owner : TypeId}
  {s : Store} {ν κ α : Type}

/-- The node of an element. -/
def Store.HasElement (s : Store) (e : ElementId) (n : ElementNode) : Prop :=
  s.elements[e.index]? = some (.node n)

/-- The elements of the two stores are the same, and their nodes are replaced. -/
def Store.Maps (g : ElementId → ElementNode → ElementNode) (s t : Store) : Prop :=
  ∀ (e : ElementId) (x : ElementNode), t.HasElement e x ↔ ∃ y, s.HasElement e y ∧ x = g e y

namespace Store

variable {s t u : Store} {e : ElementId} {n n' : ElementNode}
  {f g : ElementId → ElementNode → ElementNode} {old slot : Slot ElementNode ElementId}

theorem HasElement.unique (h : s.HasElement e n) (h' : s.HasElement e n') : n = n' := by
  have hsame := h.symm.trans h'
  cases hsame
  rfl

theorem Maps.trans (h₁ : Maps f s t) (h₂ : Maps g t u) : Maps (fun e y => g e (f e y)) s u := by
  intro e x
  rw [h₂]
  constructor
  · rintro ⟨y, hy, rfl⟩
    obtain ⟨z, hz, rfl⟩ := (h₁ _ _).1 hy
    exact ⟨z, hz, rfl⟩
  · rintro ⟨z, hz, rfl⟩
    exact ⟨f e z, (h₁ _ _).2 ⟨z, hz, rfl⟩, rfl⟩

theorem maps_of_elements (h : t.elements = s.elements) : Maps (fun _ y => y) s t := by
  intro e x
  unfold HasElement
  rw [h]
  exact ⟨fun hx => ⟨x, hx, rfl⟩, fun ⟨y, hy, hxy⟩ => hxy ▸ hy⟩

theorem Maps.congr (h : Maps f s t)
    (hfg : ∀ {e y}, s.HasElement e y → f e y = g e y) : Maps g s t := by
  intro e x
  rw [h]
  refine exists_congr fun y => and_congr_right fun hy => ?_
  rw [hfg hy]

/-- A slot that holds no node is replaced by another. -/
theorem maps_setSlot (hold : s.elements[e.index]? = some old)
    (hopen : ∀ n, old ≠ .node n) (new : Slot ElementNode ElementId) (hnew : ∀ n, new ≠ .node n) :
    Maps (fun _ y => y) s (Shelf.elements.setSlot e new s) := by
  intro e' x
  unfold HasElement
  show (s.elements.setIfInBounds e.index new)[e'.index]? = _ ↔ _
  by_cases hee : e.index = e'.index
  · rw [← hee, Slot.get_set hold, hold]
    constructor
    · intro h
      exact absurd (Option.some.inj h) (hnew x)
    · rintro ⟨y, hy, -⟩
      exact absurd (Option.some.inj hy) (hopen y)
  · rw [Array.getElem?_setIfInBounds_ne hee]
    exact ⟨fun hx => ⟨x, hx, rfl⟩, fun ⟨y, hy, hxy⟩ => hxy ▸ hy⟩

theorem maps_setElementNode (h : s.HasElement e n) (n' : ElementNode) :
    Maps (fun e' y => if e' = e then n' else y) s (s.setElementNode e n') := by
  intro e' x
  unfold HasElement setElementNode
  by_cases hee : e' = e
  · subst hee
    rw [Slot.get_set h]
    simp only [if_true]
    constructor
    · intro hx
      cases hx
      exact ⟨n, h, rfl⟩
    · rintro ⟨-, -, rfl⟩
      rfl
  · have hne : e.index ≠ e'.index := fun h => hee (congrArg ElementId.mk h).symm
    rw [Array.getElem?_setIfInBounds_ne hne]
    simp only [if_neg hee]
    exact ⟨fun hx => ⟨x, hx, rfl⟩, fun ⟨y, hy, hxy⟩ => hxy ▸ hy⟩

/-- A new slot of an element. -/
theorem hasElement_push : HasElement { s with elements := s.elements.push slot } e n ↔
      s.HasElement e n ∨ e.index = s.elements.size ∧ slot = .node n := by
  unfold HasElement
  rw [Array.getElem?_push]
  split
  · next h =>
    simp [h]
  · next h => simp [h]

end Store

/-! ### Edits -/

/-- The two nodes are of the same kind and have the same links. -/
structure ElementNode.Agrees (n n' : ElementNode) : Prop where
  kind : n'.kind = n.kind
  type : n'.type = n.type
  enclosing : n'.enclosing = n.enclosing
  members : ∀ role, n'.members role = n.members role

theorem ElementNode.Agrees.refl (n : ElementNode) : n.Agrees n :=
  ⟨rfl, rfl, rfl, fun _ => rfl⟩

namespace ElementEdit

variable {edit : ElementEdit}

theorem typeParameters_applyToClass {k : ClassKind} {d d' : ClassDecl}
    (h : edit.applyToClass k d = .ok d') : d'.typeParameters = d.typeParameters := by
  cases edit with
  | nesting | superclass =>
    obtain ⟨new, -, h⟩ := exists_of_bind_eq_ok h
    cases h
    rfl
  | interface | permitted =>
    cases h
    rfl
  | _ => cases h

theorem members_applyToExecutable {k : ExecutableKind} {d d' : ExecutableDecl}
    (h : edit.applyToExecutable k d = .ok d') :
    d'.typeParameters = d.typeParameters ∧ d'.parameters = d.parameters := by
  cases edit with
  | varargs | isDefault | defaultValue =>
    obtain ⟨new, -, h⟩ := exists_of_bind_eq_ok h
    cases h
    exact ⟨rfl, rfl⟩
  | _ => cases h

theorem agrees_of_applyToDetail {detail : ElementDetail}
    (h : edit.applyToDetail n.detail = .ok detail) : n.Agrees { n with detail := detail } := by
  cases hd : n.detail with
  | type k d =>
    rw [hd] at h
    obtain ⟨d', hd', h⟩ := exists_of_bind_eq_ok h
    cases h
    have hparameters := typeParameters_applyToClass hd'
    refine ⟨by simp [ElementNode.kind, ElementDetail.kind, hd], rfl, rfl, fun role => ?_⟩
    cases role <;>
      simp [ElementNode.members, ElementNode.typeParameters, ElementNode.parameters, hd, hparameters]
  | executable k d =>
    rw [hd] at h
    obtain ⟨d', hd', h⟩ := exists_of_bind_eq_ok h
    cases h
    obtain ⟨htypeParameters, hparameters⟩ := members_applyToExecutable hd'
    refine ⟨by simp [ElementNode.kind, ElementDetail.kind, hd], rfl, rfl, fun role => ?_⟩
    cases role <;>
      simp [ElementNode.members, ElementNode.typeParameters, ElementNode.parameters, hd, hparameters,
        htypeParameters]
  | var k c =>
    rw [hd] at h
    cases edit with
    | constant =>
      obtain ⟨c', -, h⟩ := exists_of_bind_eq_ok h
      cases h
      refine ⟨by simp [ElementNode.kind, ElementDetail.kind, hd], rfl, rfl, fun role => ?_⟩
      cases role <;>
        simp [ElementNode.members, ElementNode.typeParameters, ElementNode.parameters, hd]
    | _ => cases h
  | _ =>
    rw [hd] at h
    cases h

/-- Filling in an element alone leaves its links as they are. -/
theorem agrees_of_applyTo {n n' : ElementNode} (h : edit.applyTo n = .ok n') : n.Agrees n' := by
  cases edit with
  | simpleName =>
    obtain ⟨new, -, h⟩ := exists_of_bind_eq_ok h
    cases h
    exact ⟨rfl, rfl, rfl, fun role => by cases role <;> rfl⟩
  | modifier m =>
    cases h
    split
    · exact .refl n
    · exact ⟨rfl, rfl, rfl, fun role => by cases role <;> rfl⟩
  | annotate =>
    cases h
    exact ⟨rfl, rfl, rfl, fun role => by cases role <;> rfl⟩
  | _ =>
    obtain ⟨detail, hdetail, h⟩ := exists_of_bind_eq_ok h
    cases h
    exact agrees_of_applyToDetail hdetail

end ElementEdit

theorem ElementNode.agrees_accessor {old : Option ElementId}
    (hn : n.detail = .recordComponent old) (new : Option ElementId) :
    n.Agrees { n with detail := .recordComponent new } := by
  refine ⟨by simp [kind, ElementDetail.kind, hn], rfl, rfl, fun role => ?_⟩
  cases role <;> simp [members, typeParameters, parameters, hn]

/-! ### Types -/

/-- Whether types of the kind know the element that they are the type of. -/
def TypeKind.hasElement : TypeKind → Bool
  | .declared | .error | .typeVar => true
  | _ => false

@[simp] theorem TypeNode.kind_linked (m : TypeNode) (e : ElementId) : (m.linked e).kind = m.kind := by
  unfold TypeNode.linked TypeNode.kind
  split <;> simp_all [TypeShape.kind]

theorem TypeNode.element_linked (e : ElementId) (h : m.kind.hasElement = true) :
    (m.linked e).element = some e := by
  obtain ⟨shape, annotations⟩ := m
  cases shape <;> first | rfl | cases h

/-- A handle leads to the same node after the content of a node was replaced. -/
theorem Slot.peek_setIfInBounds {slots : Array (Slot ν κ)} {i : Nat} {v : ν}
    (hi : slots[i]? = some (.node v)) (index : κ → Nat) (new : ν) :
    ∀ (n : Nat) (k : κ), Slot.peek (slots.setIfInBounds i (.node new)) index n k =
      (Slot.peek slots index n k).map fun found =>
        (found.1, if index found.1 = i then new else found.2)
  | 0, _ => rfl
  | n + 1, k => by
      unfold Slot.peek
      by_cases hki : index k = i
      · rw [hki, hi, Slot.get_set hi]
        simp [hki]
      · rw [Array.getElem?_setIfInBounds_ne fun h => hki h.symm]
        split
        · simp [hki]
        · exact Slot.peek_setIfInBounds hi index new n _
        · rfl

theorem Store.peekType_setTypeNode
    (h : s.types[owner.index]? = some (.node m)) (new : TypeNode) (k : TypeId) :
    (s.setTypeNode owner new).peekType k =
      (s.peekType k).map fun found => (found.1, if found.1 = owner then new else found.2) := by
  have hsame : ∀ t : TypeId, t.index = owner.index ↔ t = owner := fun t =>
    ⟨fun h => congrArg TypeId.mk h, fun h => congrArg TypeId.index h⟩
  have hpeek := Slot.peek_setIfInBounds h TypeId.index new (s.types.size + 1) k
  simp only [hsame] at hpeek
  unfold Store.peekType
  rw [Store.size_types_setTypeNode]
  exact hpeek

theorem Store.peekType_setTypeNode_self {k : TypeId}
    (h : s.peekType k = some (owner, m)) (new : TypeNode) :
    (s.setTypeNode owner new).peekType k = some (owner, new) := by
  rw [Store.peekType_setTypeNode (Slot.slot_of_peek h), h, Option.map_some, if_pos rfl]

theorem Store.peekElement_setElementNode {owner : ElementId} {m : ElementNode}
    (h : s.elements[owner.index]? = some (.node m)) (new : ElementNode) (k : ElementId) :
    (s.setElementNode owner new).peekElement k =
      (s.peekElement k).map fun found => (found.1, if found.1 = owner then new else found.2) := by
  have hsame : ∀ e : ElementId, e.index = owner.index ↔ e = owner := fun e =>
    ⟨fun h => congrArg ElementId.mk h, fun h => congrArg ElementId.index h⟩
  have hpeek := Slot.peek_setIfInBounds h ElementId.index new (s.elements.size + 1) k
  simp only [hsame] at hpeek
  unfold Store.peekElement
  rw [Store.size_elements_setElementNode]
  exact hpeek

theorem Store.peekElement_setElementNode_self {k owner : ElementId} {m : ElementNode}
    (h : s.peekElement k = some (owner, m)) (new : ElementNode) :
    (s.setElementNode owner new).peekElement k = some (owner, new) := by
  rw [Store.peekElement_setElementNode (Slot.slot_of_peek h), h, Option.map_some, if_pos rfl]

theorem Store.setElementNode_self
    (h : s.elements[e.index]? = some (.node n)) : s.setElementNode e n = s := by
  obtain ⟨hlt, hn⟩ := Array.getElem?_eq_some_iff.1 h
  have hsame : s.elements.setIfInBounds e.index (.node n) = s.elements := by
    rw [← hn, Array.setIfInBounds_def, dif_pos hlt, Array.set_getElem_self]
  rw [Store.setElementNode, hsame]

/-! ### The cases -/

/-- The node of an element after `child` was made a member of `parent`. -/
def ElementNode.afterAttach (role : Membership) (parent child : ElementId) (e : ElementId)
    (n : ElementNode) : ElementNode :=
  let n' := if e = child then { n with enclosing := some parent } else n
  if e = parent then n'.addMember role child else n'

/-- A step of an operation, as it is seen from the elements. -/
inductive Store.ElementChange (s t : Store) : Prop
  /-- An element is made. -/
  | new (k : ElementKind) (ht : t.elements = s.elements.push (.node { detail := .blank k }))
  /-- No link changes. -/
  | plain {g : ElementId → ElementNode → ElementNode} (hmaps : Maps g s t)
      (hagrees : ∀ {e n}, s.HasElement e n → n.Agrees (g e n))
  /-- An element becomes a member of another. -/
  | attach {parent child : ElementId} {m n : ElementNode} (hp : s.HasElement parent m)
      (hc : s.HasElement child n) (hkind : m.kind.canEnclose n.kind = true)
      (hfree : n.enclosing = none ∨ n.enclosing = some parent)
      (hmaps : Maps (ElementNode.afterAttach (Membership.of n.kind) parent child) s t)
  /-- An element is given its type. -/
  | type {e : ElementId} {n : ElementNode} {k : TypeId} (he : s.HasElement e n)
      (hmaps : Maps (fun e' y => if e' = e then { n with type := some k } else y) s t)
      (hlink : n.kind.linksBack = true → ∃ owner m, t.peekType k = some (owner, m) ∧
        (m.kind.hasElement = true → m.element = some e))

/-- A part that is given once is what is given, then or before. -/
theorem eq_some_of_setOnce [BEq α] [LawfulBEq α] {field : String} {old new : Option α}
    {a : α} (h : setOnce field old a = .ok new) : new = some a ∧ (old = none ∨ old = some a) := by
  cases old with
  | none =>
    cases h
    exact ⟨rfl, .inl rfl⟩
  | some v =>
    by_cases hv : v = a
    · simp [setOnce, setOnceBy, hv] at h
      exact ⟨h.symm, .inr (congrArg some hv)⟩
    · simp [setOnce, setOnceBy, hv] at h

/-- The node of one element is replaced by one that agrees with it. -/
theorem Store.agrees_ite (h : s.HasElement e n) (hagrees : n.Agrees n') (hy : s.HasElement e' y) :
    y.Agrees (if e' = e then n' else y) := by
  split
  · next hee =>
    subst hee
    rw [hy.unique h]
    exact hagrees
  · exact .refl y

theorem Store.maps_withMember {role : Membership}
    {m : ElementNode} (hp : s.HasElement parent m) (hc : s.HasElement child n) :
    Maps (.afterAttach role parent child) s
      (s.withMember role parent child m { n with enclosing := some parent }) := by
  have hchild := maps_setElementNode hc { n with enclosing := some parent }
  have hmember : HasElement (s.setElementNode child { n with enclosing := some parent }) parent
      (if parent = child then { n with enclosing := some parent } else m) :=
    (hchild _ _).2 ⟨m, hp, rfl⟩
  refine (hchild.trans (maps_setElementNode hmember _)).congr fun {e y} hy => ?_
  unfold ElementNode.afterAttach
  -- The node of either element is the one that was found before the step.
  by_cases hep : e = parent
  · subst hep
    by_cases hec : e = child
    · subst hec
      simp [hy.unique hc]
    · simp [hec, hy.unique hp]
  · by_cases hec : e = child
    · subst hec
      simp [hep, hy.unique hc]
    · simp [hep, hec]

/-- Every step is one of the four cases. -/
theorem Store.Change.elementChange {t : Store} (h : Change s t) : ElementChange s t := by
  have hsame (ht : t.elements = s.elements) : ElementChange s t :=
    .plain (maps_of_elements ht) fun _ => .refl _
  cases h with
  | names => exact hsame rfl
  | newType => exact hsame rfl
  | newElement k => exact .new k rfl
  | deferType => exact hsame rfl
  | deferElement supplier =>
    refine .plain ?_ fun _ => .refl _
    intro e x
    rw [hasElement_push]
    simp
  | startType => exact hsame rfl
  | startElement h =>
    have hmaps := maps_setSlot h (fun _ => nofun) .running fun _ => nofun
    exact .plain hmaps fun _ => .refl _
  | finishType => exact hsame rfl
  | finishElement h hslot =>
    refine .plain (maps_setSlot h (fun _ => nofun) _ fun n hn => ?_) fun _ => .refl _
    obtain ⟨target, rfl⟩ | ⟨fault, rfl⟩ := hslot <;> cases hn
  | editType => exact hsame rfl
  | editElement h hedit =>
    exact .plain (maps_setElementNode h _) (agrees_ite h (ElementEdit.agrees_of_applyTo hedit))
  | setAccessor h hn hset =>
    exact .plain (maps_setElementNode h _) (agrees_ite h (ElementNode.agrees_accessor hn _))
  | attach hp hc hset =>
    unfold ElementNode.enclosedBy at hset
    split at hset
    · next hkind =>
      obtain ⟨enclosing, henclosing, hset⟩ := exists_of_bind_eq_ok hset
      cases hset
      obtain ⟨rfl, hfree⟩ := eq_some_of_setOnce henclosing
      exact .attach hp hc hkind hfree (maps_withMember hp hc)
    · cases hset
  | setType h hkind hset =>
    obtain ⟨rfl, -⟩ := eq_some_of_setOnce hset
    refine .type h (maps_setElementNode h _) fun hlinks => ?_
    rw [hkind] at hlinks
    cases hlinks
  | linkType h hkind hset ht hfree =>
    obtain ⟨rfl, -⟩ := eq_some_of_setOnce hset
    refine .type h (maps_setElementNode h _) fun _ => ⟨_, _, peekType_setTypeNode_self ht _, ?_⟩
    rw [TypeNode.kind_linked]
    exact TypeNode.element_linked _

end JavaTypes
