import JavaTypes.Proofs.Completions
import JavaTypes.Proofs.SoundNodes

/-!
# Well-formed stores

A store is well-formed if every node in it is sound, and the shared types are as they were made.

* `Store.WellFormed.of_extends`: what is sound stays so when the store is extended, so for a step only
  the node that it makes or changes needs a second look;
* `Store.WellFormed.makeShape`: a type whose parts have completed handles leaves a well-formed store,
  also if some of them are refused;
* `Store.WellFormed.viewType`, `Store.WellFormed.viewElement`: so does a completion, if the types that
  are made on the way are such types.
-/

namespace JavaTypes

namespace Slot

variable {ν κ : Type} {slots slots' : Array (Slot ν κ)} {slot : Slot ν κ} {i k : Nat} {n : ν}

theorem node_of_push (h : (slots.push slot)[i]? = some (.node n)) :
    slots[i]? = some (.node n) ∨ i = slots.size ∧ slot = .node n := by
  rw [Array.getElem?_push] at h
  split at h
  · next hi => exact .inr ⟨hi, Option.some.inj h⟩
  · exact .inl h

theorem node_of_set (h : (slots.setIfInBounds k slot)[i]? = some (.node n)) :
    slots[i]? = some (.node n) ∨ k = i ∧ slot = .node n := by
  rw [Array.getElem?_setIfInBounds] at h
  split at h
  · next hki =>
    split at h
    · exact .inr ⟨hki, Option.some.inj h⟩
    · cases h
  · exact .inl h

theorem IsOutcome.ne_node (h : slot.IsOutcome) : slot ≠ .node n := by
  rcases h with ⟨target, rfl⟩ | ⟨fault, rfl⟩ <;> rintro ⟨⟩

end Slot

/-! ### Well-formed stores -/

variable {s s' : Store} {t : TypeId}

/-- Every node is sound, and the shared types are as they were made. -/
structure Store.WellFormed (s : Store) : Prop where
  types : ∀ {t : TypeId} {n : TypeNode}, s.types[t.index]? = some (.node n) → n.Sound s t
  elements : ∀ {e : ElementId} {n : ElementNode}, s.HasElement e n → n.Sound s
  shared : ∀ {i : Nat} {shape : TypeShape}, Store.sharedShapes[i]? = some shape →
    s.types[i]? = some (.node { shape := shape })

namespace Store

variable {s s' : Store}

theorem blank_sharedShapes : ∀ shape ∈ sharedShapes, shape.blank = shape := by
  decide

theorem isFrozen_sharedShapes : ∀ i : Fin 14, ∀ shape ∈ sharedShapes[i.val]?,
    shape.isFrozen ⟨i.val⟩ = true ∧ shape.kind ≠ .error := by
  decide

theorem wellFormed_empty : WellFormed empty := by
  have hslot : ∀ i : Nat, empty.types[i]? =
      sharedShapes[i]?.map fun shape => .node { shape := shape } := fun i => by simp [empty]
  refine ⟨fun {t n} hn => ?_, fun {e n} hn => ?_, fun {i shape} hi => ?_⟩
  · rw [hslot] at hn
    obtain ⟨shape, hshape, hn⟩ := Option.map_eq_some_iff.1 hn
    cases hn
    rw [← blank_sharedShapes shape (List.mem_of_getElem? hshape)]
    exact TypeNode.sound_blank _ _ shape
  · cases hn
  · rw [hslot, hi]
    rfl

theorem extends_pushType (s : Store) (slot : Slot TypeNode TypeId) :
    s.Extends { s with types := s.types.push slot } :=
  ⟨.push .refl _ _, .refl .refl _⟩

namespace WellFormed

variable {slot : Slot TypeNode TypeId}

/-- What is sound stays so when the store is extended. -/
theorem of_extends (h : s.WellFormed) (hext : s.Extends s')
    (htypes : ∀ {t : TypeId} {n : TypeNode}, s'.types[t.index]? = some (.node n) → n.Sound s t)
    (helements : ∀ {e : ElementId} {n : ElementNode}, s'.HasElement e n → n.Sound s)
    (hshared : ∀ {i : Nat}, i < sharedShapes.length → s'.types[i]? = s.types[i]?) :
    s'.WellFormed where
  types hn := (htypes hn).extend hext
  elements hn := (helements hn).extend hext
  shared hi := by
    obtain ⟨hlt, -⟩ := List.getElem?_eq_some_iff.1 hi
    rw [hshared hlt]
    exact h.shared hi

/-- There are no fewer slots than shared types. -/
theorem length_le_size (h : s.WellFormed) : sharedShapes.length ≤ s.types.size := by
  obtain ⟨hlt, -⟩ := Array.getElem?_eq_some_iff.1 (h.shared (i := 13) rfl)
  exact hlt

/-- The slot of a shared type holds a type that never changes, and that does not stand for an error. -/
theorem slot_of_lt (h : s.WellFormed) (hlt : t.index < sharedShapes.length) :
    ∃ shape, s.types[t.index]? = some (.node { shape := shape }) ∧ shape.isFrozen t = true ∧
      shape.kind ≠ .error := by
  have hi : sharedShapes[t.index]? = some sharedShapes[t.index] := List.getElem?_eq_getElem hlt
  exact ⟨_, h.shared hi, isFrozen_sharedShapes ⟨t.index, hlt⟩ _ hi⟩

/-- A type that can change, or that stands for an error, is not shared. -/
theorem length_le_of_node (h : s.WellFormed) {n : TypeNode}
    (hn : s.types[t.index]? = some (.node n)) (hk : n.shape.isFrozen t = false ∨ n.kind = .error) :
    sharedShapes.length ≤ t.index := by
  by_contra hlt
  obtain ⟨shape, hshape, hfrozen, hkind⟩ := h.slot_of_lt (Nat.lt_of_not_le hlt)
  cases hn.symm.trans hshape
  rcases hk with hk | hk
  · exact Bool.noConfusion (hfrozen.symm.trans hk)
  · exact hkind hk

/-- A slot without a node is not that of a shared type. -/
theorem length_le_of_deferred (h : s.WellFormed)
    (ht : s.types[t.index]? = some slot) (hslot : slot.isFinal = false) :
    sharedShapes.length ≤ t.index := by
  by_contra hlt
  obtain ⟨shape, hshape, -⟩ := h.slot_of_lt (Nat.lt_of_not_le hlt)
  cases ht.symm.trans hshape
  cases hslot

/-! ### Slots -/

theorem names (h : s.WellFormed) (registry : Registry) (labels : Labels) :
    WellFormed { s with registry := registry, labels := labels } :=
  h.of_extends (extends_of_change (.names registry labels)) h.types h.elements fun _ => rfl

/-- A slot is added for a type. -/
theorem pushType (h : s.WellFormed) (hslot : ∀ n, slot = .node n → n.Sound s ⟨s.types.size⟩) :
    WellFormed { s with types := s.types.push slot } := by
  refine h.of_extends (extends_pushType s slot) (fun {t n} hn => ?_) h.elements fun {i} hi => ?_
  · rcases Slot.node_of_push hn with hold | ⟨ht, hnew⟩
    · exact h.types hold
    · obtain rfl : t = ⟨s.types.size⟩ := congrArg TypeId.mk ht
      exact hslot n hnew
  · have hsize := h.length_le_size
    rw [Array.getElem?_push, if_neg (by omega)]

/-- A slot is added for an element. -/
theorem pushElement (h : s.WellFormed) {slot : Slot ElementNode ElementId}
    (hslot : ∀ n, slot = .node n → n.Sound s) :
    WellFormed { s with elements := s.elements.push slot } := by
  have hext : s.Extends { s with elements := s.elements.push slot } :=
    ⟨.refl .refl _, .push .refl _ _⟩
  refine h.of_extends hext h.types (fun {e n} hn => ?_) fun _ => rfl
  rcases Slot.node_of_push hn with hold | ⟨-, hnew⟩
  · exact h.elements hold
  · exact hslot n hnew

/-- The slot of a type that is not shared is replaced. -/
theorem setType (h : s.WellFormed) (hext : s.Extends s')
    (htypes : s'.types = s.types.setIfInBounds t.index slot) (helements : s'.elements = s.elements)
    (ht : sharedShapes.length ≤ t.index) (hslot : ∀ n, slot = .node n → n.Sound s t) :
    s'.WellFormed := by
  refine h.of_extends hext (fun {u n} hn => ?_) (fun {e n} hn => ?_) fun {i} hi => ?_
  · rw [htypes] at hn
    rcases Slot.node_of_set hn with hold | ⟨htu, hnew⟩
    · exact h.types hold
    · obtain rfl : t = u := congrArg TypeId.mk htu
      exact hslot n hnew
  · unfold HasElement at hn
    rw [helements] at hn
    exact h.elements hn
  · rw [htypes]
    exact Array.getElem?_setIfInBounds_ne (by omega)

/-- The slot of an element is replaced. -/
theorem setElement (h : s.WellFormed) (hext : s.Extends s') {e : ElementId}
    {slot : Slot ElementNode ElementId}
    (helements : s'.elements = s.elements.setIfInBounds e.index slot) (htypes : s'.types = s.types)
    (hslot : ∀ n, slot = .node n → n.Sound s) : s'.WellFormed := by
  refine h.of_extends hext (fun {t n} hn => ?_) (fun {d n} hn => ?_) fun {i} _ => ?_
  · rw [htypes] at hn
    exact h.types hn
  · unfold HasElement at hn
    rw [helements] at hn
    rcases Slot.node_of_set hn with hold | ⟨-, hnew⟩
    · exact h.elements hold
    · exact hslot n hnew
  · rw [htypes]

end WellFormed

end Store

/-! ### Types with known parts -/

theorem Store.knowsType_extend (hext : s.Extends s')
    (h : s.knowsType t = true) : s'.knowsType t = true := by
  obtain ⟨u, n, ht⟩ := knowsType_iff.1 h
  obtain ⟨n', ht', -⟩ := hext.peekType ht
  exact knowsType_iff.2 ⟨u, n', ht'⟩

theorem Store.knowsElement_extend (hext : s.Extends s') {e : ElementId}
    (h : s.knowsElement e = true) : s'.knowsElement e = true := by
  obtain ⟨d, n, he⟩ := knowsElement_iff.1 h
  obtain ⟨n', he', -⟩ := hext.peekElement he
  exact knowsElement_iff.2 ⟨d, n', he'⟩

theorem TypeEdit.isKnown_extend (hext : s.Extends s') {edit : TypeEdit}
    (h : edit.isKnown s = true) : edit.isKnown s' = true := by
  cases edit with
  | definingElement e => exact Store.knowsElement_extend hext h
  | erased | annotate => rfl
  | _ => exact Store.knowsType_extend hext h

/-- All handles that make up a shape are completed. -/
def TypeShape.isKnown (s : Store) (shape : TypeShape) : Bool :=
  shape.edits.all (TypeEdit.isKnown s)

theorem TypeEdit.isFrozen_of_applyTo {n n' : TypeNode} {edit : TypeEdit}
    (h : edit.applyTo s t n = .ok n') : n.shape.isFrozen t = false := by
  unfold applyTo at h
  split at h
  · cases h
  · next hfrozen => exact Bool.eq_false_iff.2 hfrozen

namespace Store.WellFormed

variable {s : Store} {n n' : TypeNode} {edit : TypeEdit} {e : ElementId}

/-- One action after another. -/
theorem bind {α β : Type} {x : Build α} {f : α → Build β} (hx : (x s).2.WellFormed)
    (hf : ∀ {a s'}, x s = (.ok a, s') → s'.WellFormed → (f a s').2.WellFormed) :
    ((x >>= f) s).2.WellFormed := by
  rw [Action.bind_apply]
  cases hs : x s with
  | mk r s' =>
    rw [hs] at hx
    cases r with
    | ok a => exact hf hs hx
    | error e => exact hx

theorem setTypeNode (h : s.WellFormed)
    (hn : s.types[t.index]? = some (.node n)) (hknown : edit.isKnown s = true)
    (hedit : edit.applyTo s t n = .ok n') : (s.setTypeNode t n').WellFormed := by
  have ht := h.length_le_of_node hn (.inl (TypeEdit.isFrozen_of_applyTo hedit))
  refine h.setType (extends_of_change (.editType hn hedit)) rfl rfl ht fun m hm => ?_
  cases hm
  exact (h.types hn).applyTo hknown hedit

theorem editTypeNode (h : s.WellFormed)
    (hn : s.types[t.index]? = some (.node n)) (hknown : edit.isKnown s = true) :
    (editTypeNode t n edit s).2.WellFormed := by
  unfold JavaTypes.editTypeNode
  cases hedit : edit.applyTo s t n with
  | error f => exact h
  | ok n' => exact h.setTypeNode hn hknown hedit

/-- A type whose parts have completed handles is made. If a part is refused, the type stays as far as it
was filled in. -/
theorem makeShape (h : s.WellFormed) {shape : TypeShape} (hknown : shape.isKnown s = true) :
    (makeShape shape s).2.WellFormed := by
  have hmade : (makeType { shape := shape.blank } s).2.WellFormed := by
    refine h.pushType fun n hn => ?_
    cases hn
    exact TypeNode.sound_blank s _ shape
  -- The parts that are known stay known while the type is filled in.
  exact (makeShape_induction (I := fun t => t.WellFormed ∧ s.Extends t)
    ⟨hmade, extends_pushType s _⟩ fun {_ _ _ edit} hmem ht hn hedit =>
      ⟨ht.1.setTypeNode hn (TypeEdit.isKnown_extend ht.2 (List.all_eq_true.1 hknown edit hmem)) hedit,
        ht.2.trans (extends_of_change (.editType hn hedit))⟩).1

theorem newElement (h : s.WellFormed) (k : ElementKind) : (newElement k s).2.WellFormed := by
  refine h.pushElement fun n hn => ?_
  cases hn
  exact ElementNode.sound_blank s k

/-! ### Completions -/

theorem start_type (h : s.WellFormed) {supplier : Supplier TypeId}
    (ht : s.types[t.index]? = some (.pending supplier)) : (Shelf.types.start t s).WellFormed := by
  refine h.setType (extends_of_change (.startType ht)) rfl rfl (h.length_le_of_deferred ht rfl) ?_
  rintro n ⟨⟩

theorem start_element (h : s.WellFormed) {supplier : Supplier ElementId}
    (he : s.elements[e.index]? = some (.pending supplier)) :
    (Shelf.elements.start e s).WellFormed := by
  refine h.setElement (extends_of_change (.startElement he)) rfl rfl ?_
  rintro n ⟨⟩

theorem finish_type (h : s.WellFormed) {slot : Slot TypeNode TypeId}
    (ht : s.types[t.index]? = some .running) (hslot : slot.IsOutcome) :
    (Shelf.types.setSlot t slot s).WellFormed :=
  h.setType (extends_of_change (.finishType ht hslot)) rfl rfl (h.length_le_of_deferred ht rfl)
    fun _ hn => absurd hn hslot.ne_node

theorem finish_element (h : s.WellFormed) {slot : Slot ElementNode ElementId}
    (he : s.elements[e.index]? = some .running) (hslot : slot.IsOutcome) :
    (Shelf.elements.setSlot e slot s).WellFormed :=
  h.setElement (extends_of_change (.finishElement he hslot)) rfl rfl
    fun _ hn => absurd hn hslot.ne_node

end Store.WellFormed

/-- Completions keep a store well-formed as long as the types that are made have known parts. -/
theorem respected_wellFormed : Store.Respected (fun shape s => shape.isKnown s = true)
    fun s t => s.Completion t ∧ (s.WellFormed → t.WellFormed) where
  refl s := ⟨.refl s, id⟩
  trans h₁ h₂ := ⟨h₁.1.trans h₂.1, fun h => h₂.2 (h₁.2 h)⟩
  makeShape hknown := ⟨completion_makeShape _ _, fun h => h.makeShape hknown⟩
  makeElement k s := ⟨respected_completion.makeElement k s, fun h => h.newElement k⟩
  types {t _ s _ _} hk h hslot := by
    refine ⟨respected_completion.types hk h.1 hslot, fun hs => ?_⟩
    exact (h.2 (hs.start_type hk)).finish_type (h.1.types.running hk) hslot
  elements {e _ s _ _} hk h hslot := by
    refine ⟨respected_completion.elements hk h.1 hslot, fun hs => ?_⟩
    exact (h.2 (hs.start_element hk)).finish_element (h.1.elements.running hk) hslot

namespace Store.WellFormed

variable {s : Store}

theorem viewType (h : s.WellFormed)
    (hmade : ∀ m ∈ s.typeMakings t, m.shape.isKnown m.store = true) : (viewType t s).2.WellFormed :=
  (respects_viewType respected_wellFormed hmade).2 h

theorem viewElement (h : s.WellFormed) {e : ElementId}
    (hmade : ∀ m ∈ s.elementMakings e, m.shape.isKnown m.store = true) :
    (viewElement e s).2.WellFormed :=
  (respects_viewElement respected_wellFormed hmade).2 h

end Store.WellFormed

end JavaTypes
