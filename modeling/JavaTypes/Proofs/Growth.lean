import JavaTypes.Proofs.CompletedSlots

/-!
# Completion only adds

`s ≤ t` for two stores says that every slot of `s` whose content is final has the same content in
`t`, that `t` has no fewer slots, and that the names are the same.

* `Store.Completion.le`: to complete handles leads upwards in this order;
* `settles_viewType`, `settles_viewElement`: a handle that was completed once is completed to the same
  node ever after;
* `known_viewType`, `known_viewElement`: the nodes known in a store are those that can be peeked at.
-/

namespace JavaTypes

/-! ### The order of stores -/

variable {k : TypeId} {s s' t : Store} {ν κ : Type} {slots slots' : Array (Slot ν κ)}
  {found : TypeId × TypeNode}

/-- The second store has all that is settled in the first. -/
structure Store.Grows (s t : Store) : Prop where
  types : Slot.Kept s.types t.types
  elements : Slot.Kept s.elements t.elements
  size_types : s.types.size ≤ t.types.size
  size_elements : s.elements.size ≤ t.elements.size
  registry : t.registry = s.registry
  labels : t.labels = s.labels

instance : LE Store where
  le := Store.Grows

instance : Preorder Store where
  le_refl s :=
    { types := fun _ _ h _ => h
      elements := fun _ _ h _ => h
      size_types := le_refl _
      size_elements := le_refl _
      registry := rfl
      labels := rfl }
  le_trans s t u h₁ h₂ :=
    { types := fun i slot h hf => h₂.types i slot (h₁.types i slot h hf) hf
      elements := fun i slot h hf => h₂.elements i slot (h₁.elements i slot h hf) hf
      size_types := le_trans h₁.size_types h₂.size_types
      size_elements := le_trans h₁.size_elements h₂.size_elements
      registry := h₂.registry.trans h₁.registry
      labels := h₂.labels.trans h₁.labels }

/-- Completed slots and new nodes take nothing away. -/
theorem Store.Completion.le (h : s.Completion t) : s ≤ t where
  types := h.types.kept
  elements := h.elements.kept
  size_types := h.types.size_le
  size_elements := h.elements.size_le
  registry := h.registry
  labels := h.labels

/-! ### Slots that are kept -/

/-- Replacing a slot that is not final, or one that the earlier store does not have, keeps what was
there. -/
theorem Slot.Kept.set (h : Slot.Kept slots slots')
    {i : Nat} (hi : ∀ slot, slots[i]? = some slot → slot.isFinal = false) (new : Slot ν κ) :
    Slot.Kept slots (slots'.setIfInBounds i new) := by
  intro k slot hk hf
  have hne : i ≠ k := by
    rintro rfl
    rw [hi slot hk] at hf
    cases hf
  rw [Array.getElem?_setIfInBounds_ne hne]
  exact h k slot hk hf

theorem Slot.Kept.push (h : Slot.Kept slots slots')
    (new : Slot ν κ) : Slot.Kept slots (slots'.push new) := by
  intro k slot hk hf
  exact Slot.get_push (h k slot hk hf) new

/-! ### Walks -/

namespace Shelf

variable {ν κ : Type}

/-- What the two arrays of slots of a store have in common. -/
structure Lawful (shelf : Shelf ν κ) : Prop where
  wraps : shelf.Wraps Store.Completion
  completed : ∀ {s t : Store}, s.Completion t → Slot.Completed (shelf.slots s) (shelf.slots t)
  slots_start : ∀ (k : κ) (s : Store),
    shelf.slots (shelf.start k s) = (shelf.slots s).setIfInBounds (shelf.index k) .running
  slots_setSlot : ∀ (k : κ) (slot : Slot ν κ) (s : Store), shelf.slots (shelf.setSlot k slot s) =
      (shelf.slots s).setIfInBounds (shelf.index k) slot

theorem lawful_types : Lawful types where
  wraps := respected_completion.types
  completed h := h.types
  slots_start _ _ := rfl
  slots_setSlot _ _ _ := rfl

theorem lawful_elements : Lawful elements where
  wraps := respected_completion.elements
  completed h := h.elements
  slots_start _ _ := rfl
  slots_setSlot _ _ _ := rfl

variable {shelf : Shelf ν κ} {run : Supplier κ → Build κ}

theorem complete_apply (run : Supplier κ → Build κ) (k : κ) (supplier : Supplier κ) (s : Store) :
    shelf.complete run k supplier s = ((run supplier (shelf.start k s)).1,
      shelf.setSlot k (.ofOutcome (run supplier (shelf.start k s)).1)
        (run supplier (shelf.start k s)).2) := by
  unfold complete
  cases run supplier (shelf.start k s) with
  | mk r s' => cases r <;> rfl

/-- A slot keeps what its supplier ended with. -/
theorem slots_of_complete (hl : shelf.Lawful) (hrun : ∀ p s, Store.Completion s (run p s).2) {k : κ}
    {supplier : Supplier κ} {r : Except Fault κ}
    (hk : (shelf.slots s)[shelf.index k]? = some (.pending supplier))
    (h : shelf.complete run k supplier s = (r, s')) :
    (shelf.slots s')[shelf.index k]? = some (.ofOutcome r) := by
  obtain ⟨hlt, -⟩ := Array.getElem?_eq_some_iff.1 hk
  have hsize := (hl.completed (hrun supplier (shelf.start k s))).size_le
  rw [hl.slots_start, Array.size_setIfInBounds] at hsize
  rw [complete_apply] at h
  obtain ⟨rfl, rfl⟩ := Prod.mk.inj h
  rw [hl.slots_setSlot, Array.getElem?_setIfInBounds_self_of_lt (lt_of_lt_of_le hlt hsize)]

theorem completion_follow (hl : shelf.Lawful) (hrun : ∀ p s, Store.Completion s (run p s).2)
    (n : Nat) (k : κ) (s : Store) : s.Completion (shelf.follow run n k s).2 :=
  respects_follow respected_completion hl.wraps
    (fun p s (_ : ∀ m ∈ ([] : List Making), True) => hrun p s) n k s fun _ _ => trivial

/-- What a walk found can be peeked at afterwards. -/
theorem peek_of_follow (hl : shelf.Lawful) (hrun : ∀ p s, Store.Completion s (run p s).2) :
    ∀ (n : Nat) (k : κ) {s s' : Store} {found : κ × ν}, shelf.follow run n k s = (.ok found, s') →
        Slot.peek (shelf.slots s') shelf.index n k = some found
  | 0, _, _, _, _, h => by cases h
  | n + 1, k, s, s', found, h => by
      have hlater := completion_follow hl hrun (n + 1) k s
      rw [h] at hlater
      unfold follow at h
      split at h
      · cases h
      · next v hk =>
        cases h
        exact Slot.peek_node hk n
      · next k' hk =>
        rw [Slot.peek_done ((hl.completed hlater).kept _ _ hk rfl) n]
        exact peek_of_follow hl hrun n k' h
      · cases h
      · cases h
      · next supplier hk =>
        obtain ⟨target, s₁, h₁, h₂⟩ := Action.bind_eq_ok h
        have hdone := slots_of_complete hl hrun hk h₁
        have hlater := completion_follow hl hrun n target s₁
        rw [h₂] at hlater
        rw [Slot.peek_done ((hl.completed hlater).kept _ _ hdone rfl) n]
        exact peek_of_follow hl hrun n target h₂

/-- A walk over completed slots changes nothing. -/
theorem follow_of_peek (run : Supplier κ → Build κ) :
    ∀ {n m : Nat} (_ : n ≤ m) (k : κ) {s : Store} {found : κ × ν},
      Slot.peek (shelf.slots s) shelf.index n k = some found →
        shelf.follow run m k s = (.ok found, s)
  | 0, _, _, _, _, _, h => by cases h
  | n + 1, 0, hnm, _, _, _, _ => by cases hnm
  | n + 1, m + 1, hnm, k, s, found, h => by
      unfold Slot.peek at h
      unfold follow
      split at h
      · next v hk =>
        rw [hk]
        cases h
        rfl
      · next k' hk =>
        rw [hk]
        exact follow_of_peek run (Nat.le_of_succ_le_succ hnm) k' h
      · cases h

end Shelf

/-- What can be peeked at stays. -/
theorem Slot.peek_mono {index : κ → Nat} (h : Slot.Kept slots slots') :
    ∀ {n m : Nat} (_ : n ≤ m) {k : κ} {found : κ × ν},
      Slot.peek slots index n k = some found → Slot.peek slots' index m k = some found
  | 0, _, _, _, _, hp => by cases hp
  | n + 1, 0, hnm, _, _, _ => by cases hnm
  | n + 1, m + 1, hnm, k, found, hp => by
      unfold Slot.peek at hp
      split at hp
      · next v hk =>
        rw [Slot.peek_node (h _ _ hk rfl)]
        exact hp
      · next k' hk =>
        rw [Slot.peek_done (h _ _ hk rfl)]
        exact Slot.peek_mono h (Nat.le_of_succ_le_succ hnm) hp
      · cases hp

/-! ### Completion -/

/-- Questions to a store complete handles. -/
instance : Evolving Store where
  Step s t := (∃ k, t = (viewType k s).2) ∨ ∃ k, t = (viewElement k s).2
  le_of_step := by
    rintro s t (⟨k, rfl⟩ | ⟨k, rfl⟩)
    · exact (completion_viewType k s).le
    · exact (completion_viewElement k s).le

/-- Questions to a store complete slots and add nodes. -/
theorem completion_of_leads (h : Leads s t) : s.Completion t := by
  induction h with
  | refl => exact .refl s
  | tail _ hstep ih =>
    obtain ⟨k, rfl⟩ | ⟨k, rfl⟩ := hstep
    · exact ih.trans (completion_viewType k _)
    · exact ih.trans (completion_viewElement k _)

theorem peekType_mono (h : s ≤ t) (hp : s.peekType k = some found) : t.peekType k = some found :=
  Slot.peek_mono h.types (Nat.succ_le_succ h.size_types) hp

theorem peekElement_mono (h : s ≤ t) {k : ElementId}
    {found : ElementId × ElementNode} (hp : s.peekElement k = some found) :
    t.peekElement k = some found :=
  Slot.peek_mono h.elements (Nat.succ_le_succ h.size_elements) hp

theorem peekType_of_viewType (h : viewType k s = (.ok found, s')) : s'.peekType k = some found := by
  have hlater := completion_viewType k s
  rw [h] at hlater
  have hp := Shelf.peek_of_follow Shelf.lawful_types (Supplier.completion_runWithin _) _ k h
  exact Slot.peek_mono (fun _ _ hk _ => hk) (Nat.succ_le_succ hlater.types.size_le) hp

theorem peekElement_of_viewElement {k : ElementId}
    {found : ElementId × ElementNode} (h : viewElement k s = (.ok found, s')) :
    s'.peekElement k = some found := by
  have hlater := completion_viewElement k s
  rw [h] at hlater
  have hp := Shelf.peek_of_follow Shelf.lawful_elements (Supplier.completion_runWithin _) _ k h
  exact Slot.peek_mono (fun _ _ hk _ => hk) (Nat.succ_le_succ hlater.elements.size_le) hp

theorem viewType_of_peekType (h : s.peekType k = some found) : viewType k s = (.ok found, s) :=
  Shelf.follow_of_peek _ (le_refl _) k h

theorem viewElement_of_peekElement {k : ElementId} {found : ElementId × ElementNode}
    (h : s.peekElement k = some found) : viewElement k s = (.ok found, s) :=
  Shelf.follow_of_peek _ (le_refl _) k h

/-- A type that was completed once is completed for good. -/
instance settles_viewType (k : TypeId) : Action.Settles (viewType k) (viewType k) where
  leads _ := .single (.inl ⟨k, rfl⟩)
  stays h ht := viewType_of_peekType (peekType_mono ht (peekType_of_viewType h))
  repeats := Action.Repeats.refl _

/-- An element that was completed once is completed for good. -/
instance settles_viewElement (k : ElementId) : Action.Settles (viewElement k) (viewElement k) where
  leads _ := .single (.inr ⟨k, rfl⟩)
  stays h ht := viewElement_of_peekElement (peekElement_mono ht (peekElement_of_viewElement h))
  repeats := Action.Repeats.refl _

theorem known_viewType : Action.Known (viewType k) s found ↔ s.peekType k = some found :=
  ⟨peekType_of_viewType, viewType_of_peekType⟩

theorem known_viewElement {k : ElementId} {found : ElementId × ElementNode} :
    Action.Known (viewElement k) s found ↔ s.peekElement k = some found :=
  ⟨peekElement_of_viewElement, viewElement_of_peekElement⟩

end JavaTypes
