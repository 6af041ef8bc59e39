import JavaTypes.Completion
import JavaTypes.Proofs.Settling
import Mathlib.Order.Nat

/-!
# What completions do to slots

A completion starts suppliers, and these complete other handles and make types. `Store.Respected P R`
says what has to be checked of a relation `R` between stores so that every completion respects it,
provided that the types made on the way are of the sort `P`.

* `Store.typeMakings`, `Store.elementMakings`: the types that are made on the way, each with the store
  in which it is made;
* `Store.Completion s t`: the store `t` is `s` with some pending slots completed and some nodes added.
  All that a completion does is of this sort (`completion_viewType`, `completion_viewElement`).
-/

namespace JavaTypes

variable {ν κ : Type} {slots : Array (Slot ν κ)} {slot : Slot ν κ}

open Action

/-! ### Slots -/

/-- Whether the content of a slot is final. -/
def Slot.isFinal {ν κ : Type} : Slot ν κ → Bool
  | node _ | done _ | failed _ => true
  | pending _ | running => false

/-- What a supplier that has ended leaves in its slot. -/
def Slot.ofOutcome {ν κ : Type} : Except Fault κ → Slot ν κ
  | .ok target => done target
  | .error fault => failed fault

theorem Slot.get_push {i : Nat}
    (h : slots[i]? = some slot) (new : Slot ν κ) : (slots.push new)[i]? = some slot := by
  obtain ⟨hlt, -⟩ := Array.getElem?_eq_some_iff.1 h
  rw [Array.getElem?_push_lt hlt, ← h, Array.getElem?_eq_getElem hlt]

theorem Slot.get_set {i : Nat}
    (h : slots[i]? = some slot) (new : Slot ν κ) : (slots.setIfInBounds i new)[i]? = some new :=
  Array.getElem?_setIfInBounds_self_of_lt (Array.getElem?_eq_some_iff.1 h).1

/-- Every final slot of the first array has the same content in the second. -/
def Slot.Kept {ν κ : Type} (slots slots' : Array (Slot ν κ)) : Prop :=
  ∀ (i : Nat) (slot : Slot ν κ), slots[i]? = some slot → slot.isFinal = true →
    slots'[i]? = some slot

/-- What a supplier leaves in its slot. -/
def Slot.IsOutcome {ν κ : Type} (slot : Slot ν κ) : Prop :=
  (∃ target, slot = .done target) ∨ ∃ fault, slot = .failed fault

/-! ### The types that are made on the way -/

/-- A type that a supplier makes, and the store in which it makes it. -/
structure Making where
  shape : TypeShape
  store : Store

/-- The types that a supplier makes, given what it makes when it completes types and elements. -/
def Supplier.makings {κ : Type} (viewType : TypeId → Build (TypeId × TypeNode))
    (viewElement : ElementId → Build (ElementId × ElementNode))
    (ofType : TypeId → Store → List Making) (ofElement : ElementId → Store → List Making) :
    Supplier κ → Store → List Making
  | give _, _ => []
  | fail _, _ => []
  | typeLabel label next, s =>
      (next (s.labels.type? label)).makings viewType viewElement ofType ofElement s
  | elementLabel label next, s =>
      (next (s.labels.element? label)).makings viewType viewElement ofType ofElement s
  | registered name next, s =>
      (next (s.registry.find? none name)).makings viewType viewElement ofType ofElement s
  | resolveType t next, s =>
      ofType t s ++ (next ((viewType t s).1.map Prod.fst)).makings viewType viewElement ofType
        ofElement (viewType t s).2
  | resolveElement e next, s =>
      ofElement e s ++ (next ((viewElement e s).1.map Prod.fst)).makings viewType viewElement ofType
        ofElement (viewElement e s).2
  | newType shape next, s =>
      ⟨shape, s⟩ :: (next (makeShape shape s).1).makings viewType viewElement ofType ofElement
        (makeShape shape s).2
  | newElement kind next, s =>
      (next ⟨s.elements.size⟩).makings viewType viewElement ofType ofElement
        (makeElement { detail := .blank kind } s).2

/-- The types that are made on the way from a handle to a node. -/
def Shelf.makings {ν κ : Type} (shelf : Shelf ν κ) (run : Supplier κ → Build κ)
    (ofSupplier : Supplier κ → Store → List Making) : Nat → κ → Store → List Making
  | 0, _, _ => []
  | n + 1, k, s =>
      match (shelf.slots s)[shelf.index k]? with
      | some (.done k') => shelf.makings run ofSupplier n k' s
      | some (.pending supplier) =>
          ofSupplier supplier (shelf.start k s) ++ match shelf.complete run k supplier s with
            | (.ok target, s') => shelf.makings run ofSupplier n target s'
            | (.error _, _) => []
      | _ => []

mutual

/-- The types that are made when a type is completed, with so many completions inside one another. -/
def typeMakingsWithin : Nat → TypeId → Store → List Making
  | 0, _, _ => []
  | n + 1, t, s =>
      Shelf.types.makings (Supplier.run (viewTypeWithin n) (viewElementWithin n))
        (Supplier.makings (viewTypeWithin n) (viewElementWithin n) (typeMakingsWithin n)
          (elementMakingsWithin n)) (s.types.size + 1) t s

/-- The types that are made when an element is completed. -/
def elementMakingsWithin : Nat → ElementId → Store → List Making
  | 0, _, _ => []
  | n + 1, e, s =>
      Shelf.elements.makings (Supplier.run (viewTypeWithin n) (viewElementWithin n))
        (Supplier.makings (viewTypeWithin n) (viewElementWithin n) (typeMakingsWithin n)
          (elementMakingsWithin n)) (s.elements.size + 1) e s

end

/-- The types that are made when a type is completed. -/
def Store.typeMakings (s : Store) (t : TypeId) : List Making :=
  typeMakingsWithin s.completionDepth t s

/-- The types that are made when an element is completed. -/
def Store.elementMakings (s : Store) (e : ElementId) : List Making :=
  elementMakingsWithin s.completionDepth e s

/-! ### Relations that completions respect -/

/-- A slot is marked, something happens, and the slot is given what its supplier found: if the
relation holds of what happens, it holds of the whole. -/
def Shelf.Wraps {ν κ : Type} (shelf : Shelf ν κ) (R : Store → Store → Prop) : Prop :=
  ∀ {k : κ} {supplier : Supplier κ} {s t : Store} {slot : Slot ν κ},
    (shelf.slots s)[shelf.index k]? = some (.pending supplier) → R (shelf.start k s) t →
      slot.IsOutcome → R s (shelf.setSlot k slot t)

/-- A relation between stores that holds of all that suppliers do, if the types that they make are
among those of `P`. -/
structure Store.Respected (P : TypeShape → Store → Prop) (R : Store → Store → Prop) : Prop where
  refl : ∀ s, R s s
  trans : ∀ {s t u}, R s t → R t u → R s u
  makeShape : ∀ {shape s}, P shape s → R s (JavaTypes.makeShape shape s).2
  makeElement : ∀ k s, R s (JavaTypes.makeElement { detail := .blank k } s).2
  types : Shelf.types.Wraps R
  elements : Shelf.elements.Wraps R

section Respected

variable {P : TypeShape → Store → Prop} {R : Store → Store → Prop} (hR : Store.Respected P R)
  {κ ν : Type} {s : Store}

include hR

theorem Supplier.respects_run {viewType : TypeId → Build (TypeId × TypeNode)}
    {viewElement : ElementId → Build (ElementId × ElementNode)}
    {ofType : TypeId → Store → List Making} {ofElement : ElementId → Store → List Making}
    (ht : ∀ t s, (∀ m ∈ ofType t s, P m.shape m.store) → R s (viewType t s).2)
    (he : ∀ e s, (∀ m ∈ ofElement e s, P m.shape m.store) → R s (viewElement e s).2)
    (supplier : Supplier κ) (s : Store)
    (h : ∀ m ∈ supplier.makings viewType viewElement ofType ofElement s, P m.shape m.store) :
    R s (supplier.run viewType viewElement s).2 := by
  induction supplier generalizing s with
  | give k => exact hR.refl s
  | fail f => exact hR.refl s
  | typeLabel label next ih => exact ih _ s h
  | elementLabel label next ih => exact ih _ s h
  | registered name next ih => exact ih _ s h
  | resolveType t next ih =>
    obtain ⟨hfirst, hnext⟩ := List.forall_mem_append.1 h
    exact hR.trans (ht t s hfirst) (ih _ _ hnext)
  | resolveElement e next ih =>
    obtain ⟨hfirst, hnext⟩ := List.forall_mem_append.1 h
    exact hR.trans (he e s hfirst) (ih _ _ hnext)
  | newType shape next ih =>
    obtain ⟨hfirst, hnext⟩ := List.forall_mem_cons.1 h
    exact hR.trans (hR.makeShape hfirst) (ih _ _ hnext)
  | newElement kind next ih => exact hR.trans (hR.makeElement kind s) (ih _ _ h)

theorem Shelf.respects_follow {shelf : Shelf ν κ} {run : Supplier κ → Build κ}
    {ofSupplier : Supplier κ → Store → List Making} (hwraps : shelf.Wraps R)
    (hrun : ∀ p s, (∀ m ∈ ofSupplier p s, P m.shape m.store) → R s (run p s).2) (n : Nat) (k : κ)
    (s : Store) (h : ∀ m ∈ shelf.makings run ofSupplier n k s, P m.shape m.store) :
    R s (shelf.follow run n k s).2 := by
  induction n generalizing k s with
  | zero => exact hR.refl s
  | succ n ih =>
    unfold follow
    unfold makings at h
    split
    · exact hR.refl s
    · exact hR.refl s
    · next k' hk =>
      simp only [hk] at h
      exact ih k' s h
    · exact hR.refl s
    · exact hR.refl s
    · next supplier hk =>
      simp only [hk] at h
      obtain ⟨hfirst, hnext⟩ := List.forall_mem_append.1 h
      have hran := hrun supplier (shelf.start k s) hfirst
      rw [bind_apply]
      unfold complete at hnext ⊢
      cases hr : run supplier (shelf.start k s) with
      | mk r s' =>
        rw [hr] at hran hnext
        cases r with
        | ok target => exact hR.trans (hwraps hk hran (.inl ⟨target, rfl⟩)) (ih target _ hnext)
        | error f => exact hwraps hk hran (.inr ⟨f, rfl⟩)

mutual

theorem respects_viewTypeWithin : ∀ (n : Nat) (t : TypeId) (s : Store),
    (∀ m ∈ typeMakingsWithin n t s, P m.shape m.store) → R s (viewTypeWithin n t s).2
  | 0, _, s, _ => hR.refl s
  | n + 1, t, s, h =>
      Shelf.respects_follow hR hR.types (Supplier.respects_run hR (respects_viewTypeWithin n)
        (respects_viewElementWithin n)) (s.types.size + 1) t s h

theorem respects_viewElementWithin : ∀ (n : Nat) (e : ElementId) (s : Store),
    (∀ m ∈ elementMakingsWithin n e s, P m.shape m.store) → R s (viewElementWithin n e s).2
  | 0, _, s, _ => hR.refl s
  | n + 1, e, s, h =>
      Shelf.respects_follow hR hR.elements (Supplier.respects_run hR (respects_viewTypeWithin n)
        (respects_viewElementWithin n)) (s.elements.size + 1) e s h

end

theorem respects_viewType {t : TypeId}
    (h : ∀ m ∈ s.typeMakings t, P m.shape m.store) : R s (viewType t s).2 :=
  respects_viewTypeWithin hR _ t s h

theorem respects_viewElement {e : ElementId}
    (h : ∀ m ∈ s.elementMakings e, P m.shape m.store) : R s (viewElement e s).2 :=
  respects_viewElementWithin hR _ e s h

end Respected

/-! ### Completed slots and new nodes -/

namespace Slot

variable {ν κ : Type}

/-- What becomes of a slot while handles are completed: it stays, or its supplier ends. -/
inductive Becomes : Slot ν κ → Slot ν κ → Prop
  | same (slot : Slot ν κ) : Becomes slot slot
  | ends (supplier : Supplier κ) {slot : Slot ν κ} (h : slot.IsOutcome) :
      Becomes (.pending supplier) slot

/-- The second array has the slots of the first, where some that were pending are completed, and
after them new nodes. -/
structure Completed (slots slots' : Array (Slot ν κ)) : Prop where
  old : ∀ {i : Nat} {slot : Slot ν κ}, slots[i]? = some slot →
    ∃ slot', slots'[i]? = some slot' ∧ slot.Becomes slot'
  new : ∀ {i : Nat} {slot : Slot ν κ}, slots[i]? = none → slots'[i]? = some slot →
    ∃ n, slot = .node n

variable {slots slots' slots'' : Array (Slot ν κ)}

/-- A slot that is still to be completed was there before. -/
theorem Completed.old_of_open {i : Nat} {slot : Slot ν κ} (h : Completed slots slots')
    (hi : slots'[i]? = some slot) (hslot : slot.isFinal = false) : slots[i]? = some slot := by
  cases hold : slots[i]? with
  | none =>
    obtain ⟨n, rfl⟩ := h.new hold hi
    cases hslot
  | some slot' =>
    obtain ⟨_, hi', hbecomes⟩ := h.old hold
    cases hi.symm.trans hi'
    cases hbecomes with
    | same => rfl
    | ends _ houtcome => rcases houtcome with ⟨_, rfl⟩ | ⟨_, rfl⟩ <;> cases hslot

theorem Becomes.trans {a b c : Slot ν κ} (h₁ : a.Becomes b) (h₂ : b.Becomes c) : a.Becomes c := by
  cases h₁ with
  | same => exact h₂
  | ends supplier h =>
    cases h₂ with
    | same => exact .ends supplier h
    | ends _ _ =>
      -- What a supplier leaves is not pending.
      rcases h with ⟨target, h⟩ | ⟨fault, h⟩ <;> cases h

/-- A slot whose content is final stays. -/
theorem Becomes.eq_of_isFinal {a b : Slot ν κ} (h : a.Becomes b) (ha : a.isFinal = true) : b = a := by
  cases h with
  | same => rfl
  | ends => cases ha

namespace Completed

variable {i : Nat} {slot : Slot ν κ}

theorem refl (slots : Array (Slot ν κ)) : Completed slots slots where
  old {_ slot} h := ⟨slot, h, .same slot⟩
  new hnone h := by
    rw [hnone] at h
    cases h

theorem trans (h₁ : Completed slots slots') (h₂ : Completed slots' slots'') :
    Completed slots slots'' where
  old h := by
    obtain ⟨b, hb, hab⟩ := h₁.old h
    obtain ⟨c, hc, hbc⟩ := h₂.old hb
    exact ⟨c, hc, hab.trans hbc⟩
  new {i slot} hnone h := by
    cases hb : slots'[i]? with
    | none => exact h₂.new hb h
    | some b =>
      obtain ⟨n, rfl⟩ := h₁.new hnone hb
      obtain ⟨c, hc, hbc⟩ := h₂.old hb
      cases hc.symm.trans h
      exact ⟨n, hbc.eq_of_isFinal rfl⟩

theorem size_le (h : Completed slots slots') : slots.size ≤ slots'.size := by
  by_contra hlt
  have hsome : slots[slots'.size]? = some slots[slots'.size] :=
    Array.getElem?_eq_getElem (Nat.lt_of_not_le hlt)
  obtain ⟨slot', h', -⟩ := h.old hsome
  rw [Array.getElem?_eq_none le_rfl] at h'
  cases h'

theorem kept (h : Completed slots slots') : Kept slots slots' := by
  intro i slot hi hfinal
  obtain ⟨slot', hi', hbecomes⟩ := h.old hi
  rwa [hbecomes.eq_of_isFinal hfinal] at hi'

/-- The deferred slots of the second array are in the first. -/
theorem lt_size_of_done (h : Completed slots slots') {target : κ}
    (hi : slots'[i]? = some (.done target)) : i < slots.size := by
  by_contra hge
  obtain ⟨n, hn⟩ := h.new (Array.getElem?_eq_none (by omega)) hi
  cases hn

theorem push (h : Completed slots slots') (n : ν) : Completed slots (slots'.push (.node n)) where
  old {i slot} hi := by
    obtain ⟨slot', hi', hbecomes⟩ := h.old hi
    exact ⟨slot', get_push hi' _, hbecomes⟩
  new {i slot} hnone hi := by
    rw [Array.getElem?_push] at hi
    split at hi
    · cases hi
      exact ⟨n, rfl⟩
    · exact h.new hnone hi

/-- A node that the first array does not have can be replaced. -/
theorem setNew (h : Completed slots slots') (hi : slots.size ≤ i) (n : ν) :
    Completed slots (slots'.setIfInBounds i (.node n)) where
  old {k slot} hk := by
    obtain ⟨slot', hk', hbecomes⟩ := h.old hk
    obtain ⟨hlt, -⟩ := Array.getElem?_eq_some_iff.1 hk
    exact ⟨slot', by rw [Array.getElem?_setIfInBounds_ne (by omega), hk'], hbecomes⟩
  new {k slot} hnone hk := by
    rw [Array.getElem?_setIfInBounds] at hk
    split at hk
    · split at hk
      · cases hk
        exact ⟨n, rfl⟩
      · cases hk
    · exact h.new hnone hk

/-- A pending slot was marked, and its supplier has ended. -/
theorem finish {supplier : Supplier κ} (hi : slots[i]? = some (.pending supplier))
    (h : Completed (slots.setIfInBounds i .running) slots') (hslot : slot.IsOutcome) :
    Completed slots (slots'.setIfInBounds i slot) := by
  obtain ⟨hlt, -⟩ := Array.getElem?_eq_some_iff.1 hi
  have hlt' : i < slots'.size := by
    have hsize := h.size_le
    rw [Array.size_setIfInBounds] at hsize
    omega
  refine ⟨fun {k old} hk => ?_, fun {k new} hnone hk => ?_⟩
  · by_cases hki : i = k
    · subst hki
      rw [hi] at hk
      cases hk
      exact ⟨slot, Array.getElem?_setIfInBounds_self_of_lt hlt', .ends supplier hslot⟩
    · rw [← Array.getElem?_setIfInBounds_ne hki] at hk
      obtain ⟨slot', hk', hbecomes⟩ := h.old hk
      exact ⟨slot', by rw [Array.getElem?_setIfInBounds_ne hki, hk'], hbecomes⟩
  · have hki : i ≠ k := by
      rintro rfl
      rw [hi] at hnone
      cases hnone
    rw [Array.getElem?_setIfInBounds_ne hki] at hk
    exact h.new (by rw [Array.getElem?_setIfInBounds_ne hki, hnone]) hk

/-- A slot stays marked until its own supplier ends. -/
theorem running (h : Completed (slots.setIfInBounds i .running) slots')
    (hi : slots[i]? = some slot) : slots'[i]? = some .running := by
  obtain ⟨slot', hslot, hbecomes⟩ := h.old (get_set hi .running)
  cases hbecomes
  exact hslot

end Completed

end Slot

/-- The second store is the first with some slots completed and some nodes added. The names are the
same. -/
structure Store.Completion (s t : Store) : Prop where
  types : Slot.Completed s.types t.types
  elements : Slot.Completed s.elements t.elements
  registry : t.registry = s.registry
  labels : t.labels = s.labels

namespace Store.Completion

variable {s t u : Store}

theorem refl (s : Store) : s.Completion s :=
  ⟨.refl _, .refl _, rfl, rfl⟩

theorem trans (h₁ : s.Completion t) (h₂ : t.Completion u) : s.Completion u :=
  ⟨h₁.types.trans h₂.types, h₁.elements.trans h₂.elements, h₂.registry.trans h₁.registry,
    h₂.labels.trans h₁.labels⟩

theorem makeType (h : s.Completion t) (n : TypeNode) : s.Completion (makeType n t).2 :=
  ⟨h.types.push n, h.elements, h.registry, h.labels⟩

theorem makeElement (h : s.Completion t) (n : ElementNode) : s.Completion (makeElement n t).2 :=
  ⟨h.types, h.elements.push n, h.registry, h.labels⟩

theorem setTypeNode (h : s.Completion t) {k : TypeId} (hk : s.types.size ≤ k.index)
    (n : TypeNode) : s.Completion (t.setTypeNode k n) :=
  ⟨h.types.setNew hk n, h.elements, h.registry, h.labels⟩

end Store.Completion

/-- What holds of a store with a new empty type, and stays when the type is filled in, holds once a type
is made, also where its parts are refused. -/
theorem makeShape_induction {I : Store → Prop} {shape : TypeShape} {s : Store}
    (hmade : I (makeType { shape := shape.blank } s).2)
    (hedit : ∀ {t n n' edit}, edit ∈ shape.edits → I t → t.types[s.types.size]? = some (.node n) →
      edit.applyTo t ⟨s.types.size⟩ n = .ok n' → I (t.setTypeNode ⟨s.types.size⟩ n')) :
    I (makeShape shape s).2 := by
  have hfill : ∀ (edits : List TypeEdit) {n : TypeNode} {t : Store}, (∀ edit ∈ edits, edit ∈ shape.edits) →
      I t → t.types[s.types.size]? = some (.node n) →
        I (editTypeNodeAll ⟨s.types.size⟩ n edits t).2 := by
    intro edits
    induction edits with
    | nil => exact fun _ ht _ => ht
    | cons edit edits ih =>
      intro n t hsub ht hn
      obtain ⟨hfirst, hrest⟩ := List.forall_mem_cons.1 hsub
      unfold editTypeNodeAll
      rw [bind_apply, editTypeNode]
      cases happly : edit.applyTo t ⟨s.types.size⟩ n with
      | ok n' => exact ih hrest (hedit hfirst ht hn happly) (Slot.get_set hn _)
      | error f => exact ht
  have hfilled := hfill shape.edits (fun _ h => h) hmade Array.getElem?_push_size
  show I ((editTypeNodeAll _ _ _ >>= fun _ => pure _) (makeType { shape := shape.blank } s).2).2
  rw [bind_apply]
  cases hr : editTypeNodeAll ⟨s.types.size⟩ { shape := shape.blank } shape.edits
    (makeType { shape := shape.blank } s).2 with
  | mk r t =>
    rw [hr] at hfilled
    cases r <;> exact hfilled

/-- A type that is made is new. -/
theorem completion_makeShape (shape : TypeShape) (s : Store) : s.Completion (makeShape shape s).2 :=
  makeShape_induction ((Store.Completion.refl s).makeType _) fun _ h _ _ => h.setTypeNode le_rfl _

theorem respected_completion : Store.Respected (fun _ _ => True) Store.Completion where
  refl := .refl
  trans := .trans
  makeShape _ := completion_makeShape _ _
  makeElement _ s := (Store.Completion.refl s).makeElement _
  types hk h hslot := ⟨.finish hk h.types hslot, h.elements, h.registry, h.labels⟩
  elements hk h hslot := ⟨h.types, .finish hk h.elements hslot, h.registry, h.labels⟩

theorem completion_viewType (t : TypeId) (s : Store) : s.Completion (viewType t s).2 :=
  respects_viewType respected_completion fun _ _ => trivial

theorem completion_viewElement (e : ElementId) (s : Store) : s.Completion (viewElement e s).2 :=
  respects_viewElement respected_completion fun _ _ => trivial

theorem completion_viewTypeWithin (n : Nat) (t : TypeId) (s : Store) :
    s.Completion (viewTypeWithin n t s).2 :=
  respects_viewTypeWithin respected_completion n t s fun _ _ => trivial

theorem completion_viewElementWithin (n : Nat) (e : ElementId) (s : Store) :
    s.Completion (viewElementWithin n e s).2 :=
  respects_viewElementWithin respected_completion n e s fun _ _ => trivial

theorem Supplier.completion_runWithin (n : Nat) (supplier : Supplier κ) (s : Store) :
    s.Completion (supplier.run (viewTypeWithin n) (viewElementWithin n) s).2 :=
  Supplier.respects_run respected_completion (respects_viewTypeWithin respected_completion n)
    (respects_viewElementWithin respected_completion n) supplier s fun _ _ => trivial

end JavaTypes
