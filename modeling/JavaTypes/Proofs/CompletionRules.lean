import JavaTypes.Proofs.Completions

/-!
# The rules of completion

`Shelf.Resolves` gives the rules by which deferred slots are followed, without a bound on how often
suppliers complete other handles inside one another. A handle is followed from slot to slot. A slot that
is pending marks itself, runs its supplier, and keeps the outcome; a slot that is met again while its
supplier runs answers that it is cyclic. After each hop the loop gives up if it is where it was, or if
there have been more hops than there are slots by then.

* `Shelf.Resolves`, `Shelf.Answers`, `Supplier.Runs`: the rules, for the loop, for one deferred slot and
  for a supplier. They leave no choice (`Shelf.Resolves.unique`);
* `resolves_resolveType`, `resolves_resolveElement`: from every store the loop ends, and what it ends with
  is what `resolveType` and `resolveElement` compute.

Two things have to run out. Each completion inside another starts a supplier, and those that are left
become fewer (`Store.suppliersLeft`). And a loop that has passed more slots than there were at its start
has come back to one; from then on it only passes slots that are completed, until it gives up.
-/

namespace JavaTypes

open Action

/-! ### Rules -/

mutual

/-- The loop that follows deferred slots from a handle, after a number of hops: the handle of the node
that is reached or a fault, and the store that is left. -/
inductive Shelf.Resolves : {ν κ : Type} → Shelf ν κ → Nat → κ → Store → Except Fault κ → Store → Prop
  | unknown {ν κ : Type} {shelf : Shelf ν κ} {hops : Nat} {k : κ} {s : Store}
      (h : (shelf.slots s)[shelf.index k]? = none) :
      Shelf.Resolves shelf hops k s (.error (shelf.unknown k)) s
  | node {ν κ : Type} {shelf : Shelf ν κ} {hops : Nat} {k : κ} {s : Store} {v : ν}
      (h : (shelf.slots s)[shelf.index k]? = some (.node v)) :
      Shelf.Resolves shelf hops k s (.ok k) s
  | fails {ν κ : Type} {shelf : Shelf ν κ} {hops : Nat} {k : κ} {s s' : Store} {f : Fault}
      (h : Shelf.Answers shelf k s (.error f) s') : Shelf.Resolves shelf hops k s (.error f) s'
  | givesUp {ν κ : Type} {shelf : Shelf ν κ} {hops : Nat} {k k' : κ} {s s' : Store}
      (h : Shelf.Answers shelf k s (.ok k') s')
      (hback : k' = k ∨ (shelf.slots s').size < hops + 1) :
      Shelf.Resolves shelf hops k s (.error .cyclicCompletion) s'
  | goesOn {ν κ : Type} {shelf : Shelf ν κ} {hops : Nat} {k k' : κ} {s s' s'' : Store}
      {r : Except Fault κ} (h : Shelf.Answers shelf k s (.ok k') s')
      (hback : ¬ (k' = k ∨ (shelf.slots s').size < hops + 1))
      (rest : Shelf.Resolves shelf (hops + 1) k' s' r s'') : Shelf.Resolves shelf hops k s r s''

/-- What a deferred slot answers with. -/
inductive Shelf.Answers : {ν κ : Type} → Shelf ν κ → κ → Store → Except Fault κ → Store → Prop
  | done {ν κ : Type} {shelf : Shelf ν κ} {k k' : κ} {s : Store}
      (h : (shelf.slots s)[shelf.index k]? = some (.done k')) :
      Shelf.Answers shelf k s (.ok k') s
  | failed {ν κ : Type} {shelf : Shelf ν κ} {k : κ} {s : Store} {f : Fault}
      (h : (shelf.slots s)[shelf.index k]? = some (.failed f)) :
      Shelf.Answers shelf k s (.error f) s
  | running {ν κ : Type} {shelf : Shelf ν κ} {k : κ} {s : Store}
      (h : (shelf.slots s)[shelf.index k]? = some .running) :
      Shelf.Answers shelf k s (.error .cyclicCompletion) s
  | supplied {ν κ : Type} {shelf : Shelf ν κ} {k : κ} {s s' : Store} {supplier : Supplier κ}
      {r : Except Fault κ} (h : (shelf.slots s)[shelf.index k]? = some (.pending supplier))
      (hrun : Supplier.Runs supplier (shelf.start k s) r s') :
      Shelf.Answers shelf k s r (shelf.setSlot k (.ofOutcome r) s')

/-- What a supplier ends with. -/
inductive Supplier.Runs : {κ : Type} → Supplier κ → Store → Except Fault κ → Store → Prop
  | give {κ : Type} (k : κ) (s : Store) : Supplier.Runs (.give k) s (.ok k) s
  | fail {κ : Type} (f : Fault) (s : Store) : Supplier.Runs (.fail f : Supplier κ) s (.error f) s
  | typeLabel {κ : Type} {label : String} {next : Option TypeId → Supplier κ} {s s' : Store}
      {r : Except Fault κ} (rest : Supplier.Runs (next (s.labels.type? label)) s r s') :
      Supplier.Runs (.typeLabel label next) s r s'
  | elementLabel {κ : Type} {label : String} {next : Option ElementId → Supplier κ} {s s' : Store}
      {r : Except Fault κ} (rest : Supplier.Runs (next (s.labels.element? label)) s r s') :
      Supplier.Runs (.elementLabel label next) s r s'
  | registered {κ : Type} {name : String} {next : Option ElementId → Supplier κ} {s s' : Store}
      {r : Except Fault κ} (rest : Supplier.Runs (next (s.registry.find? none name)) s r s') :
      Supplier.Runs (.registered name next) s r s'
  | resolveType {κ : Type} {t : TypeId} {next : Except Fault TypeId → Supplier κ} {s s' s'' : Store}
      {found : Except Fault TypeId} {r : Except Fault κ}
      (h : Shelf.Resolves Shelf.types 0 t s found s')
      (rest : Supplier.Runs (next found) s' r s'') : Supplier.Runs (.resolveType t next) s r s''
  | resolveElement {κ : Type} {e : ElementId} {next : Except Fault ElementId → Supplier κ}
      {s s' s'' : Store} {found : Except Fault ElementId} {r : Except Fault κ}
      (h : Shelf.Resolves Shelf.elements 0 e s found s')
      (rest : Supplier.Runs (next found) s' r s'') : Supplier.Runs (.resolveElement e next) s r s''
  | newType {κ : Type} {shape : TypeShape} {next : Except Fault TypeId → Supplier κ} {s s' : Store}
      {r : Except Fault κ}
      (rest : Supplier.Runs (next (makeShape shape s).1) (makeShape shape s).2 r s') :
      Supplier.Runs (.newType shape next) s r s'
  | newElement {κ : Type} {kind : ElementKind} {next : ElementId → Supplier κ} {s s' : Store}
      {r : Except Fault κ}
      (rest : Supplier.Runs (next ⟨s.elements.size⟩) (makeElement { detail := .blank kind } s).2 r s') :
      Supplier.Runs (.newElement kind next) s r s'

end

/-! ### The rules leave no choice -/

/-- Only a deferred slot answers. -/
theorem Shelf.Answers.deferred {ν κ : Type} {shelf : Shelf ν κ} {k : κ} {s s' : Store}
    {r : Except Fault κ} (h : shelf.Answers k s r s') :
    (shelf.slots s)[shelf.index k]? ≠ none ∧ ∀ v, (shelf.slots s)[shelf.index k]? ≠ some (.node v) := by
  cases h with
  | done h | failed h | running h | supplied h =>
    rw [h]
    exact ⟨nofun, nofun⟩

mutual

theorem Shelf.Resolves.unique {ν κ : Type} {shelf : Shelf ν κ} {hops : Nat} {k : κ}
    {s s' s'' : Store} {r r' : Except Fault κ} : shelf.Resolves hops k s r s' →
      shelf.Resolves hops k s r' s'' → r = r' ∧ s' = s''
  | .unknown h, h' => by
      cases h' with
      | unknown => exact ⟨rfl, rfl⟩
      | node h₁ =>
        rw [h] at h₁
        cases h₁
      | fails h₁ | givesUp h₁ | goesOn h₁ => exact absurd h h₁.deferred.1
  | .node h, h' => by
      cases h' with
      | unknown h₁ =>
        rw [h] at h₁
        cases h₁
      | node => exact ⟨rfl, rfl⟩
      | fails h₁ | givesUp h₁ | goesOn h₁ => exact absurd h (h₁.deferred.2 _)
  | .fails h, h' => by
      cases h' with
      | unknown h₁ => exact absurd h₁ h.deferred.1
      | node h₁ => exact absurd h₁ (h.deferred.2 _)
      | fails h₁ =>
        obtain ⟨hanswer, rfl⟩ := Shelf.Answers.unique h h₁
        cases hanswer
        exact ⟨rfl, rfl⟩
      | givesUp h₁ | goesOn h₁ =>
        obtain ⟨hanswer, -⟩ := Shelf.Answers.unique h h₁
        cases hanswer
  | .givesUp h hback, h' => by
      cases h' with
      | unknown h₁ => exact absurd h₁ h.deferred.1
      | node h₁ => exact absurd h₁ (h.deferred.2 _)
      | fails h₁ =>
        obtain ⟨hanswer, -⟩ := Shelf.Answers.unique h h₁
        cases hanswer
      | givesUp h₁ =>
        obtain ⟨-, rfl⟩ := Shelf.Answers.unique h h₁
        exact ⟨rfl, rfl⟩
      | goesOn h₁ hback₁ =>
        obtain ⟨hanswer, rfl⟩ := Shelf.Answers.unique h h₁
        cases hanswer
        exact absurd hback hback₁
  | .goesOn h hback rest, h' => by
      cases h' with
      | unknown h₁ => exact absurd h₁ h.deferred.1
      | node h₁ => exact absurd h₁ (h.deferred.2 _)
      | fails h₁ =>
        obtain ⟨hanswer, -⟩ := Shelf.Answers.unique h h₁
        cases hanswer
      | givesUp h₁ hback₁ =>
        obtain ⟨hanswer, rfl⟩ := Shelf.Answers.unique h h₁
        cases hanswer
        exact absurd hback₁ hback
      | goesOn h₁ _ rest₁ =>
        obtain ⟨hanswer, rfl⟩ := Shelf.Answers.unique h h₁
        cases hanswer
        exact Shelf.Resolves.unique rest rest₁

theorem Shelf.Answers.unique {ν κ : Type} {shelf : Shelf ν κ} {k : κ} {s s' s'' : Store}
    {r r' : Except Fault κ} : shelf.Answers k s r s' → shelf.Answers k s r' s'' → r = r' ∧ s' = s''
  | .done h, h' => by
      cases h' with
      | done h₁ =>
        rw [h] at h₁
        cases h₁
        exact ⟨rfl, rfl⟩
      | failed h₁ | running h₁ | supplied h₁ =>
        rw [h] at h₁
        cases h₁
  | .failed h, h' => by
      cases h' with
      | failed h₁ =>
        rw [h] at h₁
        cases h₁
        exact ⟨rfl, rfl⟩
      | done h₁ | running h₁ | supplied h₁ =>
        rw [h] at h₁
        cases h₁
  | .running h, h' => by
      cases h' with
      | running => exact ⟨rfl, rfl⟩
      | done h₁ | failed h₁ | supplied h₁ =>
        rw [h] at h₁
        cases h₁
  | .supplied h hrun, h' => by
      cases h' with
      | supplied h₁ hrun₁ =>
        rw [h] at h₁
        cases h₁
        obtain ⟨rfl, rfl⟩ := Supplier.Runs.unique hrun hrun₁
        exact ⟨rfl, rfl⟩
      | done h₁ | failed h₁ | running h₁ =>
        rw [h] at h₁
        cases h₁

theorem Supplier.Runs.unique {κ : Type} {supplier : Supplier κ} {s s' s'' : Store}
    {r r' : Except Fault κ} : supplier.Runs s r s' → supplier.Runs s r' s'' → r = r' ∧ s' = s''
  | .give _ _, h' => by
      cases h'
      exact ⟨rfl, rfl⟩
  | .fail _ _, h' => by
      cases h'
      exact ⟨rfl, rfl⟩
  | .typeLabel rest, h' => by
      cases h' with
      | typeLabel rest₁ => exact Supplier.Runs.unique rest rest₁
  | .elementLabel rest, h' => by
      cases h' with
      | elementLabel rest₁ => exact Supplier.Runs.unique rest rest₁
  | .registered rest, h' => by
      cases h' with
      | registered rest₁ => exact Supplier.Runs.unique rest rest₁
  | .resolveType h rest, h' => by
      cases h' with
      | resolveType h₁ rest₁ =>
        obtain ⟨rfl, rfl⟩ := Shelf.Resolves.unique h h₁
        exact Supplier.Runs.unique rest rest₁
  | .resolveElement h rest, h' => by
      cases h' with
      | resolveElement h₁ rest₁ =>
        obtain ⟨rfl, rfl⟩ := Shelf.Resolves.unique h h₁
        exact Supplier.Runs.unique rest rest₁
  | .newType rest, h' => by
      cases h' with
      | newType rest₁ => exact Supplier.Runs.unique rest rest₁
  | .newElement rest, h' => by
      cases h' with
      | newElement rest₁ => exact Supplier.Runs.unique rest rest₁

end

/-! ### Suppliers that are left -/

namespace Slot

variable {ν κ : Type}

/-- Whether the supplier of a slot has not been started. -/
def isPending : Slot ν κ → Bool
  | pending _ => true
  | _ => false

/-- The places of the slots whose supplier has not been started. -/
def pendings (slots : Array (Slot ν κ)) : Finset Nat :=
  (Finset.range slots.size).filter fun i => (slots[i]?).any isPending = true

variable {slots slots' : Array (Slot ν κ)} {i : Nat}

theorem mem_pendings : i ∈ pendings slots ↔ ∃ supplier, slots[i]? = some (.pending supplier) := by
  rw [pendings, Finset.mem_filter, Finset.mem_range]
  constructor
  · rintro ⟨-, h⟩
    cases hi : slots[i]? with
    | none =>
      rw [hi] at h
      cases h
    | some slot =>
      rw [hi] at h
      cases slot with
      | pending supplier => exact ⟨supplier, rfl⟩
      | _ => cases h
  · rintro ⟨supplier, h⟩
    obtain ⟨hlt, -⟩ := Array.getElem?_eq_some_iff.1 h
    exact ⟨hlt, by rw [h]; rfl⟩

theorem Completed.pendings_subset (h : Completed slots slots') : pendings slots' ⊆ pendings slots := by
  intro i hi
  obtain ⟨supplier, hi⟩ := mem_pendings.1 hi
  exact mem_pendings.2 ⟨supplier, h.old_of_open hi rfl⟩

theorem pendings_setRunning_ssubset (hi : i ∈ pendings slots) :
    pendings (slots.setIfInBounds i .running) ⊂ pendings slots := by
  refine (Finset.ssubset_iff_of_subset fun l hl => ?_).2 ⟨i, hi, fun hmem => ?_⟩
  · obtain ⟨supplier, hl⟩ := mem_pendings.1 hl
    rw [Array.getElem?_setIfInBounds] at hl
    split at hl
    · split at hl <;> cases hl
    · exact mem_pendings.2 ⟨supplier, hl⟩
  · obtain ⟨supplier, hl⟩ := mem_pendings.1 hmem
    rw [Array.getElem?_setIfInBounds, if_pos rfl] at hl
    split at hl <;> cases hl

theorem card_pendings_le (slots : Array (Slot ν κ)) : (pendings slots).card ≤ slots.size :=
  (Finset.card_filter_le _ _).trans_eq (Finset.card_range _)

end Slot

/-- How many suppliers have not been started. -/
def Store.suppliersLeft (s : Store) : Nat :=
  (Slot.pendings s.types).card + (Slot.pendings s.elements).card

theorem Store.Completion.suppliersLeft_le {s t : Store} (h : s.Completion t) :
    t.suppliersLeft ≤ s.suppliersLeft :=
  Nat.add_le_add (Finset.card_le_card h.types.pendings_subset)
    (Finset.card_le_card h.elements.pendings_subset)

theorem Store.suppliersLeft_lt_completionDepth (s : Store) : s.suppliersLeft < s.completionDepth :=
  Nat.lt_succ_of_le (Nat.add_le_add (Slot.card_pendings_le _) (Slot.card_pendings_le _))

/-- What counts of the two arrays of slots of a store. -/
structure Shelf.Counted {ν κ : Type} (shelf : Shelf ν κ) : Prop extends shelf.Lawful where
  suppliersLeft_start : ∀ {k : κ} {supplier : Supplier κ} {s : Store},
    (shelf.slots s)[shelf.index k]? = some (.pending supplier) →
      (shelf.start k s).suppliersLeft < s.suppliersLeft

theorem Shelf.counted_types : Shelf.types.Counted where
  toLawful := lawful_types
  suppliersLeft_start {_ supplier _} h := Nat.add_lt_add_right (Finset.card_lt_card
    (Slot.pendings_setRunning_ssubset (Slot.mem_pendings.2 ⟨supplier, h⟩))) _

theorem Shelf.counted_elements : Shelf.elements.Counted where
  toLawful := lawful_elements
  suppliersLeft_start {_ supplier _} h := Nat.add_lt_add_left (Finset.card_lt_card
    (Slot.pendings_setRunning_ssubset (Slot.mem_pendings.2 ⟨supplier, h⟩))) _

/-! ### Walks that go on -/

namespace Slot.Walk

variable {ν κ : Type} {slots slots' : Array (Slot ν κ)} {index : κ → Nat} {m n : Nat} {k k' l l' : κ}

/-- A walk is still one as long as completed slots stay. -/
theorem mono (h : Walk slots index m k l) (hstays : ∀ {i : Nat} {target : κ},
    slots[i]? = some (.done target) → slots'[i]? = some (.done target)) :
    Walk slots' index m k l := by
  induction h with
  | nil => exact .nil _
  | cons hdone _ ih => exact .cons (hstays hdone) ih

theorem snoc (h : Walk slots index m k l) (hl : slots[index l]? = some (.done l')) :
    Walk slots index (m + 1) k l' := by
  induction h with
  | nil => exact .cons hl (.nil l')
  | cons hdone _ ih => exact .cons hdone (ih hl)

/-- A longer walk goes on from where a shorter one has come. -/
theorem drop (h : Walk slots index m k l) (h' : Walk slots index (m + n) k l') :
    Walk slots index n l l' := by
  induction h with
  | nil =>
    rwa [Nat.zero_add] at h'
  | cons hdone _ ih =>
    rw [Nat.add_right_comm] at h'
    cases h' with
    | cons hdone' rest =>
      cases hdone.symm.trans hdone'
      exact ih rest

theorem self (h : slots[index k]? = some (.done k)) : ∀ m, Walk slots index m k k
  | 0 => .nil k
  | m + 1 => .cons h (self h m)

end Slot.Walk

namespace Shelf

variable {ν κ : Type} {shelf : Shelf ν κ}

/-- A loop that only passes completed slots and never comes to an end gives up. -/
theorem resolves_of_unending {s : Store} {k : κ} (hops : Nat)
    (h : ∀ m, ∃ l, Slot.Walk (shelf.slots s) shelf.index m k l) :
    shelf.Resolves hops k s (.error .cyclicCompletion) s := by
  induction hleft : (shelf.slots s).size - hops generalizing hops k with
  | zero =>
    obtain ⟨l, hwalk⟩ := h 1
    cases hwalk with
    | cons hdone _ => exact .givesUp (.done hdone) (.inr (by omega))
  | succ left ih =>
    obtain ⟨l, hwalk⟩ := h 1
    cases hwalk with
    | @cons _ _ k' _ hdone _ =>
      by_cases hback : k' = k ∨ (shelf.slots s).size < hops + 1
      · exact .givesUp (.done hdone) hback
      · refine .goesOn (.done hdone) hback (ih (hops + 1) (fun m => ?_) (by omega))
        obtain ⟨l', hwalk'⟩ := h (m + 1)
        cases hwalk' with
        | cons hdone' rest =>
          cases hdone.symm.trans hdone'
          exact ⟨l', rest⟩

/-- The loop, from any point of it on. The bound on its length was taken from the store `base` at its
start, and the rules take it from the store as it is now. -/
theorem resolves_follow (hc : shelf.Counted) {n : Nat} {run : Supplier κ → Build κ}
    (hcompletion : ∀ p s, Store.Completion s (run p s).2)
    (hrun : ∀ (p : Supplier κ) (s : Store), s.suppliersLeft < n → p.Runs s (run p s).1 (run p s).2)
    {base : Store} {k₀ : κ} :
    ∀ (m : Nat) {hops : Nat} {k : κ} {s : Store}, base.Completion s →
      hops + m = (shelf.slots base).size + 1 → s.suppliersLeft ≤ n →
      Slot.Walk (shelf.slots s) shelf.index hops k₀ k →
        shelf.Resolves hops k s ((shelf.follow run m k s).1.map Prod.fst) (shelf.follow run m k s).2
  | 0, hops, k, s, hbase, hm, _, hwalk => by
      refine resolves_of_unending hops fun m => ?_
      obtain ⟨l, hlong⟩ := hwalk.unending
        (fun i target hi => (hc.completed hbase).lt_size_of_done hi) (by omega) (hops + m)
      exact ⟨l, hwalk.drop hlong⟩
  | m + 1, hops, k, s, hbase, hm, hleft, hwalk => by
      -- A slot that stands for another, in the store `s'` that its answer leaves.
      have hnext : ∀ {k' s'}, shelf.Answers k s (.ok k') s' → s.Completion s' →
          (shelf.slots s')[shelf.index k]? = some (.done k') →
            shelf.Resolves hops k s ((shelf.follow run m k' s').1.map Prod.fst)
              (shelf.follow run m k' s').2 := by
        intro k' s' hanswer hs hdone
        have hbase' := hbase.trans hs
        by_cases hback : k' = k ∨ (shelf.slots s').size < hops + 1
        · have hcut : shelf.follow run m k' s' = (.error .cyclicCompletion, s') := by
            rcases hback with rfl | hlong
            · exact follow_of_walk (n := 0) run (.self hdone m)
            · have hsize := (hc.completed hbase').size_le
              obtain rfl : m = 0 := by omega
              rfl
          rw [hcut]
          exact .givesUp hanswer hback
        · have hwalk' := (hwalk.mono fun hi => (hc.completed hs).kept _ _ hi rfl).snoc hdone
          exact .goesOn hanswer hback (resolves_follow hc hcompletion hrun m hbase' (by omega)
            (hs.suppliersLeft_le.trans hleft) hwalk')
      unfold follow
      split
      · next hk => exact .unknown hk
      · next v hk => exact .node hk
      · next k' hk => exact hnext (.done hk) (.refl s) hk
      · next f hk => exact .fails (.failed hk)
      · next hk => exact .fails (.running hk)
      · next supplier hk =>
        have hran := hrun supplier (shelf.start k s)
          (Nat.lt_of_lt_of_le (hc.suppliersLeft_start hk) hleft)
        have hanswer := Answers.supplied hk hran
        have heq : shelf.complete run k supplier s = _ := complete_apply run k supplier s
        have hends : (Slot.ofOutcome (run supplier (shelf.start k s)).1 : Slot ν κ).IsOutcome := by
          cases (run supplier (shelf.start k s)).1 with
          | ok target => exact .inl ⟨target, rfl⟩
          | error f => exact .inr ⟨f, rfl⟩
        have hs := hc.wraps hk (hcompletion supplier (shelf.start k s)) hends
        have hslot := slots_of_complete hc.toLawful hcompletion hk heq
        cases hr : (run supplier (shelf.start k s)).1 with
        | ok target =>
          rw [hr] at heq hanswer hs hslot
          rw [bind_of_ok heq]
          exact hnext hanswer hs hslot
        | error f =>
          rw [hr] at heq hanswer
          rw [bind_of_error heq]
          exact .fails hanswer

end Shelf

/-! ### The loop ends -/

theorem Supplier.runs_run {κ : Type} {n : Nat} {viewType : TypeId → Build (TypeId × TypeNode)}
    {viewElement : ElementId → Build (ElementId × ElementNode)}
    (ht : ∀ (t : TypeId) (s : Store), s.suppliersLeft < n →
      Shelf.types.Resolves 0 t s ((viewType t s).1.map Prod.fst) (viewType t s).2)
    (he : ∀ (e : ElementId) (s : Store), s.suppliersLeft < n →
      Shelf.elements.Resolves 0 e s ((viewElement e s).1.map Prod.fst) (viewElement e s).2)
    (hct : ∀ t s, Store.Completion s (viewType t s).2)
    (hce : ∀ e s, Store.Completion s (viewElement e s).2)
    (supplier : Supplier κ) (s : Store) (hs : s.suppliersLeft < n) :
    supplier.Runs s (supplier.run viewType viewElement s).1
      (supplier.run viewType viewElement s).2 := by
  induction supplier generalizing s with
  | give k => exact .give k s
  | fail f => exact .fail f s
  | typeLabel label next ih => exact .typeLabel (ih _ s hs)
  | elementLabel label next ih => exact .elementLabel (ih _ s hs)
  | registered name next ih => exact .registered (ih _ s hs)
  | resolveType t next ih =>
    exact .resolveType (ht t s hs) (ih _ _ (Nat.lt_of_le_of_lt (hct t s).suppliersLeft_le hs))
  | resolveElement e next ih =>
    exact .resolveElement (he e s hs) (ih _ _ (Nat.lt_of_le_of_lt (hce e s).suppliersLeft_le hs))
  | newType shape next ih =>
    have hmade := completion_makeShape shape s
    exact .newType (ih _ _ (Nat.lt_of_le_of_lt hmade.suppliersLeft_le hs))
  | newElement kind next ih =>
    have hmade := (Store.Completion.refl s).makeElement { detail := .blank kind }
    exact .newElement (ih _ _ (Nat.lt_of_le_of_lt hmade.suppliersLeft_le hs))

mutual

/-- More completions inside one another than there are suppliers left are never needed. -/
theorem resolves_viewTypeWithin : ∀ (n : Nat) (t : TypeId) (s : Store), s.suppliersLeft < n →
    Shelf.types.Resolves 0 t s ((viewTypeWithin n t s).1.map Prod.fst) (viewTypeWithin n t s).2
  | n + 1, t, s, hs => Shelf.resolves_follow Shelf.counted_types (Supplier.completion_runWithin n)
      (Supplier.runs_run (resolves_viewTypeWithin n) (resolves_viewElementWithin n)
        (completion_viewTypeWithin n) (completion_viewElementWithin n))
      (s.types.size + 1) (.refl s) (Nat.zero_add _) (Nat.le_of_lt_succ hs) (.nil t)

theorem resolves_viewElementWithin : ∀ (n : Nat) (e : ElementId) (s : Store), s.suppliersLeft < n →
    Shelf.elements.Resolves 0 e s ((viewElementWithin n e s).1.map Prod.fst)
      (viewElementWithin n e s).2
  | n + 1, e, s, hs => Shelf.resolves_follow Shelf.counted_elements
      (Supplier.completion_runWithin n)
      (Supplier.runs_run (resolves_viewTypeWithin n) (resolves_viewElementWithin n)
        (completion_viewTypeWithin n) (completion_viewElementWithin n))
      (s.elements.size + 1) (.refl s) (Nat.zero_add _) (Nat.le_of_lt_succ hs) (.nil e)

end

theorem resolveType_apply (t : TypeId) (s : Store) :
    resolveType t s = ((viewType t s).1.map Prod.fst, (viewType t s).2) := by
  unfold resolveType
  rw [bind_apply]
  cases viewType t s with
  | mk r s' => cases r <;> rfl

theorem resolveElement_apply (e : ElementId) (s : Store) :
    resolveElement e s = ((viewElement e s).1.map Prod.fst, (viewElement e s).2) := by
  unfold resolveElement
  rw [bind_apply]
  cases viewElement e s with
  | mk r s' => cases r <;> rfl

/-- From every store the loop ends, with what `resolveType` computes. -/
theorem resolves_resolveType (t : TypeId) (s : Store) :
    Shelf.types.Resolves 0 t s (resolveType t s).1 (resolveType t s).2 := by
  rw [resolveType_apply]
  exact resolves_viewTypeWithin _ t s s.suppliersLeft_lt_completionDepth

theorem resolves_resolveElement (e : ElementId) (s : Store) :
    Shelf.elements.Resolves 0 e s (resolveElement e s).1 (resolveElement e s).2 := by
  rw [resolveElement_apply]
  exact resolves_viewElementWithin _ e s s.suppliersLeft_lt_completionDepth

end JavaTypes
