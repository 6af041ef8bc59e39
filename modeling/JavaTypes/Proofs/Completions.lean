import JavaTypes.Proofs.StoreChanges
import Mathlib.Data.Finset.Card

/-!
# Completions have lasting outcomes

A completion that is asked for again has the outcome that it had, failures included, and changes nothing
(`persists_viewType`, `persists_viewElement`).

A completion also fails when its walk comes back to a slot, and the bound on the length of a walk is
taken from the store, which may have grown since. That the failure stays is a counting argument: the
slots that a walk passes are deferred, those that were added are not, so a walk that is longer than
the store was at first has come back to a slot (`Slot.Walk.le_of_stop`).
-/

namespace JavaTypes

open Action

/-! ### Walks -/

namespace Slot

variable {ν κ : Type}

/-- A number of completed slots lead from one handle to another. -/
inductive Walk (slots : Array (Slot ν κ)) (index : κ → Nat) : Nat → κ → κ → Prop
  | nil (k : κ) : Walk slots index 0 k k
  | cons {n : Nat} {k k' l : κ} (h : slots[index k]? = some (.done k'))
      (rest : Walk slots index n k' l) : Walk slots index (n + 1) k l

/-- A walk ends at a handle whose slot does not stand for another. -/
def Stops (slots : Array (Slot ν κ)) (index : κ → Nat) (k : κ) : Prop :=
  ∀ target, slots[index k]? ≠ some (.done target)

variable {slots : Array (Slot ν κ)} {index : κ → Nat} {m n c : Nat} {k k' l l' : κ}

/-- Two walks over the same slots that end are equally long. -/
theorem Walk.length_eq (h : Walk slots index m k l) (hl : Stops slots index l)
    (h' : Walk slots index n k' l') (hl' : Stops slots index l') (hk : index k = index k') :
    m = n := by
  induction h generalizing n k' with
  | nil k =>
    cases h' with
    | nil => rfl
    | cons hdone _ => exact absurd (hk ▸ hdone) (hl _)
  | cons hdone _ ih =>
    cases h' with
    | nil => exact absurd (hk ▸ hdone) (hl' _)
    | cons hdone' rest' =>
      rw [hk, hdone'] at hdone
      cases hdone
      rw [ih hl rest' rfl]

/-- A walk passes a slot at every distance from its end. -/
theorem Walk.exists_at (h : Walk slots index m k l) {d : Nat} (hd : d < m) :
    ∃ x target, slots[index x]? = some (.done target) ∧ Walk slots index (d + 1) x l := by
  induction h with
  | nil => omega
  | @cons m k k' l hdone rest ih =>
    by_cases hlast : d = m
    · subst hlast
      exact ⟨k, k', hdone, .cons hdone rest⟩
    · exact ih (by omega)

/-- A walk that ends is no longer than there are slots that stand for others. -/
theorem Walk.le_of_stop (h : Walk slots index m k l) (hl : Stops slots index l)
    (hc : ∀ (i : Nat) (target : κ), slots[i]? = some (.done target) → i < c) : m ≤ c := by
  -- The slots at different distances from the end are different.
  have hplaces : ∀ d, d < m → ∃ i x, index x = i ∧ i < c ∧ Walk slots index (d + 1) x l := by
    intro d hd
    obtain ⟨x, target, hdone, hwalk⟩ := h.exists_at hd
    exact ⟨index x, x, rfl, hc _ _ hdone, hwalk⟩
  choose! place hplace using hplaces
  have hmaps : ∀ d ∈ Finset.range m, place d ∈ Finset.range c := by
    intro d hd
    obtain ⟨x, -, hlt, -⟩ := hplace d (Finset.mem_range.1 hd)
    exact Finset.mem_range.2 hlt
  have hinj : Set.InjOn place (Finset.range m) := by
    intro d hd d' hd' heq
    obtain ⟨x, hx, -, hwalk⟩ := hplace d (Finset.mem_range.1 hd)
    obtain ⟨x', hx', -, hwalk'⟩ := hplace d' (Finset.mem_range.1 hd')
    have hlen := hwalk.length_eq hl hwalk' hl (hx.trans (heq.trans hx'.symm))
    omega
  have hcard := Finset.card_le_card_of_injOn place hmaps hinj
  rwa [Finset.card_range, Finset.card_range] at hcard

/-- From a handle there is a walk of any length, or a shorter one that ends. -/
theorem exists_walk (slots : Array (Slot ν κ)) (index : κ → Nat) : ∀ (n : Nat) (k : κ),
    (∃ l, Walk slots index n k l) ∨ ∃ m < n, ∃ l, Walk slots index m k l ∧ Stops slots index l
  | 0, k => .inl ⟨k, .nil k⟩
  | n + 1, k => by
      by_cases hk : ∃ k', slots[index k]? = some (.done k')
      · obtain ⟨k', hk⟩ := hk
        rcases exists_walk slots index n k' with ⟨l, hl⟩ | ⟨m, hm, l, hl, hstops⟩
        · exact .inl ⟨l, .cons hk hl⟩
        · exact .inr ⟨m + 1, by omega, l, .cons hk hl, hstops⟩
      · exact .inr ⟨0, by omega, k, .nil k, fun target h => hk ⟨target, h⟩⟩

/-- A walk that ends is as long as can be. -/
theorem Walk.le_of_walk (h : Walk slots index m k l) (hl : Stops slots index l)
    (h' : Walk slots index n k l') : n ≤ m := by
  induction h generalizing n with
  | nil k =>
    cases h' with
    | nil => exact le_rfl
    | cons hdone _ => exact absurd hdone (hl _)
  | cons hdone _ ih =>
    cases h' with
    | nil => omega
    | cons hdone' rest' =>
      rw [hdone] at hdone'
      cases hdone'
      have hle := ih hl rest'
      omega

/-- A walk that is longer than there are slots that stand for others never ends. -/
theorem Walk.unending (h : Walk slots index n k l)
    (hc : ∀ (i : Nat) (target : κ), slots[i]? = some (.done target) → i < c) (hlong : c < n)
    (m : Nat) : ∃ l', Walk slots index m k l' := by
  rcases exists_walk slots index m k with hwalk | ⟨d, -, l', hwalk, hstops⟩
  · exact hwalk
  · have hle := hwalk.le_of_stop hstops hc
    have hle' := hwalk.le_of_walk hstops h
    omega

end Slot

/-! ### Outcomes last -/

namespace Shelf

variable {ν κ : Type} {shelf : Shelf ν κ} {run : Supplier κ → Build κ}

variable {n : Nat} {s : Store} {k k' l : κ} {r : Except Fault (κ × ν)}

/-- The outcome of a completion that has come to a slot, unless the slot stands for another or is
pending. -/
def stop? (shelf : Shelf ν κ) (s : Store) (k : κ) : Option (Except Fault (κ × ν)) :=
  match (shelf.slots s)[shelf.index k]? with
  | none => some (.error (shelf.unknown k))
  | some (.node v) => some (.ok (k, v))
  | some (.failed f) => some (.error f)
  | some .running => some (.error .cyclicCompletion)
  | some (.done _) | some (.pending _) => none

theorem follow_of_stop (run : Supplier κ → Build κ) (h : shelf.stop? s k = some r) (n : Nat) :
    shelf.follow run (n + 1) k s = (r, s) := by
  unfold stop? at h
  unfold follow
  split at h
  case _ hk => simp_all
  case _ hk => simp_all
  case _ hk => simp_all
  case _ hk => simp_all
  case _ hk => cases h
  case _ hk => cases h

theorem follow_done (run : Supplier κ → Build κ)
    (h : (shelf.slots s)[shelf.index k]? = some (.done k')) (n : Nat) :
    shelf.follow run (n + 1) k s = shelf.follow run n k' s := by
  rw [follow]
  simp only [h]

/-- A walk over completed slots changes nothing. -/
theorem follow_of_walk (run : Supplier κ → Build κ) {m : Nat}
    (h : Slot.Walk (shelf.slots s) shelf.index m k l) :
    shelf.follow run (m + n) k s = shelf.follow run n l s := by
  induction h with
  | nil => rw [Nat.zero_add]
  | cons hdone _ ih => rw [Nat.add_right_comm, follow_done run hdone, ih]

/-- What can be seen of a completion afterwards: its walk has come to rest, or it was cut off. -/
def Walked (shelf : Shelf ν κ) (s : Store) (n : Nat) (k : κ) (r : Except Fault (κ × ν)) : Prop :=
  (∃ m < n, ∃ l, Slot.Walk (shelf.slots s) shelf.index m k l ∧ shelf.stop? s l = some r) ∨
    (r = .error .cyclicCompletion ∧ ∃ l, Slot.Walk (shelf.slots s) shelf.index n k l)

theorem walked_of_stop (h : shelf.stop? s k = some r) (n : Nat) : shelf.Walked s (n + 1) k r :=
  .inl ⟨0, Nat.succ_pos n, k, .nil k, h⟩

theorem Walked.cons
    (hk : (shelf.slots s)[shelf.index k]? = some (.done k')) (h : shelf.Walked s n k' r) :
    shelf.Walked s (n + 1) k r := by
  rcases h with ⟨m, hm, l, hwalk, hstop⟩ | ⟨hr, l, hwalk⟩
  · exact .inl ⟨m + 1, Nat.succ_lt_succ hm, l, .cons hk hwalk, hstop⟩
  · exact .inr ⟨hr, l, .cons hk hwalk⟩

theorem walked_of_follow (hl : shelf.Lawful) (hrun : ∀ p s, Store.Completion s (run p s).2) :
    ∀ (n : Nat) (k : κ) {s s' : Store} {r : Except Fault (κ × ν)},
      shelf.follow run n k s = (r, s') → shelf.Walked s' n k r
  | 0, k, s, s', r, h => by
      cases h
      exact .inr ⟨rfl, k, .nil k⟩
  | n + 1, k, s, s', r, h => by
      -- A slot that stands for another by the time the walk goes on still does at its end.
      have hgoesOn : ∀ {k' s₁}, (shelf.slots s₁)[shelf.index k]? = some (.done k') →
          shelf.follow run n k' s₁ = (r, s') → shelf.Walked s' (n + 1) k r := by
        intro k' s₁ hk h'
        have hlater := completion_follow hl hrun n k' s₁
        rw [h'] at hlater
        exact (walked_of_follow hl hrun n k' h').cons ((hl.completed hlater).kept _ _ hk rfl)
      unfold follow at h
      split at h
      · next hk =>
        cases h
        exact walked_of_stop (by rw [stop?, hk]) n
      · next v hk =>
        cases h
        exact walked_of_stop (by rw [stop?, hk]) n
      · next k' hk => exact hgoesOn hk h
      · next f hk =>
        cases h
        exact walked_of_stop (by rw [stop?, hk]) n
      · next hk =>
        cases h
        exact walked_of_stop (by rw [stop?, hk]) n
      · next supplier hk =>
        cases hc : shelf.complete run k supplier s with
        | mk r₁ s₁ =>
          have hended := slots_of_complete hl hrun hk hc
          cases r₁ with
          | ok target =>
            rw [bind_of_ok hc] at h
            exact hgoesOn hended h
          | error f =>
            rw [bind_of_error hc] at h
            cases h
            exact walked_of_stop (by rw [stop?, hended]; rfl) n

/-- A completion that is asked for again has the outcome that it had and changes nothing, if its walk
was as long as there are slots that can stand for others. The bound on walks may have grown by
then. -/
theorem follow_again (hl : shelf.Lawful) (hrun : ∀ p s, Store.Completion s (run p s).2) {c : Nat}
    {s' : Store} (h : shelf.follow run (c + 1) k s = (r, s'))
    (hc : ∀ (i : Nat) (target : κ), (shelf.slots s')[i]? = some (.done target) → i < c)
    (run' : Supplier κ → Build κ) (hn : c < n) : shelf.follow run' n k s' = (r, s') := by
  rcases walked_of_follow hl hrun (c + 1) k h with ⟨m, hm, l, hwalk, hstop⟩ | ⟨rfl, l, hwalk⟩
  · obtain ⟨d, rfl⟩ : ∃ d, n = m + (d + 1) := ⟨n - m - 1, by omega⟩
    rw [follow_of_walk run' hwalk, follow_of_stop run' hstop]
  · obtain ⟨l', hwalk'⟩ := hwalk.unending hc (Nat.lt_succ_self c) n
    exact follow_of_walk (n := 0) run' hwalk'

end Shelf

/-! ### Actions that persist -/

namespace Action

variable {σ α β : Type}

/-- An action that, run again, has the outcome that it had and changes nothing. For an action that
settles this says more than is known already only where it fails. -/
def Persists (x : Action σ α) : Prop :=
  ∀ s, x (x s).2 = x s

theorem persists_pure (a : α) : Persists (pure a : Action σ α) :=
  fun _ => rfl

theorem Persists.bind [Evolving σ] {x : Action σ α} {f : α → Action σ β} (hx : Persists x)
    [sx : Settles x x] [sf : ∀ a, Settles (f a) (f a)] (hf : ∀ a, Persists (f a)) :
    Persists (x >>= f) := by
  intro s
  have hagain := hx s
  cases hs : x s with
  | mk r s₁ =>
    cases r with
    | ok a =>
      rw [bind_of_ok hs]
      -- By the time the rest has ended, the first answer is known.
      have hknown := sx.stays hs ((sf a).le s₁)
      rw [bind_of_ok hknown, hf a s₁]
    | error e =>
      rw [hs] at hagain
      rw [bind_of_error hs]
      exact bind_of_error hagain

theorem Persists.map [Evolving σ] {x : Action σ α} (hx : Persists x) [Settles x x]
    (f : α → β) : Persists (x >>= fun a => pure (f a)) :=
  hx.bind fun a => persists_pure (f a)

end Action

/-- A type whose completion was asked for once has the same outcome when it is asked for again. -/
theorem persists_viewType (k : TypeId) : Persists (viewType k) := by
  intro s
  have hcompleted := completion_viewType k s
  cases hs : viewType k s with
  | mk r s' =>
    rw [hs] at hcompleted
    exact Shelf.follow_again Shelf.lawful_types (Supplier.completion_runWithin _) hs
      (fun i target hi => hcompleted.types.lt_size_of_done hi) _
      (Nat.lt_succ_of_le hcompleted.types.size_le)

theorem persists_viewElement (k : ElementId) : Persists (viewElement k) := by
  intro s
  have hcompleted := completion_viewElement k s
  cases hs : viewElement k s with
  | mk r s' =>
    rw [hs] at hcompleted
    exact Shelf.follow_again Shelf.lawful_elements (Supplier.completion_runWithin _) hs
      (fun i target hi => hcompleted.elements.lt_size_of_done hi) _
      (Nat.lt_succ_of_le hcompleted.elements.size_le)

end JavaTypes
