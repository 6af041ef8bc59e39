import JavaTypes.Proofs.StickyCompletions

/-!
# Peeking and resolving agree

To peek at a handle is to resolve it as far as no supplier has to run, and what was resolved can be
peeked at from then on. Both walk along slots, with bounds of their own that are taken from the number of
slots. The bounds are exact: a chain of completed slots is followed to its node however long it is, and
one that comes back to a slot is reported as a cycle.

* `Shelf.follow_eq_or_started`: a walk leaves the store as it was, unless it starts a supplier;
* `Session.Agrees`: how peeking at a handle goes with resolving it, in a state of a session;
* `Session.agrees_resolve`: this holds of every type and every element in every state.
-/

namespace JavaTypes

open Action

/-- A walk that comes back to a slot never ends. -/
theorem Slot.Walk.unending_of_back {ν κ : Type} {slots : Array (Slot ν κ)} {index : κ → Nat}
    {m n : Nat} {k l l' : κ} (h : Walk slots index m k l) (hback : Walk slots index (n + 1) l l')
    (hl : index l' = index l) (d : Nat) : ∃ x, Walk slots index d k x := by
  rcases exists_walk slots index d k with hwalk | ⟨e, -, x, hwalk, hstops⟩
  · exact hwalk
  · -- Otherwise the rest of the way from the slot to the end would be shorter than itself.
    obtain ⟨rest, rfl⟩ := Nat.exists_eq_add_of_le (hwalk.le_of_walk hstops h)
    have hrest := h.drop hwalk
    obtain ⟨rest', rfl⟩ := Nat.exists_eq_add_of_le (hrest.le_of_walk hstops hback)
    have hlen := hrest.length_eq hstops (hback.drop hrest) hstops hl.symm
    omega

/-! ### Suppliers that are started -/

theorem respected_started :
    Store.Respected (fun _ _ => True) fun s t => s.started.length ≤ t.started.length where
  refl _ := le_rfl
  trans := le_trans
  makeShape {_ s} _ := makeShape_induction (I := fun t => s.started.length ≤ t.started.length) le_rfl
    fun _ h _ _ => h
  makeElement _ _ := le_rfl
  types _ h _ := (Nat.le_succ _).trans h
  elements _ h _ := (Nat.le_succ _).trans h

namespace Shelf

variable {ν κ : Type} {shelf : Shelf ν κ}

/-- A walk leaves the store as it was, unless it starts a supplier. -/
theorem follow_eq_or_started {run : Supplier κ → Build κ}
    (hmodify : ∀ f s, (shelf.modify f s).started = s.started)
    (hrun : ∀ p s, s.started.length ≤ (run p s).2.started.length) (n : Nat) (k : κ) (s : Store) :
    (shelf.follow run n k s).2 = s ∨ s.started.length < (shelf.follow run n k s).2.started.length := by
  induction n generalizing k s with
  | zero => exact .inl rfl
  | succ n ih =>
    unfold follow
    split
    · exact .inl rfl
    · exact .inl rfl
    · next k' hk => exact ih k' s
    · exact .inl rfl
    · exact .inl rfl
    · next supplier hk =>
      refine .inr ?_
      have hstart : (shelf.start k s).started = shelf.ref k :: s.started :=
        congrArg (List.cons _) (hmodify _ s)
      have hlonger : s.started.length < (shelf.complete run k supplier s).2.started.length := by
        have hran := hrun supplier (shelf.start k s)
        rw [hstart, List.length_cons] at hran
        rw [complete_apply]
        exact lt_of_lt_of_eq hran (congrArg List.length (hmodify _ _).symm)
      cases hc : shelf.complete run k supplier s with
      | mk r s₁ =>
        rw [hc] at hlonger
        cases r with
        | ok target =>
          rw [bind_of_ok hc]
          rcases ih target s₁ with heq | hlt
          · rwa [heq]
          · exact hlonger.trans hlt
        | error f => rwa [bind_of_error hc]

/-- How the handles of a shelf are completed and peeked at. -/
structure Reads (shelf : Shelf ν κ) (view : κ → Build (κ × ν))
    (peek : Store → κ → Option (κ × ν)) : Prop where
  started : ∀ f s, (shelf.modify f s).started = s.started
  follows : ∀ k s, ∃ n, view k s =
    shelf.follow (Supplier.run (viewTypeWithin n) (viewElementWithin n)) ((shelf.slots s).size + 1) k s
  persists : ∀ k, Persists (view k)
  known : ∀ {k s found}, Known (view k) s found ↔ peek s k = some found
  slot : ∀ {k s c v}, peek s k = some (c, v) → (shelf.slots s)[shelf.index c]? = some (.node v)
  stays : ∀ {k s t c v}, s.Extends t → peek s k = some (c, v) → ∃ w, peek t k = some (c, w)

theorem reads_types : types.Reads viewType Store.peekType where
  started _ _ := rfl
  follows _ _ := ⟨_, rfl⟩
  persists := persists_viewType
  known := known_viewType
  slot := Slot.slot_of_peek
  stays h hk := (h.peekType hk).imp fun _ hw => hw.1

theorem reads_elements : elements.Reads viewElement Store.peekElement where
  started _ _ := rfl
  follows _ _ := ⟨_, rfl⟩
  persists := persists_viewElement
  known := known_viewElement
  slot := Slot.slot_of_peek
  stays h hk := (h.peekElement hk).imp fun _ hw => hw.1

namespace Reads

variable {view : κ → Build (κ × ν)} {peek : Store → κ → Option (κ × ν)} {k : κ} {s : Store}

theorem eq_or_started (h : shelf.Reads view peek) (k : κ) (s : Store) :
    (view k s).2 = s ∨ s.started.length < (view k s).2.started.length := by
  obtain ⟨n, hn⟩ := h.follows k s
  rw [hn]
  exact follow_eq_or_started h.started (fun p s => Supplier.respects_run respected_started
    (respects_viewTypeWithin respected_started n) (respects_viewElementWithin respected_started n) p s
    fun _ _ => trivial) _ k s

/-- What was found can be peeked at. -/
theorem peek_of_view (h : shelf.Reads view peek) {found : κ × ν} {s' : Store}
    (hview : view k s = (.ok found, s')) : peek s' k = some found := by
  have hagain := h.persists k s
  rw [hview] at hagain
  exact h.known.1 hagain

/-- A chain of completed slots is never too long. -/
theorem view_of_walk (h : shelf.Reads view peek) {m : Nat} {c : κ} {v : ν}
    (hwalk : Slot.Walk (shelf.slots s) shelf.index m k c)
    (hc : (shelf.slots s)[shelf.index c]? = some (.node v)) : view k s = (.ok (c, v), s) := by
  obtain ⟨n, hn⟩ := h.follows k s
  have hstops : Slot.Stops (shelf.slots s) shelf.index c := fun target => by rw [hc]; exact nofun
  have hle : m ≤ (shelf.slots s).size :=
    hwalk.le_of_stop hstops fun i target hi => (Array.getElem?_eq_some_iff.1 hi).1
  obtain ⟨d, hd⟩ : ∃ d, (shelf.slots s).size + 1 = m + (d + 1) := ⟨(shelf.slots s).size - m, by omega⟩
  rw [hn, hd, follow_of_walk _ hwalk, follow_of_stop _ (by rw [stop?, hc])]

/-- A chain of completed slots that comes back to one of them is a cycle. -/
theorem view_of_back (h : shelf.Reads view peek) {m n : Nat} {l l' : κ}
    (hwalk : Slot.Walk (shelf.slots s) shelf.index m k l)
    (hback : Slot.Walk (shelf.slots s) shelf.index (n + 1) l l')
    (hl : shelf.index l' = shelf.index l) : view k s = (.error .cyclicCompletion, s) := by
  obtain ⟨d, hd⟩ := h.follows k s
  obtain ⟨x, hx⟩ := hwalk.unending_of_back hback hl ((shelf.slots s).size + 1)
  rw [hd]
  exact follow_of_walk (n := 0) _ hx

/-- What is found in the store that completion leaves is what completion has found. -/
theorem view_eq_of_either (h : shelf.Reads view peek) {t : Store} {r : Except Fault (κ × ν)}
    (ht : t = s ∨ t = (view k s).2) (hview : view k t = (r, t)) : (view k s).1 = r := by
  rcases ht with rfl | rfl
  · rw [hview]
  · rw [← h.persists k s, hview]

end Reads

end Shelf

/-! ### Peeking and resolving -/

namespace Session

variable {ν κ : Type}

/-- How peeking at a handle goes with resolving it, in a state of a session. Resolving keeps to the rules
of completion, with their count of hops. -/
structure Agrees (S : Session) (shelf : Shelf ν κ) (resolve : κ → Build κ)
    (peek : Store → κ → Option (κ × ν)) (k : κ) : Prop where
  resolves : shelf.Resolves 0 k S.store (resolve k S.store).1 (resolve k S.store).2
  /-- Peeking finds what resolving answers with where no supplier is started. -/
  peek_iff : ∀ c, (∃ v, peek S.store k = some (c, v)) ↔
    ∃ s, resolve k S.store = (.ok c, s) ∧ s.started = S.store.started
  /-- What was resolved is a node, and it can be peeked at whatever happens from then on. -/
  lasts : ∀ {c s}, resolve k S.store = (.ok c, s) → ∀ {T : Session}, T.store = s → ∀ events,
    ∃ v, peek (T.run events).store k = some (c, v) ∧
      (shelf.slots (T.run events).store)[shelf.index c]? = some (.node v)
  /-- A chain of completed slots, be it there before or afterwards, is followed to its node. -/
  reaches : ∀ {s}, s = S.store ∨ s = (resolve k S.store).2 → ∀ {m c v},
    Slot.Walk (shelf.slots s) shelf.index m k c → (shelf.slots s)[shelf.index c]? = some (.node v) →
      (resolve k S.store).1 = .ok c
  /-- A chain of completed slots that comes back to one of them is reported. -/
  comesBack : ∀ {s}, s = S.store ∨ s = (resolve k S.store).2 → ∀ {m n l l'},
    Slot.Walk (shelf.slots s) shelf.index m k l → Slot.Walk (shelf.slots s) shelf.index (n + 1) l l' →
      shelf.index l' = shelf.index l → (resolve k S.store).1 = .error .cyclicCompletion

theorem agrees_of_reads {shelf : Shelf ν κ} {view : κ → Build (κ × ν)} {resolve : κ → Build κ}
    {peek : Store → κ → Option (κ × ν)} (h : shelf.Reads view peek)
    (hresolve : ∀ k s, resolve k s = ((view k s).1.map Prod.fst, (view k s).2))
    (hrules : ∀ k s, shelf.Resolves 0 k s (resolve k s).1 (resolve k s).2) (S : Session) (k : κ) :
    S.Agrees shelf resolve peek k := by
  -- What was resolved was found together with its node.
  have hfound : ∀ {c s}, resolve k S.store = (.ok c, s) → ∃ v, view k S.store = (.ok (c, v), s) := by
    intro c s hc
    rw [hresolve] at hc
    cases hview : view k S.store with
    | mk r s' =>
      rw [hview] at hc
      cases r with
      | ok found =>
        cases hc
        exact ⟨found.2, rfl⟩
      | error f => cases hc
  refine ⟨hrules k S.store, fun c => ⟨?_, ?_⟩, ?_, ?_, ?_⟩
  · rintro ⟨v, hv⟩
    exact ⟨S.store, by rw [hresolve, h.known.2 hv]; rfl, rfl⟩
  · rintro ⟨s, hc, hstarted⟩
    obtain ⟨v, hv⟩ := hfound hc
    have hsame := h.eq_or_started k S.store
    rw [hv, hstarted] at hsame
    obtain rfl : s = S.store := hsame.resolve_right (Nat.lt_irrefl _)
    exact ⟨v, h.peek_of_view hv⟩
  · intro c s hc T hT events
    obtain ⟨v, hv⟩ := hfound hc
    obtain ⟨w, hw⟩ := h.stays (hT ▸ Store.extends_of_moves (moves_run T events)) (h.peek_of_view hv)
    exact ⟨w, hw, h.slot hw⟩
  · intro s hs m c v hwalk hc
    rw [hresolve] at hs ⊢
    rw [h.view_eq_of_either hs (h.view_of_walk hwalk hc)]
    rfl
  · intro s hs m n l l' hwalk hback hl
    rw [hresolve] at hs ⊢
    rw [h.view_eq_of_either hs (h.view_of_back hwalk hback hl)]
    rfl

/-- In every state, peeking at a handle goes with resolving it: it finds the same where no supplier has to
be started, and everything that was ever resolved; and no chain of completed slots is too long, unless it
comes back to one of them. -/
theorem agrees_resolve (S : Session) : (∀ t, S.Agrees .types resolveType Store.peekType t) ∧
      ∀ e, S.Agrees .elements resolveElement Store.peekElement e :=
  ⟨agrees_of_reads Shelf.reads_types resolveType_apply resolves_resolveType S,
    agrees_of_reads Shelf.reads_elements resolveElement_apply resolves_resolveElement S⟩

end Session

end JavaTypes
