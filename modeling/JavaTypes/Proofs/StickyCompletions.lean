import JavaTypes.Proofs.CompletionRules
import JavaTypes.Proofs.UntouchedNodes

/-!
# A supplier runs once, and its outcome lasts

Over a whole run of operations and questions each supplier is started at most once, and what a handle
was once resolved to, a node, a failure or a cycle, it is resolved to from then on.

* `Store.StartedOnce`: no supplier was started twice, and none that was started is pending. Every step
  keeps this (`Store.startedOnce_of_change`);
* `Store.Idle`: no supplier is running. This holds between the events of a run (`Event.idle`), so a
  cycle that is reported there is one of completed slots, not one of suppliers that wait for each other;
* `Shelf.follow_later`: a resolved handle leads to the same place in every later store;
* `Session.completion_endsOnceLasts`: all of this, together with the end of every completion.
-/

namespace JavaTypes

variable {s u : Store} {S : Session}

open Action

/-! ### Suppliers are started once -/

/-- There is a slot, and it is not pending. -/
def Slot.Begun {ν κ : Type} (slots : Array (Slot ν κ)) (i : Nat) : Prop :=
  ∃ slot, slots[i]? = some slot ∧ slot.isPending = false

namespace Slot.Begun

variable {ν κ : Type} {slots : Array (Slot ν κ)} {i : Nat}

theorem push (h : Begun slots i) (slot : Slot ν κ) : Begun (slots.push slot) i := by
  obtain ⟨old, hold, hbegun⟩ := h
  exact ⟨old, get_push hold slot, hbegun⟩

theorem set (h : Begun slots i) (k : Nat) {slot : Slot ν κ} (hslot : slot.isPending = false) :
    Begun (slots.setIfInBounds k slot) i := by
  obtain ⟨old, hold, hbegun⟩ := h
  by_cases hki : k = i
  · subst hki
    exact ⟨slot, get_set hold slot, hslot⟩
  · exact ⟨old, by rw [Array.getElem?_setIfInBounds_ne hki, hold], hbegun⟩

theorem not_pending (h : Begun slots i) (supplier : Supplier κ) :
    slots[i]? ≠ some (.pending supplier) := by
  rintro hi
  obtain ⟨slot, hslot, hbegun⟩ := h
  cases hi.symm.trans hslot
  cases hbegun

end Slot.Begun

theorem Slot.IsOutcome.isPending_eq {ν κ : Type} {slot : Slot ν κ} (h : slot.IsOutcome) :
    slot.isPending = false := by
  rcases h with ⟨target, rfl⟩ | ⟨fault, rfl⟩ <;> rfl

/-- No supplier was started twice, and the slots of those that were started are not pending. -/
structure Store.StartedOnce (s : Store) : Prop where
  nodup : s.started.Nodup
  types : ∀ t, SlotRef.type t ∈ s.started → Slot.Begun s.types t.index
  elements : ∀ e, SlotRef.element e ∈ s.started → Slot.Begun s.elements e.index

namespace Store

variable {s t : Store}

/-- A step that starts no supplier. -/
theorem StartedOnce.of_begun (h : s.StartedOnce) (hstarted : t.started = s.started)
    (htypes : ∀ {i}, Slot.Begun s.types i → Slot.Begun t.types i)
    (helements : ∀ {i}, Slot.Begun s.elements i → Slot.Begun t.elements i) : t.StartedOnce where
  nodup := hstarted ▸ h.nodup
  types k hk := htypes (h.types k (hstarted ▸ hk))
  elements k hk := helements (h.elements k (hstarted ▸ hk))

theorem StartedOnce.setTypeNode (h : s.StartedOnce) (k : TypeId) (n : TypeNode) :
    (s.setTypeNode k n).StartedOnce :=
  h.of_begun rfl (fun hi => hi.set k.index rfl) id

theorem StartedOnce.setElementNode (h : s.StartedOnce) (k : ElementId) (n : ElementNode) :
    (s.setElementNode k n).StartedOnce :=
  h.of_begun rfl id fun hi => hi.set k.index rfl

theorem StartedOnce.startType (h : s.StartedOnce) {k : TypeId} {supplier : Supplier TypeId}
    (hk : s.types[k.index]? = some (.pending supplier)) : (Shelf.types.start k s).StartedOnce where
  nodup := List.nodup_cons.2 ⟨fun hmem => (h.types k hmem).not_pending supplier hk, h.nodup⟩
  types k' hk' := by
    rcases List.mem_cons.1 hk' with heq | hmem
    · cases heq
      exact ⟨.running, Slot.get_set hk .running, rfl⟩
    · exact (h.types k' hmem).set k.index rfl
  elements k' hk' := by
    rcases List.mem_cons.1 hk' with heq | hmem
    · cases heq
    · exact h.elements k' hmem

theorem StartedOnce.startElement (h : s.StartedOnce) {k : ElementId} {supplier : Supplier ElementId}
    (hk : s.elements[k.index]? = some (.pending supplier)) :
    (Shelf.elements.start k s).StartedOnce where
  nodup := List.nodup_cons.2 ⟨fun hmem => (h.elements k hmem).not_pending supplier hk, h.nodup⟩
  types k' hk' := by
    rcases List.mem_cons.1 hk' with heq | hmem
    · cases heq
    · exact h.types k' hmem
  elements k' hk' := by
    rcases List.mem_cons.1 hk' with heq | hmem
    · cases heq
      exact ⟨.running, Slot.get_set hk .running, rfl⟩
    · exact (h.elements k' hmem).set k.index rfl

theorem startedOnce_of_change (hchange : Change s t) (h : s.StartedOnce) : t.StartedOnce := by
  cases hchange with
  | names registry labels => exact ⟨h.nodup, h.types, h.elements⟩
  | newType hn => exact h.of_begun rfl (fun hi => hi.push _) id
  | newElement k => exact h.of_begun rfl id fun hi => hi.push _
  | deferType supplier => exact h.of_begun rfl (fun hi => hi.push _) id
  | deferElement supplier => exact h.of_begun rfl id fun hi => hi.push _
  | startType hk => exact h.startType hk
  | startElement hk => exact h.startElement hk
  | finishType hk hslot => exact h.of_begun rfl (fun hi => hi.set _ hslot.isPending_eq) id
  | finishElement hk hslot => exact h.of_begun rfl id fun hi => hi.set _ hslot.isPending_eq
  | editType hk hedit => exact h.setTypeNode _ _
  | editElement hk hedit => exact h.setElementNode _ _
  | setAccessor hk hn hset => exact h.setElementNode _ _
  | attach hp hc hset => exact (h.setElementNode _ _).setElementNode _ _
  | setType hk hkind hset => exact h.setElementNode _ _
  | linkType hk hkind hset ht hfree => exact (h.setElementNode _ _).setTypeNode _ _

theorem startedOnce_empty : empty.StartedOnce where
  nodup := List.nodup_nil
  types _ h := by cases h
  elements _ h := by cases h

end Store

/-! ### No supplier waits -/

/-- No supplier is running. -/
structure Store.Idle (s : Store) : Prop where
  types : ∀ i : Nat, s.types[i]? ≠ some .running
  elements : ∀ i : Nat, s.elements[i]? ≠ some .running

section Idle

variable {s : Store} {ν κ : Type} {slots slots' : Array (Slot ν κ)} {slot : Slot ν κ}

theorem Slot.not_running_push
    (h : ∀ i : Nat, slots[i]? ≠ some .running) (hslot : slot ≠ .running) (i : Nat) :
    (slots.push slot)[i]? ≠ some .running := by
  rw [Array.getElem?_push]
  split
  · exact fun heq => hslot (Option.some.inj heq)
  · exact h i

theorem Slot.not_running_set (k : Nat)
    (h : ∀ i : Nat, slots[i]? ≠ some .running) (hslot : slot ≠ .running) (i : Nat) :
    (slots.setIfInBounds k slot)[i]? ≠ some .running := by
  rw [Array.getElem?_setIfInBounds]
  split
  · split
    · exact fun heq => hslot (Option.some.inj heq)
    · exact nofun
  · exact h i

theorem Slot.Completed.not_running
    (h : Slot.Completed slots slots') (hs : ∀ i : Nat, slots[i]? ≠ some .running) (i : Nat) :
    slots'[i]? ≠ some .running :=
  fun hi => hs i (h.old_of_open hi rfl)

/-- While handles are completed, every supplier that is started ends. -/
theorem Store.Completion.idle {t : Store} (h : s.Completion t) (hs : s.Idle) : t.Idle :=
  ⟨h.types.not_running hs.types, h.elements.not_running hs.elements⟩

theorem Store.idle_empty : Store.empty.Idle where
  types i hi := by
    have hmem := List.mem_of_getElem? ((Array.getElem?_toList).trans hi)
    simp [Store.empty] at hmem
  elements i hi := by cases hi

theorem fillable_idle :
    Store.Fillable Store.Idle (fun _ => True) (fun _ => True) fun _ => True where
  leads hleads hs := (completion_of_leads hleads).idle hs
  viewType _ s hs := ⟨(completion_viewType _ s).idle hs, fun _ _ => trivial⟩
  viewElement _ s hs := ⟨(completion_viewElement _ s).idle hs, fun _ _ => ⟨trivial, trivial⟩⟩
  setTypeNode _ _ hs := ⟨Slot.not_running_set _ hs.types nofun, hs.elements⟩
  setElementNode _ _ hs := ⟨hs.types, Slot.not_running_set _ hs.elements nofun⟩
  makeType n s hs := ⟨((Store.Completion.refl s).makeType n).idle hs, fun _ _ => trivial⟩
  newElement _ s hs := ⟨((Store.Completion.refl s).makeElement _).idle hs, fun _ _ => trivial⟩
  congr _ _ _ := trivial

theorem idle_attach (role : Membership) (parent child : ElementId) :
    Maintains Store.Idle (attach role parent child) fun _ => True := by
  refine (fillable_idle.viewElement trivial).bind fun x _ =>
    (fillable_idle.viewElement trivial).bind fun y _ => .ite (maintains_throw _) ?_
  refine (maintains_ofExcept _).bind fun n' _ => (fillable_idle.setNode trivial trivial).bind fun _ _ => ?_
  refine (fillable_idle.finds fun _ => Build.finds_of_settles).bind fun m _ => ?_
  exact .ite (maintains_throw _) (fillable_idle.setNode trivial trivial)

end Idle

/-- An operation ends all suppliers that it starts. -/
theorem Operation.idle (op : Operation) (hs : s.Idle) : (op.apply s).Idle := by
  cases op with
  | newType b => exact (fillable_idle.makeType _ s hs).1
  | newErrorType element => exact (fillable_idle.makeType _ s hs).1
  | makeShape shape => exact (fillable_idle.makeShape shape s hs).1
  | editType t edit => exact (fillable_idle.editType trivial edit s hs).1
  | newElement k => exact (fillable_idle.newElement k s hs).1
  | newNamedElement k name => exact (fillable_idle.newNamedElement k name s hs).1
  | editElement e edit => exact (fillable_idle.editElement trivial edit s hs).1
  | attach role parent child => exact (idle_attach role parent child s hs).1
  | setElementType e t => exact (fillable_idle.setElementType trivial trivial s hs).1
  | setAccessor fuel _ accessor => exact (fillable_idle.setAccessor fuel trivial accessor s hs).1
  | deferType supplier => exact ⟨Slot.not_running_push hs.types nofun, hs.elements⟩
  | deferElement supplier => exact ⟨hs.types, Slot.not_running_push hs.elements nofun⟩
  | viewType t => exact (completion_viewType t s).idle hs
  | viewElement e => exact (completion_viewElement e s).idle hs
  | rename registry labels => exact ⟨hs.types, hs.elements⟩

/-- The session after a run that starts from nothing. -/
def Session.after (events : List Event) : Session :=
  .run { store := .empty } events

theorem Event.idle (event : Event) (hS : S.store.Idle) : (event.apply S).store.Idle := by
  cases event with
  | operation op => exact op.idle hS
  | question fuel q => exact (q.moves (R := Session.Between Store.Completion) fuel S).idle hS
  | reopen config hooks => exact hS

theorem Session.idle_run (events : List Event) (hS : S.store.Idle) : (S.run events).store.Idle := by
  induction events generalizing S with
  | nil => exact hS
  | cons event events ih => exact ih (event.idle hS)

theorem Session.idle_after (events : List Event) : (after events).store.Idle :=
  idle_run events Store.idle_empty

theorem Session.startedOnce_after (events : List Event) : (after events).store.StartedOnce :=
  (moves_run _ events).keeps Store.startedOnce_of_change Store.startedOnce_empty

/-- What an event leaves is there from then on. -/
theorem Session.extends_after (events : List Event) (event : Event) (later : List Event) :
    (event.apply (after events)).store.Extends (after (events ++ event :: later)).store := by
  have hrun : after (events ++ event :: later) = (event.apply (after events)).run later :=
    run_append _ events (event :: later)
  rw [hrun]
  exact Store.extends_of_moves (moves_run _ later)

/-! ### Outcomes last -/

namespace Shelf

variable {ν κ : Type} {shelf : Shelf ν κ} {run run' : Supplier κ → Build κ}

/-- A handle that has been resolved leads to the same place in every store that has all that the store
had by then. The place may have been filled in. -/
theorem follow_later {R : ν → ν → Prop} (hl : shelf.Lawful) (hrun : ∀ p s, Store.Completion s (run p s).2)
    {c n : Nat} {k : κ} {s s' u : Store} {r : Except Fault (κ × ν)}
    (h : shelf.follow run (c + 1) k s = (r, s'))
    (hc : ∀ (i : Nat) (target : κ), (shelf.slots s')[i]? = some (.done target) → i < c)
    (hidle : ∀ i : Nat, (shelf.slots s')[i]? ≠ some .running)
    (hknown : ∀ l, r.map Prod.fst ≠ .error (shelf.unknown l))
    (hext : Slot.Extended R (shelf.slots s') (shelf.slots u)) (hn : c < n) :
    ∃ r', shelf.follow run' n k u = (r', u) ∧ r'.map Prod.fst = r.map Prod.fst := by
  rcases walked_of_follow hl hrun (c + 1) k h with ⟨m, hm, l, hwalk, hstop⟩ | ⟨rfl, l, hwalk⟩
  · -- The walk came to rest; what it came to is still there.
    have hlater : ∃ r', shelf.stop? u l = some r' ∧ r'.map Prod.fst = r.map Prod.fst := by
      unfold stop? at hstop
      split at hstop
      · cases hstop
        exact absurd rfl (hknown l)
      · next v hv =>
        cases hstop
        obtain ⟨w, hw, -⟩ := hext.node hv
        exact ⟨.ok (l, w), by rw [stop?, hw], rfl⟩
      · next f hf =>
        cases hstop
        exact ⟨.error f, by rw [stop?, hext.failed hf], rfl⟩
      · next hl => exact absurd hl (hidle _)
      · cases hstop
      · cases hstop
    obtain ⟨r', hr', hsame⟩ := hlater
    obtain ⟨d, rfl⟩ : ∃ d, n = m + (d + 1) := ⟨n - m - 1, by omega⟩
    exact ⟨r', by rw [follow_of_walk run' (hwalk.mono hext.done), follow_of_stop run' hr'], hsame⟩
  · -- The walk goes round in circles, and so it does later.
    obtain ⟨l', hwalk'⟩ := hwalk.unending hc (Nat.lt_succ_self c) n
    exact ⟨_, follow_of_walk (n := 0) run' (hwalk'.mono hext.done), rfl⟩

end Shelf

theorem resolveType_later {t : TypeId} (hs : s.Idle)
    (hknown : ∀ k, (resolveType t s).1 ≠ .error (.unknownType k))
    (hext : (viewType t s).2.Extends u) : resolveType t u = ((resolveType t s).1, u) := by
  have hcompletion := completion_viewType t s
  rw [resolveType_apply] at hknown
  rw [resolveType_apply, resolveType_apply t s]
  cases hview : viewType t s with
  | mk r s' =>
    rw [hview] at hcompletion hknown hext
    obtain ⟨r', hr', hsame⟩ : ∃ r', viewType t u = (r', u) ∧ r'.map Prod.fst = r.map Prod.fst :=
      Shelf.follow_later Shelf.lawful_types (Supplier.completion_runWithin _) hview
        (fun i target hi => hcompletion.types.lt_size_of_done hi) (hcompletion.idle hs).types hknown
        hext.types (Nat.lt_succ_of_le (hcompletion.types.size_le.trans hext.types.size))
    rw [hr', hsame]

theorem resolveElement_later {e : ElementId} (hs : s.Idle)
    (hknown : ∀ k, (resolveElement e s).1 ≠ .error (.unknownElement k))
    (hext : (viewElement e s).2.Extends u) : resolveElement e u = ((resolveElement e s).1, u) := by
  have hcompletion := completion_viewElement e s
  rw [resolveElement_apply] at hknown
  rw [resolveElement_apply, resolveElement_apply e s]
  cases hview : viewElement e s with
  | mk r s' =>
    rw [hview] at hcompletion hknown hext
    obtain ⟨r', hr', hsame⟩ : ∃ r', viewElement e u = (r', u) ∧ r'.map Prod.fst = r.map Prod.fst :=
      Shelf.follow_later Shelf.lawful_elements (Supplier.completion_runWithin _) hview
        (fun i target hi => hcompletion.elements.lt_size_of_done hi) (hcompletion.idle hs).elements
        hknown hext.elements
        (Nat.lt_succ_of_le (hcompletion.elements.size_le.trans hext.elements.size))
    rw [hr', hsame]

namespace Session

/-- Completion in a run. To resolve a handle is to follow the rules of completion, which come to one end
from every store. No supplier is started twice. And what a handle is resolved to, unless it is unknown by
then, it is resolved to after everything that may happen later, and nothing is done for it any more. -/
theorem completion_endsOnceLasts (events : List Event) :
    (∀ (t : TypeId) (s : Store) (r : Except Fault TypeId) (s' : Store),
      Shelf.types.Resolves 0 t s r s' ↔ resolveType t s = (r, s')) ∧
    (∀ (e : ElementId) (s : Store) (r : Except Fault ElementId) (s' : Store),
      Shelf.elements.Resolves 0 e s r s' ↔ resolveElement e s = (r, s')) ∧
    (after events).store.started.Nodup ∧
    (∀ t : TypeId, (∀ k, (resolveType t (after events).store).1 ≠ .error (.unknownType k)) →
      ∀ later, resolveType t (after (events ++ .operation (.viewType t) :: later)).store =
        ((resolveType t (after events).store).1,
          (after (events ++ .operation (.viewType t) :: later)).store)) ∧
    ∀ e : ElementId, (∀ k, (resolveElement e (after events).store).1 ≠ .error (.unknownElement k)) →
      ∀ later, resolveElement e (after (events ++ .operation (.viewElement e) :: later)).store =
        ((resolveElement e (after events).store).1,
          (after (events ++ .operation (.viewElement e) :: later)).store) := by
  refine ⟨fun t s r s' => ⟨fun h => ?_, fun h => ?_⟩, fun e s r s' => ⟨fun h => ?_, fun h => ?_⟩,
    (startedOnce_after events).nodup, fun t hknown later => ?_, fun e hknown later => ?_⟩
  · obtain ⟨hr, hs⟩ := (resolves_resolveType t s).unique h
    exact Prod.ext hr hs
  · have hresolves := resolves_resolveType t s
    rwa [h] at hresolves
  · obtain ⟨hr, hs⟩ := (resolves_resolveElement e s).unique h
    exact Prod.ext hr hs
  · have hresolves := resolves_resolveElement e s
    rwa [h] at hresolves
  · exact resolveType_later (idle_after events) hknown
      (extends_after events (.operation (.viewType t)) later)
  · exact resolveElement_later (idle_after events) hknown
      (extends_after events (.operation (.viewElement e)) later)

/-- Suppliers that need each other. The first hands on what the second finds. The second asks the first,
which is running, and makes an array type whatever the answer is. Two more give each other, and an
element's supplier asks the first and fails. -/
def entangled : List Event :=
  [.operation (.deferType (.resolveType ⟨15⟩ .ofExcept)),
    .operation (.deferType (.resolveType ⟨14⟩ fun _ => .newArray (TypeId.primitive .int) .ofExcept)),
    .operation (.deferType (.give ⟨17⟩)), .operation (.deferType (.give ⟨16⟩)),
    .operation (.deferElement (.resolveType ⟨14⟩ fun _ => .fail (.missingElement "p.C")))]

theorem completion_endsOnceLasts_entangled :
    (resolveType ⟨14⟩ (after entangled).store).1 = .ok ⟨18⟩ ∧
    (resolveType ⟨16⟩ (after entangled).store).1 = .error .cyclicCompletion ∧
    (resolveElement ⟨0⟩ (after entangled).store).1 = .error (.missingElement "p.C") ∧
    ∀ later, (resolveType ⟨14⟩
        (after (entangled ++ .operation (.viewType ⟨14⟩) :: later)).store).1 = .ok ⟨18⟩ ∧
      (resolveType ⟨16⟩ (after (entangled ++ .operation (.viewType ⟨16⟩) :: later)).store).1 =
        .error .cyclicCompletion ∧
      (resolveElement ⟨0⟩ (after (entangled ++ .operation (.viewElement ⟨0⟩) :: later)).store).1 =
        .error (.missingElement "p.C") := by
  have harray : (resolveType ⟨14⟩ (after entangled).store).1 = .ok ⟨18⟩ := rfl
  have hcycle : (resolveType ⟨16⟩ (after entangled).store).1 = .error .cyclicCompletion := rfl
  have hfails : (resolveElement ⟨0⟩ (after entangled).store).1 = .error (.missingElement "p.C") := rfl
  obtain ⟨-, -, -, htypes, helements⟩ := completion_endsOnceLasts entangled
  refine ⟨harray, hcycle, hfails, fun later => ⟨?_, ?_, ?_⟩⟩
  · rw [htypes ⟨14⟩ (by rw [harray]; exact nofun) later, harray]
  · rw [htypes ⟨16⟩ (by rw [hcycle]; exact nofun) later, hcycle]
  · rw [helements ⟨0⟩ (by rw [hfails]; exact nofun) later, hfails]

end Session

end JavaTypes
