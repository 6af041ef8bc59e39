import JavaTypes.Proofs.Questions

/-!
# Ranks that last

The questions about ranks do not settle: their answers depend on the ranks that the session remembers.
A session remembers the rank of an element once, when it has none for it. The rank that is remembered
is the one that was answered, so an answer lasts as long as the ranks do.

* `Session.Informs S T`: the session `T` knows what `S` knows, and remembers the ranks of `S`;
* `Session.Ranks pending S T`: the session `T` remembers further ranks, but none of an element that is
  pending, and no further closures;
* `Action.Lasts x y`: once `x` has answered, `y` gives the same answer in every session that is informed
  of the ranks, and changes nothing;
* `lasts_rankFrom`, `lasts_precedes`, `lasts_closureInsert`, `lasts_closureUnion`: questions that
  settle up to ranks. A rank that is asked while other ranks are pending need not last.
-/

namespace JavaTypes

open Action

/-! ### Sessions that remember ranks -/

namespace Session

/-- What is known in the first session is known in the second, and its ranks are remembered there. -/
structure Informs (S T : Session) : Prop where
  le : S ≤ T
  ranks : ∀ {e r}, S.memo.ranks.lookup e = some r → T.memo.ranks.lookup e = some r

/-- The second session comes from the first by questions about ranks, asked while the ranks of the
elements in `pending` are being computed. -/
structure Ranks (pending : List ElementId) (S T : Session) : Prop extends Informs S T where
  later : Later S T
  pending : ∀ e ∈ pending, T.memo.ranks.lookup e = S.memo.ranks.lookup e
  closures : T.memo.closures = S.memo.closures

variable {pending : List ElementId} {S T U : Session}

theorem Informs.refl (S : Session) : Informs S S :=
  ⟨le_refl S, id⟩

theorem Informs.trans (h₁ : Informs S T) (h₂ : Informs T U) : Informs S U :=
  ⟨le_trans h₁.le h₂.le, fun hlook => h₂.ranks (h₁.ranks hlook)⟩

theorem Ranks.refl (pending : List ElementId) (S : Session) : Ranks pending S S :=
  { Informs.refl S with later := .refl S, pending := fun _ _ => rfl, closures := rfl }

theorem Ranks.of_cons {e : ElementId} (h : Ranks (e :: pending) S T) : Ranks pending S T :=
  { h.toInforms with
    later := h.later
    pending := fun d hd => h.pending d (List.mem_cons_of_mem e hd)
    closures := h.closures }

theorem Ranks.trans (h₁ : Ranks pending S T) (h₂ : Ranks pending T U) : Ranks pending S U :=
  { h₁.toInforms.trans h₂.toInforms with
    later := h₁.later.trans h₂.later
    pending := fun e he => (h₂.pending e he).trans (h₁.pending e he)
    closures := h₂.closures.trans h₁.closures }

theorem Ranks.of_leads (pending : List ElementId) (h : Leads S T) : Ranks pending S T := by
  obtain ⟨hranks, hclosures⟩ := memo_of_leads h
  refine { le := h.le, ranks := fun hlook => ?_, later := .of_leads h, pending := fun e _ => ?_
           closures := hclosures }
  · rw [hranks]
    exact hlook
  · rw [hranks]

/-- A rank is remembered for an element that has none. -/
theorem ranks_setRank {e : ElementId} (hfree : T.memo.ranks.lookup e = none) (he : e ∉ pending)
    (rank : Nat) : Ranks pending T { T with memo := T.memo.setRank e rank } := by
  have hother : ∀ d, d ≠ e → ((e, rank) :: T.memo.ranks).lookup d = T.memo.ranks.lookup d := by
    intro d hd
    rw [List.lookup_cons, beq_false_of_ne hd]
  have hlater := later_remember T ((e, rank) :: T.memo.ranks) T.memo.closures
  refine { le := hlater.le, ranks := fun {d r} hlook => ?_, later := hlater
           pending := fun d hd => ?_, closures := rfl }
  · refine (hother d ?_).trans hlook
    rintro rfl
    cases hfree.symm.trans hlook
  · refine hother d ?_
    rintro rfl
    exact he hd

instance admitsSettling_ranks : AdmitsSettling (Ranks pending) where
  refl := .refl pending
  trans := .trans
  leads := .of_leads pending

end Session

/-! ### Questions about ranks -/

namespace Query

/-- Whatever becomes of the question, it leads only to further ranks. -/
abbrev Ranks {α : Type} (pending : List ElementId) (x : Query α) : Prop :=
  Query.Moves (Session.Ranks pending) x

theorem Ranks.of_eq {α : Type} {pending : List ElementId} {x : Query α} (hx : Query.Ranks pending x)
    {S S' : Session} {r : Except Fault α} (h : x S = (r, S')) : Session.Ranks pending S S' := by
  have hS := hx.run S
  rwa [h] at hS

end Query

open Query

section Ranks

variable {pending : List ElementId}

/-- While an element is pending no rank is remembered for it, so it has none for what comes next. -/
theorem ranks_bind_of_pending {α β : Type} {e : ElementId} {x : Query α} {f : α → Query β}
    (hx : Query.Ranks (e :: pending) x)
    (hf : ∀ a T, T.memo.ranks.lookup e = none → Session.Ranks pending T (f a T).2) {S : Session}
    (hfree : S.memo.ranks.lookup e = none) : Session.Ranks pending S ((x >>= f) S).2 := by
  rw [bind_apply]
  cases hr : x S with
  | mk r S' =>
    have hS := hx.of_eq hr
    cases r with
    | ok a => exact hS.of_cons.trans (hf a S' ((hS.pending e List.mem_cons_self).trans hfree))
    | error f => exact hS.of_cons

theorem ranks_rankOfElement {fuel : Nat} {rank : List ElementId → TypeId → Query Nat}
    [hrank : ∀ pending t, Query.Ranks pending (rank pending t)] (pending : List ElementId)
    (e : ElementId) : Query.Ranks pending (Session.rankOfElement fuel rank pending e) := by
  refine .bind_of fun o => .ite_of (.pure 0) ⟨fun S => ?_⟩
  rw [bind_of_ok (get_apply S)]
  cases hfree : S.memo.ranks.lookup e with
  | some r => exact .refl pending S
  | none =>
    split
    · exact .refl pending S
    next he =>
    refine ranks_bind_of_pending moves_of_settles (fun own T hT => ?_) hfree
    cases own with
    | some own =>
      exact ranks_bind_of_pending (moves_rankAbove fuel own)
        (fun rank U hU => Session.ranks_setRank hU he rank) hT
    | none => exact Session.ranks_setRank hT he 1

instance ranks_rankFrom (fuel : Nat) (pending : List ElementId) (t : TypeId) :
    Query.Ranks pending (rankFrom fuel pending t) := by
  induction fuel generalizing pending t with
  | zero => exact .throw _
  | succ fuel ih =>
    refine .bind_of fun x => ?_
    dsimp only
    split
    case h_1 | h_2 =>
      refine .bind_of fun own => ?_
      cases own with
      | none => exact .pure 0
      | some e => exact ranks_rankOfElement pending e
    all_goals infer_instance

end Ranks

/-! ### Answers that last as long as ranks -/

namespace Action

variable {α β : Type} {x y : Query α} {f g : α → Query β}

/-- The question leads only to further ranks. Once `x` has answered, `y` gives the same answer wherever
these ranks are remembered, without changing the session. -/
class Lasts (x y : Query α) : Prop where
  ranks : Query.Ranks [] x
  stays : ∀ {S S' T : Session} {a : α}, x S = (.ok a, S') → S'.Informs T → y T = (.ok a, T)

instance lasts_of_settles [h : Settles x y] : Lasts x y where
  ranks := ⟨fun S => .of_leads [] (h.leads S)⟩
  stays hx hT := h.stays hx hT.le

theorem lasts_pure (a : α) : Lasts (pure a : Query α) (pure a) :=
  lasts_of_settles

instance ranks_of_lasts [h : Lasts x x] : Query.Ranks [] x :=
  h.ranks

instance lasts_ite {c : Prop} [Decidable c] {x' y' : Query α} [hx : Lasts x x'] [hy : Lasts y y'] :
    Lasts (if c then x else y) (if c then x' else y') := by
  split
  · exact hx
  · exact hy

instance lasts_bind [hx : Lasts x y] [hf : ∀ a, Lasts (f a) (g a)] : Lasts (x >>= f) (y >>= g) where
  ranks := by
    have := hx.ranks
    exact .bind_of fun a => (hf a).ranks
  stays := by
    intro S S' T b h hT
    obtain ⟨a, S₁, h₁, h₂⟩ := bind_eq_ok h
    have hS₁ := (hf a).ranks.of_eq h₂
    rw [bind_of_ok (hx.stays h₁ (hS₁.toInforms.trans hT))]
    exact (hf a).stays h₂ hT

theorem lasts_bind_of [Lasts x y] (hf : ∀ a, Lasts (f a) (g a)) : Lasts (x >>= f) (y >>= g) :=
  lasts_bind

end Action

section Lasting

variable {fuel fuel' : Nat}

instance lasts_highestRank {rank rank' : TypeId → Query Nat} [∀ t, Lasts (rank t) (rank' t)]
    (highest : Nat) (ts : List TypeId) :
    Lasts (highestRank rank highest ts) (highestRank rank' highest ts) := by
  induction ts generalizing highest with
  | nil => exact lasts_pure _
  | cons t ts ih => exact lasts_bind

/-- What is remembered for an element is what was answered. -/
theorem lookup_of_rankOfElement {rank : List ElementId → TypeId → Query Nat} {e o : ElementId}
    {S S' : Session} {r : Nat} (hobject : Known objectElement S o) (hne : e ≠ o)
    (hr : Session.rankOfElement fuel rank [] e S = (.ok r, S')) : S'.memo.ranks.lookup e = some r := by
  unfold Session.rankOfElement at hr
  rw [bind_of_ok hobject, if_neg hne, bind_of_ok (get_apply S)] at hr
  cases hlook : S.memo.ranks.lookup e with
  | some r' =>
    rw [hlook] at hr
    cases hr
    exact hlook
  | none =>
    rw [hlook] at hr
    obtain ⟨own, T, -, hr⟩ := bind_eq_ok hr
    cases own with
    | some own =>
      obtain ⟨rank, U, -, hr⟩ := bind_eq_ok hr
      cases hr
      exact List.lookup_cons_self
    | none =>
      cases hr
      exact List.lookup_cons_self

/-- A session remembers the rank that it has given. -/
instance lasts_rankOfElement {rank rank' : List ElementId → TypeId → Query Nat}
    [∀ pending t, Query.Ranks pending (rank pending t)] (e : ElementId) :
    Lasts (Session.rankOfElement fuel rank [] e) (Session.rankOfElement fuel' rank' [] e) where
  ranks := ranks_rankOfElement [] e
  stays := by
    intro S S' T r hr hT
    obtain ⟨o, S₁, hobject, hrest⟩ := bind_eq_ok hr
    have hknown : Known objectElement S₁ o := settles_objectElement.stays hobject le_rfl
    have hr₁ : Session.rankOfElement fuel rank [] e S₁ = (.ok r, S') := (bind_of_ok hknown).trans hrest
    have hinforms : S₁.Ranks [] S' := (ranks_rankOfElement [] e).of_eq hr₁
    have hknownT : Known objectElement T o := hknown.mono (hinforms.toInforms.trans hT).le
    unfold Session.rankOfElement
    rw [bind_of_ok hknownT]
    by_cases heq : e = o
    · rw [if_pos heq] at hrest ⊢
      cases hrest
      rfl
    · rw [if_neg heq, bind_of_ok (get_apply T), hT.ranks (lookup_of_rankOfElement hknown heq hr₁)]
      rfl

variable [h : Fact (fuel ≤ fuel')]

instance lasts_rankAbove {rank rank' : TypeId → Query Nat} [∀ t, Lasts (rank t) (rank' t)]
    (t : TypeId) : Lasts (rankAbove fuel rank t) (rankAbove fuel' rank' t) := by
  unfold rankAbove
  infer_instance

omit h in
instance lasts_rankFrom : ∀ {fuel fuel' : Nat} [Fact (fuel ≤ fuel')] (t : TypeId),
    Lasts (rankFrom fuel [] t) (rankFrom fuel' [] t)
  | 0, _, _, _ => lasts_of_settles (x := throw .exhausted)
  | fuel + 1, 0, h, _ => absurd h.out (Nat.not_succ_le_zero fuel)
  | fuel + 1, fuel' + 1, h, t => by
      have : Fact (fuel ≤ fuel') := ⟨Nat.le_of_succ_le_succ h.out⟩
      have (t : TypeId) : Lasts (rankFrom fuel [] t) (rankFrom fuel' [] t) := lasts_rankFrom t
      refine lasts_bind_of fun x => ?_
      dsimp only
      split
      case h_1 | h_2 =>
        refine lasts_bind_of fun own => ?_
        cases own with
        | none => exact lasts_pure 0
        | some e => exact lasts_rankOfElement e
      all_goals infer_instance

instance lasts_rank (t : TypeId) : Lasts (rank fuel t) (rank fuel' t) := by
  unfold rank
  infer_instance

/-! ### Closures are put together with ranks -/

instance lasts_precedes (t s : TypeId) : Lasts (precedes fuel t s) (precedes fuel' t s) := by
  refine lasts_bind_of fun x => lasts_bind_of fun y => ?_
  dsimp only
  split <;> infer_instance

instance lasts_closureInsert (t : TypeId) (closure : List TypeId) :
    Lasts (closureInsert fuel t closure) (closureInsert fuel' t closure) := by
  induction closure with
  | nil => exact lasts_pure _
  | cons entry rest ih => exact lasts_bind

instance lasts_mergeEntry {a : TypeId} {as : List TypeId}
    {merge merge' : List TypeId → Query (List TypeId)} [∀ bs, Lasts (merge bs) (merge' bs)]
    (bs : List TypeId) : Lasts (mergeEntry fuel a as merge bs) (mergeEntry fuel' a as merge' bs) := by
  induction bs with
  | nil => exact lasts_pure _
  | cons b bs ih => exact lasts_bind

instance lasts_closureUnion (as bs : List TypeId) :
    Lasts (closureUnion fuel as bs) (closureUnion fuel' as bs) := by
  induction as generalizing bs with
  | nil => exact lasts_pure _
  | cons a as ih => exact lasts_mergeEntry bs

end Lasting

end JavaTypes
