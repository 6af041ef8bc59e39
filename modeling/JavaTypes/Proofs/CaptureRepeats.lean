import JavaTypes.Proofs.SubtypeSteps

/-!
# More fuel repeats an answer

A comparison with capture makes new variables each time that it is asked, so its answers do not settle.
Asked in the same session it does the same again, and more fuel does not change what it does.

* `settles_glb`: greatest lower bounds settle;
* `Judgements.Continue j j'`: what `j` answers, capture included, `j'` answers in the same way;
* `continue_judgements`: this holds of a level and of every level above it;
* `subtype_unique`: two amounts of fuel give one answer and one session.
-/

namespace JavaTypes

open Action

/-- What the first judgements answer, the second answer in the same way, with or without capture. -/
structure Judgements.Continue (j j' : Judgements) : Prop extends j.Settle j' where
  captured : ∀ p t s, Repeats (j.subtype p true t s) (j'.subtype p true t s)
  capture : ∀ p t, Repeats (j.capture p t) (j'.capture p t)

namespace Judgements

theorem Continue.compared {j j' : Judgements} (h : j.Continue j') (p : Premises) (capturing : Bool)
    (t s : TypeId) : Repeats (j.subtype p capturing t s) (j'.subtype p capturing t s) := by
  cases capturing with
  | false => exact (h.subtype p t s).repeats
  | true => exact h.captured p t s

/-! ### Greatest lower bounds -/

section Bounds

variable {j j' : Judgements} [h : j.Settle j'] (p : Premises)

include h

instance settles_isListed (t : TypeId) : ∀ ss, Settles (j.isListed p t ss) (j'.isListed p t ss)
  | [] => settles_pure false
  | _ :: ss =>
      have := settles_isListed t ss
      settles_bind

instance settles_sortBounds : ∀ ts classes interfaces,
    Settles (j.sortBounds p classes interfaces ts) (j'.sortBounds p classes interfaces ts)
  | [], _, _ => settles_pure _
  | _ :: ts, _, _ =>
      have := settles_sortBounds ts
      settles_bind

omit h in
instance settles_boundsOrSelf (t : TypeId) : Settles (boundsOrSelf t) (boundsOrSelf t) := by
  refine settles_bind_of fun n => ?_
  cases n.shape <;> exact settles_pure _

instance settles_glb (a b : TypeId) : Settles (j.glb p a b) (j'.glb p a b) := by
  refine settles_bind_of fun a => settles_bind_of fun b => settles_bind_of fun below => ?_
  split
  · infer_instance
  refine settles_bind_of fun above => ?_
  split
  · infer_instance
  refine settles_bind_of fun as => settles_bind_of fun x => settles_bind_of fun bs =>
    settles_bind_of fun y => ?_
  dsimp only
  split <;> infer_instance

end Bounds

/-! ### One step -/

section Steps

variable {j j' : Judgements} (h : j.Continue j') (p : Premises)

include h

theorem repeats_boundCapture (σ : Substitution) (argument formal var : TypeId) :
    Repeats (j.boundCapture p σ argument formal var) (j'.boundCapture p σ argument formal var) := by
  have := h.toSettle
  refine repeats_bind_of_settles fun n => repeats_ite ?_ (.refl _)
  refine repeats_bind_of_settles fun bound => repeats_bind_of_settles fun formalBound => ?_
  cases n.extendsBound with
  | none => exact .refl _
  | some bound => exact repeats_bind_of_settles fun _ => .refl _

theorem repeats_boundCaptures (σ : Substitution) : ∀ arguments formals vars,
    Repeats (j.boundCaptures p σ arguments formals vars) (j'.boundCaptures p σ arguments formals vars)
  | argument :: arguments, formal :: formals, var :: vars =>
      (repeats_boundCapture h p σ argument formal var).bind fun _ =>
        repeats_boundCaptures σ arguments formals vars
  | [], _, _ => .refl _
  | _ :: _, [], _ => .refl _
  | _ :: _, _ :: _, [] => .refl _

theorem repeats_captureFrom (t : TypeId) (n : TypeNode) (e : ElementId) (outer outer' : TypeId) :
    Repeats (j.captureFrom p t n e outer outer') (j'.captureFrom p t n e outer outer') :=
  have := h.toSettle
  (Repeats.refl _).bind fun _ => (Repeats.refl _).bind fun _ => (Repeats.refl _).bind fun vars =>
    repeats_bind_of_settles fun _ => repeats_ite (.refl _) ((Repeats.refl _).bind fun captured =>
        (repeats_boundCaptures h p { vars, vals := captured } n.arguments vars captured).bind fun _ =>
          .refl _)

theorem repeats_captureStep (t : TypeId) : Repeats (j.captureStep p t) (j'.captureStep p t) := by
  refine (Repeats.refl _).bind fun x => repeats_ite (.refl _) ?_
  refine (Repeats.refl _).bind fun own => ?_
  cases own with
  | none => exact .refl _
  | some e =>
    refine (Repeats.refl _).bind fun y => ?_
    exact repeats_ite_bind (h.capture p y.1) (Repeats.refl _) fun outer' =>
      repeats_captureFrom h p x.1 x.2 e y.1 outer'

theorem repeats_belowAll (capturing : Bool) (t : TypeId) :
    ∀ ss, Repeats (j.belowAll p capturing t ss) (j'.belowAll p capturing t ss)
  | [] => .refl _
  | s :: ss => (h.compared p capturing t s).bind fun _ =>
      repeats_ite (repeats_belowAll capturing t ss) (.refl _)

theorem repeats_allBelow (capturing : Bool) (s : TypeId) :
    ∀ ts, Repeats (j.allBelow p capturing s ts) (j'.allBelow p capturing s ts)
  | [] => .refl _
  | t :: ts => (h.compared p capturing t s).bind fun _ =>
      repeats_ite (repeats_allBelow capturing s ts) (.refl _)

theorem repeats_belowByKind (capturing : Bool) (t s : TypeId) (n : TypeNode) :
    Repeats (j.belowByKind p capturing t s n) (j'.belowByKind p capturing t s n) := by
  have := h.toSettle
  refine repeats_bind_of_settles fun m => ?_
  cases m.shape with
  | typeVar v => exact repeats_bind_of_settles fun bound => (h.subtype p bound s).repeats
  | declared d =>
    exact repeats_ite (settles_belowDeclared p t s n).repeats (.refl _)
  | intersection bs =>
    exact repeats_ite (settles_belowDeclared p t s n).repeats (.refl _)
  | array component => exact (settles_arrayBelow p component n).repeats
  | union alternatives => exact repeats_allBelow h p capturing s alternatives
  | _ => exact .refl _

theorem repeats_subtypeStep (capturing : Bool) (t s : TypeId) :
    Repeats (j.subtypeStep p capturing t s) (j'.subtypeStep p capturing t s) := by
  refine (Repeats.refl _).bind fun t => (Repeats.refl _).bind fun x => ?_
  obtain ⟨s, n⟩ := x
  refine (h.sameType p t s).repeats.bind fun _ => repeats_ite (.refl _) ?_
  -- Only here is a type captured; what is asked afterwards is asked of the captured type.
  have := h.toSettle
  cases n.shape with
  | intersection bounds => exact repeats_belowAll h p capturing t bounds
  | error e => exact .refl _
  | _ =>
    exact repeats_bind_of_settles fun lower => repeats_bind_of_settles fun lower =>
      (Repeats.refl _).bind fun throughBound =>
        repeats_ite_bind (h.capture p t) (.refl (pure t)) fun t =>
          repeats_ite (h.subtype p t lower).repeats (repeats_belowByKind h p capturing t s n)

end Steps

end Judgements

/-- What is judged at a level is judged in the same way at every level above it. -/
theorem continue_judgements : ∀ {n m : Nat} (_ : n ≤ m), (judgements n).Continue (judgements m)
  | 0, m, h =>
      have := Fact.mk h
      { toSettle := settle_judgements
        captured := fun _ _ _ => repeats_throw _ _
        capture := fun _ _ => repeats_throw _ _ }
  | _ + 1, 0, h => by cases h
  | n + 1, m + 1, h => by
      have := Fact.mk h
      have ih := continue_judgements (Nat.le_of_succ_le_succ h)
      exact
        { toSettle := settle_judgements
          captured := fun p t s => Judgements.repeats_subtypeStep ih p true t s
          capture := Judgements.repeats_captureStep ih }

/-- Whatever fuel it is given, a comparison that answers in a session gives one answer and leaves one
session. -/
theorem subtype_unique {fuel fuel' : Nat} {capturing b b' : Bool} {t s : TypeId} {S T T' : Session}
    (h : subtype fuel capturing t s S = (.ok b, T))
    (h' : subtype fuel' capturing t s S = (.ok b', T')) : b = b' ∧ T = T' := by
  have hmax := (continue_judgements (le_max_left fuel fuel')).compared {} capturing t s S b T h
  have hmax' := (continue_judgements (le_max_right fuel fuel')).compared {} capturing t s S b' T' h'
  cases hmax.symm.trans hmax'
  exact ⟨rfl, rfl⟩

end JavaTypes
