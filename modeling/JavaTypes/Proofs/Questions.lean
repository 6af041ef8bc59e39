import JavaTypes.Proofs.Assignability
import JavaTypes.Proofs.StoreExtension
import JavaTypes.Relation.Adaptation
import JavaTypes.Relation.Member

/-!
# What questions do to a session

The questions of the language's relations may complete handles and make types, and capture also makes
elements and links them to the variables that it makes. What this does to a session is said once, for
any relation `R` between sessions that holds of its parts.

* `Query.Moves R x`: whatever the session, `R` holds of it and of the session after `x`;
* `Session.AdmitsSettling R`: the relation holds of what questions that settle do (`moves_of_settles`).
  `Session.AdmitsClosures R` and `Session.AdmitsCompletion R` say that it also holds of remembering
  closures, and of remembering ranks and closures;
* `Session.AdmitsCapture R`: it also holds of captures. From these it is composed for the judgements,
  conversions, ranks, closures, members and adaptation;
* `Session.Between R`: a relation between the stores of two sessions. To take a number of steps,
  `Store.Moves`, is a relation of this sort;
* `Session.Frames`: the settings, the hooks and what was derived are as before;
* `Event`, `Session.run`: what a client can do and ask, and the session after a sequence of events;
* `Session.extends_run`: of two states of a run the later has all that the earlier had.
-/

set_option synthInstance.maxSize 1024

namespace JavaTypes

open Action

/-- Whatever the session, the relation holds of it and of the session after the question. -/
class Query.Moves {α : Type} (R : Session → Session → Prop) (x : Query α) : Prop where
  run : ∀ S : Session, R S (x S).2

/-- A relation between sessions that holds of completing handles and of deriving types. -/
class Session.AdmitsSettling (R : Session → Session → Prop) : Prop where
  refl : ∀ S, R S S
  trans : ∀ {S T U}, R S T → R T U → R S U
  leads : ∀ {S T : Session}, Leads S T → R S T

/-- A relation between sessions that also holds of remembering closures. -/
class Session.AdmitsClosures (R : Session → Session → Prop) : Prop extends
    Session.AdmitsSettling R where
  closures : ∀ (S : Session) (closures : List (Fingerprint × List ClosureEntry)),
    R S { S with memo := { S.memo with closures := closures } }

/-- A relation between sessions that also holds of remembering anything but derived types. -/
class Session.AdmitsCompletion (R : Session → Session → Prop) : Prop extends
    Session.AdmitsClosures R where
  remembers : ∀ (S : Session) (memo : Memo), memo.derived = S.memo.derived →
    R S { S with memo := memo }
  closures S _ := remembers S _ rfl

/-- A relation between sessions that also holds of capture. -/
class Session.AdmitsCapture (R : Session → Session → Prop) : Prop extends
    Session.AdmitsCompletion R where
  capture : ∀ n p t, Query.Moves R ((judgements n).capture p t)

attribute [instance] Session.AdmitsCapture.capture

section Admitted

variable {R : Session → Session → Prop} [Session.AdmitsSettling R]

namespace Query.Moves

variable {α β : Type} {x y : Query α} {f : α → Query β} {c : Prop}

instance pure (a : α) : Moves R (Pure.pure a : Query α) where
  run := Session.AdmitsSettling.refl

instance throw (e : Fault) : Moves R (throw e : Query α) where
  run := Session.AdmitsSettling.refl

instance get : Moves R (get : Query Session) where
  run := Session.AdmitsSettling.refl

omit [Session.AdmitsSettling R] in
theorem modifyMemo [Session.AdmitsCompletion R] (f : Memo → Memo)
    (h : ∀ m, (f m).derived = m.derived) : Moves R (modifyMemo f) where
  run S := Session.AdmitsCompletion.remembers S _ (h S.memo)

omit [Session.AdmitsSettling R] in
theorem modifyClosures [Session.AdmitsClosures R] (f : Memo → Memo)
    (h : ∀ m, ∃ closures, f m = { m with closures := closures }) :
    Moves R (JavaTypes.modifyMemo f) where
  run S := by
    obtain ⟨closures, hf⟩ := h S.memo
    show R S { S with memo := f S.memo }
    rw [hf]
    exact Session.AdmitsClosures.closures S closures

/-- What follows a question starts in the session that the question leaves. -/
theorem bind_of_ok (hx : Moves R x)
    (hf : ∀ {S a T}, x S = (.ok a, T) → R T (f a T).2) : Moves R (x >>= f) := by
  refine ⟨fun S => ?_⟩
  have hfirst := hx.run S
  rw [bind_apply]
  cases h : x S with
  | mk r T =>
    rw [h] at hfirst
    cases r with
    | ok a => exact Session.AdmitsSettling.trans hfirst (hf h)
    | error e => exact hfirst

instance bind [hx : Moves R x] [hf : ∀ a, Moves R (f a)] : Moves R (x >>= f) :=
  hx.bind_of_ok fun {_ a T} _ => (hf a).run T

theorem bind_of [Moves R x] (hf : ∀ a, Moves R (f a)) : Moves R (x >>= f) :=
  bind

omit [Session.AdmitsSettling R] in
instance ite [Decidable c] [hx : Moves R x] [hy : Moves R y] : Moves R (if c then x else y) := by
  split
  · exact hx
  · exact hy

omit [Session.AdmitsSettling R] in
theorem ite_of [Decidable c] (hx : Moves R x) (hy : Moves R y) : Moves R (if c then x else y) :=
  ite

omit [Session.AdmitsSettling R] in
instance lift {x : Build α} [h : Moves R (onStore x)] : Moves R (liftM x : Query α) :=
  h

instance both {x y : Query Bool} [Moves R x] [Moves R y] : Moves R (Action.both x y) :=
  bind

instance either {x y : Query Bool} [Moves R x] [Moves R y] : Moves R (Action.either x y) :=
  bind

end Query.Moves

/-- A question that settles completes handles and derives types, and nothing else. -/
instance moves_of_settles {α : Type} {x : Query α} [h : Settles x x] : Query.Moves R x where
  run S := Session.AdmitsSettling.leads (h.leads S)

/-! ### Capture

Whether a change of a captured variable is among the changes of `R` depends on where the variable comes
from, so here it is assumed. -/

namespace Judgements

variable {j : Judgements} [h : j.Settle j] (p : Premises)

include h

theorem moves_boundCapture (σ : Substitution) (argument formal : TypeId) {var : TypeId}
    [∀ b, Query.Moves R (onStore (editType var (.upperBound b)))]
    [∀ b, Query.Moves R (onStore (editType var (.lowerBound b)))] :
    Query.Moves R (j.boundCapture p σ argument formal var) := by
  refine .bind_of fun n => ?_
  cases n.extendsBound <;> cases n.superBound <;> dsimp only <;> infer_instance

omit h in
theorem moves_boundCaptures (σ : Substitution) : ∀ arguments formals vars,
    (∀ x ∈ arguments.zip vars, ∀ formal, Query.Moves R (j.boundCapture p σ x.1 formal x.2)) →
      Query.Moves R (j.boundCaptures p σ arguments formals vars)
  | argument :: arguments, formal :: formals, var :: vars, hbound => by
      obtain ⟨hfirst, hrest⟩ := List.forall_mem_cons.1 hbound
      have := hfirst formal
      have := moves_boundCaptures σ arguments formals vars hrest
      exact .bind
  | [], _, _, _ => .pure ()
  | _ :: _, [], _, _ => .pure ()
  | _ :: _, _ :: _, [], _ => .pure ()

omit h in
theorem moves_captureStep [∀ t, Query.Moves R (j.capture p t)]
    [∀ t n e outer outer', Query.Moves R (j.captureFrom p t n e outer outer')] (t : TypeId) :
    Query.Moves R (j.captureStep p t) := by
  rw [captureStep_eq]
  refine .bind_of fun x => .ite_of inferInstance (.bind_of fun own => ?_)
  cases own <;> dsimp only <;> infer_instance

end Judgements

omit [Session.AdmitsSettling R] in
/-- A relation that holds of the capture of the arguments of one type holds of capture. -/
theorem admitsCapture_of_captureFrom [Session.AdmitsCompletion R]
    [∀ k p t n e outer outer', Query.Moves R ((judgements k).captureFrom p t n e outer outer')] :
    Session.AdmitsCapture R where
  capture k := by
    induction k with
    | zero => exact fun _ _ => .throw _
    | succ k ih => exact fun p t => Judgements.moves_captureStep p t

end Admitted

/-! ### Relations between stores -/

/-- A relation between stores that holds of completing handles and of making a type. -/
class Store.AdmitsCompletion (R : Store → Store → Prop) : Prop where
  refl : ∀ s, R s s
  trans : ∀ {s t u}, R s t → R t u → R s u
  leads : ∀ {s t : Store}, Leads s t → R s t
  makeShape : ∀ shape s, R s (JavaTypes.makeShape shape s).2

/-- The relation holds of the stores of the two sessions. -/
def Session.Between (R : Store → Store → Prop) (S T : Session) : Prop :=
  R S.store T.store

section Stores

variable {R : Store → Store → Prop} [Store.AdmitsCompletion R]

theorem between_derive (shape : TypeShape) (S : Session) : S.Between R (derive shape S).2 := by
  have hmade : R S.store (makeShape shape S.store).2 := Store.AdmitsCompletion.makeShape shape _
  cases hlook : S.memo.derived.lookup shape with
  | some k =>
    rw [derive_of_lookup hlook]
    exact Store.AdmitsCompletion.refl S.store
  | none =>
    rw [derive_of_lookup_none hlook]
    cases h : makeShape shape S.store with
    | mk r store =>
      rw [h] at hmade
      cases r <;> exact hmade

theorem between_of_leads {S T : Session} (h : Leads S T) : S.Between R T := by
  induction h with
  | refl => exact Store.AdmitsCompletion.refl S.store
  | tail _ hstep ih =>
    obtain ⟨store, hstore, rfl⟩ | ⟨shape, rfl⟩ := hstep
    · exact Store.AdmitsCompletion.trans ih (Store.AdmitsCompletion.leads (.single hstore))
    · exact Store.AdmitsCompletion.trans ih (between_derive shape _)

instance admitsCompletion_between : Session.AdmitsCompletion (Session.Between R) where
  refl S := Store.AdmitsCompletion.refl S.store
  trans := Store.AdmitsCompletion.trans
  leads := between_of_leads
  remembers S _ _ := Store.AdmitsCompletion.refl S.store

end Stores

/-! ### A number of steps -/

/-- The settings, the hooks and what was derived are as before. -/
structure Session.Frames (S T : Session) : Prop where
  config : T.config = S.config
  hooks : T.hooks = S.hooks
  derived : ∀ {shape : TypeShape} {k : TypeId}, S.memo.derived.lookup shape = some k →
    T.memo.derived.lookup shape = some k

/-- A relation between sessions that holds of any number of steps of the store. -/
class Session.AdmitsMoves (R : Session → Session → Prop) : Prop extends
    Session.AdmitsCompletion R where
  moves : ∀ {S : Session} {store : Store}, Store.Moves S.store store → R S { S with store := store }

instance admitsCompletion_moves : Store.AdmitsCompletion Store.Moves where
  refl _ := .refl
  trans := .trans
  leads := moves_of_leads
  makeShape := JavaTypes.moves_makeShape

instance admitsMoves_between : Session.AdmitsMoves (Session.Between Store.Moves) where
  moves h := h

instance admitsMoves_frames : Session.AdmitsMoves Session.Frames where
  refl _ := ⟨rfl, rfl, id⟩
  trans h₁ h₂ := ⟨h₂.config.trans h₁.config, h₂.hooks.trans h₁.hooks, fun h => h₂.derived (h₁.derived h)⟩
  leads h := ⟨h.le.config, h.le.hooks, h.le.derived⟩
  remembers _ _ h := ⟨rfl, rfl, fun hlook => h ▸ hlook⟩
  moves _ := ⟨rfl, rfl, id⟩

section Steps

variable {R : Session → Session → Prop} [Session.AdmitsMoves R]

theorem Query.Moves.onStore {α : Type} {x : Build α} (h : ∀ s, Store.Moves s (x s).2) :
    Query.Moves R (onStore x) where
  run S := Session.AdmitsMoves.moves (h S.store)

instance moves_onStore_editType (t : TypeId) (edit : TypeEdit) : Query.Moves R (onStore (editType t edit)) :=
  .onStore (moves_editType t edit)

instance moves_freshCapture (wildcard : TypeId) : Query.Moves R (freshCapture wildcard) := by
  have : Query.Moves R (modifyMemo fun m => { m with captures := m.captures + 1 }) :=
    .modifyMemo _ fun _ => rfl
  have (name : String) : Query.Moves R (onStore (newNamedElement .typeParameter name)) :=
    .onStore (moves_newNamedElement _ _)
  have : Query.Moves R (onStore (blankType .typeVar)) :=
    .onStore fun s => (Operation.newType .typeVar).moves s
  have (e : ElementId) (v : TypeId) : Query.Moves R (onStore (setElementType e v)) :=
    .onStore (moves_setElementType e v)
  exact .bind

instance moves_freshCaptures (ts : List TypeId) : Query.Moves R (freshCaptures ts) := by
  induction ts with
  | nil => exact .pure []
  | cons t ts ih => exact .bind

instance moves_withArguments (t : TypeId) (n : TypeNode) (enclosing : TypeId)
    (arguments : List TypeId) : Query.Moves R (withArguments t n enclosing arguments) := by
  have (outer : Option TypeId) (e : ElementId) (arguments : List TypeId) :
      Query.Moves R (onStore (declaredType outer e arguments)) := .onStore (JavaTypes.moves_makeShape _)
  unfold withArguments
  cases n.element <;> dsimp only <;> infer_instance

namespace Judgements

variable {j : Judgements} [h : j.Settle j] (p : Premises)

include h

instance moves_boundAll (σ : Substitution) (arguments formals vars : List TypeId) :
    Query.Moves R (j.boundCaptures p σ arguments formals vars) :=
  moves_boundCaptures p σ arguments formals vars fun x _ formal => moves_boundCapture p σ x.1 formal

instance moves_captureFrom (t : TypeId) (n : TypeNode) (e : ElementId) (outer outer' : TypeId) :
    Query.Moves R (j.captureFrom p t n e outer outer') := by
  unfold captureFrom
  infer_instance

end Judgements

instance admitsCapture_of_admitsMoves : Session.AdmitsCapture R :=
  admitsCapture_of_captureFrom

end Steps

/-! ### Ranks and closures -/

section Ranks

variable {R : Session → Session → Prop}

instance moves_highestRank [Session.AdmitsSettling R] {rank : TypeId → Query Nat}
    [∀ t, Query.Moves R (rank t)] (highest : Nat) (ts : List TypeId) :
    Query.Moves R (highestRank rank highest ts) := by
  induction ts generalizing highest with
  | nil => exact .pure highest
  | cons t ts ih => exact .bind

instance moves_rankAbove [Session.AdmitsSettling R] {rank : TypeId → Query Nat}
    [∀ t, Query.Moves R (rank t)] (fuel : Nat) (t : TypeId) : Query.Moves R (rankAbove fuel rank t) := by
  unfold rankAbove
  infer_instance

instance moves_rankOfElement [Session.AdmitsCompletion R] {fuel : Nat}
    {rank : List ElementId → TypeId → Query Nat} [∀ pending t, Query.Moves R (rank pending t)]
    (pending : List ElementId) (e : ElementId) :
    Query.Moves R (Session.rankOfElement fuel rank pending e) := by
  have (r : Nat) : Query.Moves R (modifyMemo fun m => m.setRank e r) := .modifyMemo _ fun _ => rfl
  refine .bind_of fun _ => .ite_of (.pure 0) (.bind_of fun S => ?_)
  cases S.memo.ranks.lookup e with
  | some r => exact .pure r
  | none =>
    refine .ite_of (.pure 0) (.bind_of fun own => ?_)
    cases own <;> dsimp only <;> infer_instance

instance moves_rankFrom [Session.AdmitsCompletion R] (fuel : Nat) (pending : List ElementId) (t : TypeId) :
    Query.Moves R (rankFrom fuel pending t) := by
  induction fuel generalizing pending t with
  | zero => exact .throw _
  | succ fuel ih =>
    refine .bind_of fun x => ?_
    dsimp only
    split
    case h_1 | h_2 =>
      refine .bind_of fun own => ?_
      cases own with
      | none => exact .pure 0
      | some e => exact moves_rankOfElement pending e
    all_goals infer_instance

instance settles_findClosure {fuel fuel' : Nat} [Fact (fuel ≤ fuel')] (q : Equality) (t : TypeId)
    (entries : List ClosureEntry) :
    Settles (findClosure fuel q t entries) (findClosure fuel' q t entries) := by
  induction entries with
  | nil => exact settles_pure none
  | cons entry rest ih =>
    exact settles_bind

instance moves_rememberedClosure [Session.AdmitsSettling R] (fuel : Nat) (key : Fingerprint) (t : TypeId) :
    Query.Moves R (rememberedClosure fuel key t) :=
  .bind

variable [Session.AdmitsClosures R] [∀ fuel t, Query.Moves R (rankFrom fuel [] t)]

instance moves_rank (fuel : Nat) (t : TypeId) : Query.Moves R (rank fuel t) := by
  unfold rank
  infer_instance

instance moves_precedes (fuel : Nat) (t s : TypeId) : Query.Moves R (precedes fuel t s) := by
  refine .bind_of fun x => .bind_of fun y => ?_
  dsimp only
  split <;> infer_instance

instance settles_sameEntry {fuel fuel' : Nat} [Fact (fuel ≤ fuel')] (a b : TypeId) :
    Settles (sameEntry fuel a b) (sameEntry fuel' a b) := by
  have (d e : Option ElementId) : Settles (match d, e with
      | some d, some e => sameElement fuel d e
      | _, _ => pure false) (match d, e with
      | some d, some e => sameElement fuel' d e
      | _, _ => pure false) := by
    split <;> infer_instance
  exact settles_bind

instance moves_closureInsert (fuel : Nat) (t : TypeId) (closure : List TypeId) :
    Query.Moves R (closureInsert fuel t closure) := by
  induction closure with
  | nil => exact .pure [t]
  | cons entry rest ih => exact .bind

instance moves_mergeEntry {fuel : Nat} {a : TypeId} {as : List TypeId}
    {merge : List TypeId → Query (List TypeId)} [∀ bs, Query.Moves R (merge bs)]
    (bs : List TypeId) : Query.Moves R (mergeEntry fuel a as merge bs) := by
  induction bs with
  | nil => exact .pure _
  | cons b bs ih => exact .bind

instance moves_closureUnion (fuel : Nat) (as bs : List TypeId) :
    Query.Moves R (closureUnion fuel as bs) := by
  induction as generalizing bs with
  | nil => exact .pure bs
  | cons a as ih => exact moves_mergeEntry bs

instance moves_rememberClosure (fuel : Nat) (key : Fingerprint) (t : TypeId)
    (closure : List TypeId) : Query.Moves R (rememberClosure fuel key t closure) := by
  have : Query.Moves R (modifyMemo fun m => m.openClosures key) :=
    .modifyClosures _ fun m => Session.exists_openClosures_eq m key
  refine .bind_of fun _ => .bind_of fun found => ?_
  cases found with
  | some _ => exact .pure ()
  | none => exact .modifyClosures _ fun _ => ⟨_, rfl⟩

instance moves_unionEach {closureOf : TypeId → Query (List TypeId)} [∀ t, Query.Moves R (closureOf t)]
    (fuel : Nat) (closure ts : List TypeId) : Query.Moves R (unionEach fuel closureOf closure ts) := by
  induction ts generalizing closure with
  | nil => exact .pure closure
  | cons t ts ih => exact .bind

instance moves_classClosure {closureOf : TypeId → Query (List TypeId)} [∀ t, Query.Moves R (closureOf t)]
    (fuel : Nat) (t : TypeId) (n : TypeNode) : Query.Moves R (classClosure fuel closureOf t n) := by
  refine .bind_of fun above => .ite_of inferInstance (.bind_of fun k => ?_)
  split <;> infer_instance

instance moves_closureOf (fuel : Nat) (t : TypeId) : Query.Moves R (closureOf fuel t) := by
  induction fuel generalizing t with
  | zero => exact .throw _
  | succ fuel ih =>
    refine .bind_of fun x => .bind_of fun key => .bind_of fun found => ?_
    cases found <;> dsimp only <;> infer_instance

instance moves_closure (fuel : Nat) (t : TypeId) : Query.Moves R (closure fuel t) := by
  unfold closure
  infer_instance

end Ranks

/-! ### Subtypes with capture -/

section Captures

variable {R : Session → Session → Prop} [Session.AdmitsCapture R]

namespace Judgements

variable {j : Judgements} [h : j.Settle j] (p : Premises)
  [∀ capturing t s, Query.Moves R (j.subtype p capturing t s)]

omit h [Session.AdmitsCapture R] in
theorem moves_tests [Session.AdmitsCompletion R] (capturing : Bool) (t : TypeId) (ts : List TypeId) :
    Query.Moves R (j.belowAll p capturing t ts) ∧ Query.Moves R (j.allBelow p capturing t ts) := by
  induction ts with
  | nil => exact ⟨.pure true, .pure true⟩
  | cons s ss ih =>
    have := ih.1
    have := ih.2
    exact ⟨.both, .both⟩

include h

instance moves_belowByKind (capturing : Bool) (t s : TypeId) (n : TypeNode) :
    Query.Moves R (j.belowByKind p capturing t s n) := by
  have htests := fun ts => (moves_tests (R := R) (j := j) p capturing s ts).2
  refine .bind_of fun m => ?_
  cases m.shape with
  | primitive a => cases n.shape <;> exact .pure _
  | typeVar v => exact .bind
  | array component => exact moves_of_settles
  | union alternatives => exact htests alternatives
  | _ => dsimp only; infer_instance

instance moves_subtypeStep [∀ t, Query.Moves R (j.capture p t)] (capturing : Bool) (t s : TypeId) :
    Query.Moves R (j.subtypeStep p capturing t s) := by
  have htests := fun t ss => (moves_tests (R := R) (j := j) p capturing t ss).1
  refine .bind_of fun t => .bind_of fun x => .bind_of fun _ => .ite_of inferInstance ?_
  obtain ⟨s, n⟩ := x
  cases n.shape with
  | intersection bounds => exact htests t bounds
  | _ => dsimp only; infer_instance

end Judgements

instance moves_judgements (n : Nat) (p : Premises) (capturing : Bool) (t s : TypeId) :
    Query.Moves R ((judgements n).subtype p capturing t s) := by
  induction n generalizing p capturing t s with
  | zero => exact .throw _
  | succ n ih => exact Judgements.moves_subtypeStep p capturing t s

instance moves_subtype (fuel : Nat) (capturing : Bool) (t s : TypeId) :
    Query.Moves R (subtype fuel capturing t s) :=
  moves_judgements fuel {} capturing t s

instance moves_capture (fuel : Nat) (t : TypeId) : Query.Moves R (capture fuel t) :=
  Session.AdmitsCapture.capture fuel {} t

instance moves_answeredBy {α : Type} (hook : Hooks → Option α) {x : Query α} [hx : Query.Moves R x] :
    Query.Moves R (answeredBy hook x) := by
  refine .bind_of fun hooks => ?_
  cases hook hooks <;> dsimp only <;> infer_instance

instance moves_isSubtype (fuel : Nat) (t s : TypeId) : Query.Moves R (isSubtype fuel t s) :=
  moves_answeredBy _

/-! ### Boxing, conversion and assignment -/

instance settles_unboxAmong {fuel fuel' : Nat} [Fact (fuel ≤ fuel')] (t : TypeId) (ps : List Primitive) :
    Settles (unboxAmong fuel t ps) (unboxAmong fuel' t ps) := by
  induction ps with
  | nil => exact settles_pure none
  | cons p ps ih =>
    refine settles_bind_of fun box => ?_
    cases box with
    | none => exact ih
    | some e =>
      refine settles_bind_of fun above => ?_
      cases above <;> infer_instance

instance settles_unboxedType {fuel fuel' : Nat} [Fact (fuel ≤ fuel')] (t : TypeId) :
    Settles (unboxedType fuel t) (unboxedType fuel' t) := by
  refine settles_bind_of fun x => ?_
  dsimp only
  split <;> infer_instance

instance moves_isRawFormOf (fuel : Nat) (t s : TypeId) (n : TypeNode) :
    Query.Moves R (isRawFormOf fuel t s n) := by
  refine .bind_of fun _ => .ite_of (.bind_of fun own => ?_) inferInstance
  cases own with
  | none => exact .pure false
  | some e =>
    refine .bind_of fun above => ?_
    cases above <;> dsimp only <;> infer_instance

instance moves_isSubtypeUnchecked (fuel : Nat) (t s : TypeId) :
    Query.Moves R (isSubtypeUnchecked fuel t s) := by
  induction fuel generalizing t s with
  | zero => exact .throw _
  | succ fuel ih =>
    refine .bind_of fun x => .bind_of fun y => ?_
    dsimp only
    split <;> infer_instance

instance moves_subtypeIfAny (fuel : Nat) (t : Option TypeId) (s : TypeId) :
    Query.Moves R (subtypeIfAny fuel t s) := by
  cases t with
  | some t => exact moves_subtype fuel true t s
  | none => exact .pure false

instance moves_isConvertible (fuel : Nat) (t s : TypeId) : Query.Moves R (isConvertible fuel t s) := by
  unfold isConvertible
  infer_instance

instance moves_isAssignable (fuel : Nat) (t s : TypeId) : Query.Moves R (isAssignable fuel t s) :=
  moves_answeredBy _

/-! ### Members and adaptation -/

instance moves_memberInDeclared (fuel : Nat) (member : ElementId) (own t : TypeId) :
    Query.Moves R (memberInDeclared fuel member own t) := by
  refine .bind_of fun owner => ?_
  cases owner with
  | none => exact .pure own
  | some owner =>
    refine .bind_of fun x => .ite_of (.bind_of fun declared => .bind_of fun vars =>
      .ite_of (.pure own) (.bind_of fun found => ?_)) (.pure own)
    cases found <;> dsimp only <;> infer_instance

instance moves_memberFrom (member : ElementId) (own : TypeId) (fuel : Nat) (t : TypeId) :
    Query.Moves R (memberFrom member own fuel t) := by
  induction fuel generalizing t with
  | zero => exact .throw _
  | succ fuel ih =>
    refine .bind_of fun x => ?_
    dsimp only
    split <;> infer_instance

instance moves_memberType (fuel : Nat) (containing : TypeId) (member : ElementId) :
    Query.Moves R (memberType fuel containing member) := by
  unfold memberType
  infer_instance

instance moves_reconcile (fuel : Nat) (var value target : TypeId) :
    Query.Moves R (reconcile fuel var value target) := by
  unfold reconcile bothPass
  infer_instance

instance moves_adaptVariable (fuel : Nat) (var target : TypeId) (pairs : List (TypeId × TypeId)) :
    Query.Moves R (adaptVariable fuel var target pairs) := by
  induction pairs with
  | nil => exact .pure _
  | cons pair rest ih => exact .bind

instance moves_adaptPairs {adapt : Adaptation → TypeId → TypeId → Query Adaptation}
    [hadapt : ∀ a s t, Query.Moves R (adapt a s t)] (a : Adaptation) (ss ts : List TypeId) :
    Query.Moves R (adaptPairs adapt a ss ts) := by
  induction ss generalizing a ts with
  | nil => exact .pure a
  | cons s ss ih =>
    cases ts with
    | nil => exact .pure a
    | cons t ts => exact .bind

instance moves_adaptFrom (fuel : Nat) (visited : List (TypeId × TypeId)) (a : Adaptation)
    (source target : TypeId) : Query.Moves R (adaptFrom fuel visited a source target) := by
  induction fuel generalizing visited a source target with
  | zero => exact .throw _
  | succ fuel ih =>
    refine .bind_of fun x => .bind_of fun y => .ite_of (.pure a) ?_
    split
    · unfold adaptLists
      infer_instance
    all_goals infer_instance

end Captures

/-! ## A run takes nothing back -/

/-- What a client can ask. -/
inductive Question
  | equalTypes (q : Equality) (a b : TypeId)
  | equalElements (q : Equality) (a b : ElementId)
  | equalTypeLists (q : Equality) (as bs : List TypeId)
  | typeFingerprint (t : TypeId)
  | elementFingerprint (e : ElementId)
  | typeElement (module? : Option String) (name : String)
  | objectType
  | isSameType (t s : TypeId)
  | isSameTypeLoose (t s : TypeId)
  | contains (t s : TypeId)
  | containsAll (ts ss : List TypeId)
  | isSubtype (t s : TypeId)
  | isSubtypeNoCapture (t s : TypeId)
  | isSubtypeUnchecked (t s : TypeId)
  | isConvertible (t s : TypeId)
  | isAssignable (t s : TypeId)
  | boxedClass (k : TypeKind)
  | unboxedType (t : TypeId)
  | isRaw (t : TypeId)
  | allTypeArguments (t : TypeId)
  | substitute (σ : Substitution) (t : TypeId)
  | erasure (t : TypeId)
  | capture (t : TypeId)
  | glb (t s : TypeId)
  | supertype (t : TypeId)
  | interfaces (t : TypeId)
  | directSupertypes (t : TypeId)
  | asSuper (t : TypeId) (e : ElementId)
  | asOuterSuper (t : TypeId) (e : ElementId)
  | memberType (t : TypeId) (e : ElementId)
  | rank (t : TypeId)
  | precedes (t s : TypeId)
  | closure (t : TypeId)
  | closureInsert (t : TypeId) (ts : List TypeId)
  | closureUnion (as bs : List TypeId)
  | adapt (source target : TypeId)

/-- The session that a question leaves behind, whether it is answered or fails. -/
def Question.asked (fuel : Nat) (S : Session) : Question → Session
  | equalTypes q a b => (onStore (q.types fuel a b) S).2
  | equalElements q a b => (onStore (q.elements fuel a b) S).2
  | equalTypeLists q as bs => (onStore (q.typeLists fuel as bs) S).2
  | typeFingerprint t => (onStore (JavaTypes.typeFingerprint t) S).2
  | elementFingerprint e => (onStore (JavaTypes.elementFingerprint e) S).2
  | typeElement module? name => (typeElementIn module? name S).2
  | objectType => (JavaTypes.objectType S).2
  | isSameType t s => (JavaTypes.isSameType fuel t s S).2
  | isSameTypeLoose t s => (JavaTypes.isSameTypeLoose fuel t s S).2
  | contains t s => (JavaTypes.contains fuel t s S).2
  | containsAll ts ss => (JavaTypes.containsAll fuel ts ss S).2
  | isSubtype t s => (JavaTypes.isSubtype fuel t s S).2
  | isSubtypeNoCapture t s => (JavaTypes.isSubtypeNoCapture fuel t s S).2
  | isSubtypeUnchecked t s => (JavaTypes.isSubtypeUnchecked fuel t s S).2
  | isConvertible t s => (JavaTypes.isConvertible fuel t s S).2
  | isAssignable t s => (JavaTypes.isAssignable fuel t s S).2
  | boxedClass k => (JavaTypes.boxedClass k S).2
  | unboxedType t => (JavaTypes.unboxedType fuel t S).2
  | isRaw t => (onStore (JavaTypes.isRaw fuel t) S).2
  | allTypeArguments t => (onStore (JavaTypes.allTypeArguments fuel t) S).2
  | substitute σ t => (JavaTypes.substitute σ fuel t S).2
  | erasure t => (JavaTypes.erasure fuel t S).2
  | capture t => (JavaTypes.capture fuel t S).2
  | glb t s => (JavaTypes.glb fuel t s S).2
  | supertype t => (JavaTypes.supertype fuel t S).2
  | interfaces t => (JavaTypes.interfaces fuel t S).2
  | directSupertypes t => (JavaTypes.directSupertypes fuel t S).2
  | asSuper t e => (JavaTypes.asSuper fuel t e S).2
  | asOuterSuper t e => (JavaTypes.asOuterSuper fuel t e S).2
  | memberType t e => (JavaTypes.memberType fuel t e S).2
  | rank t => (JavaTypes.rank fuel t S).2
  | precedes t s => (JavaTypes.precedes fuel t s S).2
  | closure t => (JavaTypes.closure fuel t S).2
  | closureInsert t ts => (JavaTypes.closureInsert fuel t ts S).2
  | closureUnion as bs => (JavaTypes.closureUnion fuel as bs S).2
  | adapt source target => (JavaTypes.adapt fuel source target S).2

/-- A relation that holds of what completes handles, makes types and captures holds of every
question. -/
theorem Question.moves {R : Session → Session → Prop} [Session.AdmitsCapture R] (fuel : Nat)
    (S : Session) (q : Question) : R S (q.asked fuel S) := by
  cases q with
  | equalTypeLists q as bs =>
    exact Query.Moves.run (x := onStore (Action.sameLists (q.types fuel) as bs)) S
  | typeElement module? name => exact (Query.Moves.bind).run S
  | containsAll ts ss => exact Query.Moves.run (x := (judgements fuel).containsList {} ts ss) S
  | isSubtypeNoCapture t s => exact (moves_subtype fuel false t s).run S
  | glb t s => exact Query.Moves.run (x := (judgements fuel).glb {} t s) S
  | adapt source target => exact (moves_adaptFrom fuel [] {} source target).run S
  | _ => exact Query.Moves.run S

/-- What can happen in a run. -/
inductive Event
  | operation (op : Operation)
  /-- A question is asked, with some fuel. -/
  | question (fuel : Nat) (q : Question)
  /-- Another session is opened over the same store. -/
  | reopen (config : Config) (hooks : Hooks)

/-- The session after an event. -/
def Event.apply (S : Session) : Event → Session
  | operation op => { S with store := op.apply S.store }
  | question fuel q => q.asked fuel S
  | reopen config hooks => { store := S.store, config := config, hooks := hooks }

theorem Event.moves (S : Session) (event : Event) : Store.Moves S.store (event.apply S).store := by
  cases event with
  | operation op => exact op.moves S.store
  | question fuel q => exact q.moves (R := Session.Between Store.Moves) fuel S
  | reopen config hooks => exact .refl

/-- The session after a sequence of events. -/
def Session.run (S : Session) (events : List Event) : Session :=
  events.foldl Event.apply S

theorem Session.run_append (S : Session) (events later : List Event) :
    S.run (events ++ later) = (S.run events).run later :=
  List.foldl_append

theorem Session.moves_run (S : Session) (events : List Event) :
    Store.Moves S.store (S.run events).store := by
  induction events generalizing S with
  | nil => exact .refl
  | cons event events ih => exact (event.moves S).trans (ih (event.apply S))

/-- Of two states of a run the later extends the earlier, and nodes keep their kinds. -/
theorem Session.extends_run (S : Session) (events later : List Event) :
    (S.run events).store.Extends (S.run (events ++ later)).store ∧
    (∀ (i : Nat) (m : TypeNode), (S.run events).store.types[i]? = some (.node m) →
      ∃ n, (S.run (events ++ later)).store.types[i]? = some (.node n) ∧ n.kind = m.kind) ∧
    ∀ (i : Nat) (m : ElementNode), (S.run events).store.elements[i]? = some (.node m) →
      ∃ n, (S.run (events ++ later)).store.elements[i]? = some (.node n) ∧ n.kind = m.kind := by
  have hextends : (S.run events).store.Extends (S.run (events ++ later)).store := by
    rw [run_append]
    exact Store.extends_of_moves (moves_run _ later)
  refine ⟨hextends, fun i m hm => ?_, fun i m hm => ?_⟩
  · obtain ⟨n, hn, hmn⟩ := hextends.types.node hm
    exact ⟨n, hn, hmn.kind_eq⟩
  · obtain ⟨n, hn, hmn⟩ := hextends.elements.node hm
    exact ⟨n, hn, hmn.kind_eq⟩

end JavaTypes
