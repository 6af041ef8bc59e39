import JavaTypes.Proofs.UntouchedNodes

/-!
# Runs of capture

What happens in a session when a type is captured, step by step.

* `Session.Completes S T`: from `S` to `T` some handles are completed, and nothing else happens;
* `Query.Moves.le_of_eq`: a session only grows when it captures a type or compares captured types;
* `Store.Variable q v s`: the node at `v` is a variable without annotations that was captured from `q`.
  Giving bounds to variables keeps this (`Judgements.variable_boundCaptures`);
* `Session.TakesPlaceOf T size a a'`: `a'` stands for the argument `a` after capture. It is a variable at
  `size` or later if `a` is a wildcard, and `a` itself otherwise (`takesPlaceOf_of_captures`);
* `Session.InstanceOf T d outer arguments t`: `t` was made with these parts;
* `cases_of_captureFrom`, `cases_of_capture`: the ways that a capture can go.
-/

namespace JavaTypes

open Action

/-! ### Completed handles -/

namespace Session

variable {α : Type} {S T U : Session}

/-- Some handles are completed, and nothing else happens. -/
def Completes (S T : Session) : Prop :=
  ∃ store, Leads S.store store ∧ T = { S with store := store }

theorem Completes.refl (S : Session) : S.Completes S :=
  ⟨S.store, .refl S.store, rfl⟩

theorem Completes.trans (h₁ : S.Completes T) (h₂ : T.Completes U) : S.Completes U := by
  obtain ⟨store, hstore, rfl⟩ := h₁
  obtain ⟨store', hstore', rfl⟩ := h₂
  exact ⟨store', hstore.trans hstore', rfl⟩

theorem Completes.le (h : S.Completes T) : S ≤ T := by
  obtain ⟨store, hstore, rfl⟩ := h
  exact grows_store hstore.le

theorem store_of_onStore {x : Build α} {r : Except Fault α} (h : onStore x S = (r, T)) :
    x S.store = (r, T.store) := by
  have hanswer : (x S.store).1 = r := congrArg Prod.fst h
  have hstore : (x S.store).2 = T.store := congrArg (fun y => y.2.store) h
  exact Prod.ext hanswer hstore

/-- A reader of the store completes handles. What it has answered is known from then on. -/
theorem completes_of_onStore {x : Build α} {a : α} [hx : Settles x x] (h : onStore x S = (.ok a, T)) :
    S.Completes T ∧ ∀ V, T ≤ V → Known (onStore x) V a := by
  refine ⟨?_, fun V hV => known_of_ok h hV⟩
  exact ⟨(x S.store).2, hx.leads S.store, (congrArg Prod.snd h).symm⟩

/-- A session grows if its store does and the rest of it is as before. -/
theorem Frames.le (h : S.Frames T) (hstore : S.store ≤ T.store) : S ≤ T :=
  ⟨hstore, h.config, h.hooks, h.derived⟩

end Session

/-- A session only grows in the course of a question that may capture types. -/
theorem Query.Moves.le_of_eq {α : Type} {S T : Session} {x : Query α} {r : Except Fault α}
    [Query.Moves Session.Frames x] [Query.Moves (Session.Between Store.Completion) x]
    (h : x S = (r, T)) : S ≤ T := by
  have hframes : S.Frames (x S).2 := Query.Moves.run S
  have hstore : S.Between Store.Completion (x S).2 := Query.Moves.run S
  rw [h] at hframes hstore
  exact hframes.le hstore.le

/-! ### Comparisons of captured types -/

namespace Judgements

variable (j : Judgements) (p : Premises) {t s : TypeId} {n : TypeNode}

/-- Whether a type, once it is captured, is below a type that is neither the same, nor an intersection,
nor an error type. -/
def belowOtherCaptured (t s : TypeId) (n : TypeNode) : Query Bool := do
  let lower ← captureLowerBound j.fuel (← wildLowerBound j.fuel s)
  let throughBound ← Action.both (return lower ≠ s) (do return (← typeKind lower) ≠ .null)
  let t ← j.capture p t
  if throughBound then
    j.subtype p false t lower
  else
    j.belowByKind p true t s n

/-- Whether a type is below another that is not the same, if it is captured where it is compared. -/
def belowNodeCaptured (t s : TypeId) (n : TypeNode) : Query Bool :=
  match n.shape with
  | .intersection bounds => j.belowAll p true t bounds
  | .error _ => return true
  | _ => j.belowOtherCaptured p t s n

theorem belowNodeCaptured_of_error (hn : n.kind = .error) :
    j.belowNodeCaptured p t s n = pure true := by
  obtain ⟨shape, as⟩ := n
  cases shape <;> cases hn
  rfl

theorem belowNodeCaptured_of_ne (h : n.kind ≠ .intersection)
    (h' : n.kind ≠ .error) : j.belowNodeCaptured p t s n = j.belowOtherCaptured p t s n := by
  unfold belowNodeCaptured
  split
  · next bounds hn => exact absurd (congrArg TypeShape.kind hn) h
  · next e hn => exact absurd (congrArg TypeShape.kind hn) h'
  · rfl

theorem subtypeStep_captured_eq (t s : TypeId) : j.subtypeStep p true t s = (do
    let t ← resolveType t
    let x ← viewType s
    if ← j.sameType p t x.1 then return true else j.belowNodeCaptured p t x.1 x.2) := by
  rfl

end Judgements

/-! ### Variables -/

/-- The node at `v` is a variable without annotations that was captured from `q`. -/
def Store.Variable (q : Option TypeId) (v : TypeId) (s : Store) : Prop :=
  ∃ x : TypeVariable, s.types[v.index]? = some (.node { shape := .typeVar x }) ∧ x.capturedFrom = q

section Variables

variable {q : Option TypeId} {v k w : TypeId} {s t : Store} {α : Type} {m n : TypeNode}
  {edit : TypeEdit}

theorem Store.Variable.of_completion (h : s.Variable q v) (hst : s.Completion t) : t.Variable q v := by
  obtain ⟨x, hx, hq⟩ := h
  exact ⟨x, hst.types.kept v.index _ hx rfl, hq⟩

/-- A change of another node, or one that leaves a variable what it is. -/
theorem Store.Variable.setTypeNode (h : s.Variable q v) (hk : s.types[k.index]? = some (.node m))
    (hn : ∀ x : TypeVariable, m = { shape := .typeVar x } →
      ∃ y : TypeVariable, n = { shape := .typeVar y } ∧ y.capturedFrom = x.capturedFrom) :
    (s.setTypeNode k n).Variable q v := by
  obtain ⟨x, hx, hq⟩ := h
  rw [Store.setTypeNode]
  by_cases heq : k.index = v.index
  · rw [heq] at hk ⊢
    cases hx.symm.trans hk
    obtain ⟨y, rfl, hy⟩ := hn x rfl
    exact ⟨y, Slot.get_set hx _, hy.trans hq⟩
  · exact ⟨x, (Array.getElem?_setIfInBounds_ne heq).trans hx, hq⟩

/-- The edits of a variable that say nothing about where it was captured from. -/
def TypeEdit.keepsOrigin : TypeEdit → Bool
  | .definingElement _ | .upperBound _ | .lowerBound _ => true
  | _ => false

theorem maintains_variable_editType (k : TypeId) (hedit : edit.keepsOrigin = true) :
    Maintains (Store.Variable q v) (editType k edit) fun _ => True := by
  intro s hs
  refine ⟨?_, fun _ _ => trivial⟩
  have hview := hs.of_completion (completion_viewType k s)
  unfold editType
  rw [bind_apply]
  cases h : viewType k s with
  | mk r s₁ =>
    rw [h] at hview
    cases r with
    | error e => exact hview
    | ok y =>
      obtain ⟨owner, n⟩ := y
      have hslot := Slot.slot_of_peek (peekType_of_viewType h)
      dsimp only
      rw [bind_apply, editTypeNode]
      cases happly : edit.applyTo s₁ owner n with
      | error e => exact hview
      | ok n' =>
        refine hview.setTypeNode hslot fun x hx => ?_
        rw [TypeEdit.applyTo_eq_fill happly, hx]
        cases edit with
        | definingElement e => exact ⟨_, rfl, rfl⟩
        | upperBound b => exact ⟨_, rfl, rfl⟩
        | lowerBound b => exact ⟨_, rfl, rfl⟩
        | _ => cases hedit

theorem maintains_variable_setElementNode (e : ElementId) (n : ElementNode) :
    Maintains (Store.Variable q v) (modify fun s => s.setElementNode e n : Build Unit) fun _ => True :=
  fun _ hs => ⟨hs, fun _ _ => trivial⟩

theorem maintains_variable_linkDefiningElement (e : ElementId) :
    Maintains (Store.Variable q v) (linkDefiningElement v e) fun _ => True := by
  intro s hs
  obtain ⟨x, hx, hq⟩ := hs
  unfold linkDefiningElement
  rw [bind_of_ok (viewType_node hx)]
  exact maintains_variable_editType v rfl s ⟨x, hx, hq⟩

theorem maintains_variable_setElementType (e : ElementId) :
    Maintains (Store.Variable q v) (setElementType e v) fun _ => True := by
  have hcheck : Maintains (Store.Variable q v) (checkElementType e v) fun _ => True := fun s hs =>
    ⟨hs.of_completion (completion_of_leads (finds_checkElementType e v).leads), fun _ _ => trivial⟩
  exact hcheck.bind fun x _ => (maintains_variable_setElementNode x.1 x.2).bind fun _ _ =>
    (maintains_variable_linkDefiningElement x.1).ite (maintains_pure trivial)

/-- What an edit that succeeds leaves at a node. -/
theorem slot_of_editType
    (hk : s.types[k.index]? = some (.node n)) (h : editType k edit s = (.ok (), t)) :
    t.types[k.index]? = some (.node (TypeEdit.fill n edit)) := by
  unfold editType at h
  rw [bind_of_ok (viewType_node hk)] at h
  have hall : editTypeNodeAll k n [edit] s = (.ok (), t) := h
  exact slot_of_editTypeNodeAll hk hall

/-- A variable that was not captured before is captured from a wildcard. -/
theorem variable_of_capturedWildcard (h : s.Variable none v)
    (hrun : editType v (.capturedWildcard w) s = (.ok (), t)) : t.Variable (some w) v := by
  obtain ⟨x, hx, hq⟩ := h
  have hslot := slot_of_editType hx hrun
  refine ⟨{ x with capturedFrom := some w }, ?_, rfl⟩
  simpa [TypeEdit.fill, TypeEdit.extend, hq] using hslot

end Variables

/-- What is made for a wildcard is a variable that the session did not have. -/
theorem variable_of_freshCapture {w v : TypeId} {S T : Session}
    (hrun : freshCapture w S = (.ok v, T)) :
    S.store.types.size ≤ v.index ∧ T.store.Variable (some w) v := by
  refine ⟨((maintains_freshCapture w) S (.refl S.store)).2 v (by rw [hrun]), ?_⟩
  obtain ⟨_, S₁, -, hrun⟩ := bind_eq_ok hrun
  obtain ⟨_, S₂, -, hrun⟩ := bind_eq_ok hrun
  obtain ⟨e, S₃, -, hrun⟩ := bind_eq_ok hrun
  obtain ⟨v', S₄, hmake, hrun⟩ := bind_eq_ok hrun
  obtain ⟨_, S₅, hlink, hrun⟩ := bind_eq_ok hrun
  obtain ⟨_, S₆, hfrom, hrun⟩ := bind_eq_ok hrun
  cases hrun
  have hnew : S₄.store.Variable none v := by
    cases hmake
    exact ⟨{}, Array.getElem?_push_size, rfl⟩
  have hlinked : S₅.store.Variable none v := by
    have hkept := (maintains_variable_setElementType e S₄.store hnew).1
    have hstore : setElementType e v S₄.store = (.ok (), S₅.store) := Session.store_of_onStore hlink
    rwa [hstore] at hkept
  exact variable_of_capturedWildcard hlinked (Session.store_of_onStore hfrom)

/-- What is known of a variable stays. -/
def Store.KeepsVariable (q : Option TypeId) (v : TypeId) (s t : Store) : Prop :=
  s.Variable q v → t.Variable q v

instance admitsCompletion_keepsVariable (q : Option TypeId) (v : TypeId) :
    Store.AdmitsCompletion (Store.KeepsVariable q v) where
  refl _ := id
  trans h₁ h₂ h := h₂ (h₁ h)
  leads hleads h := h.of_completion (completion_of_leads hleads)
  makeShape shape s h := h.of_completion (completion_makeShape shape s)

/-- Variables get bounds, and are captured from the same wildcards as before. -/
theorem Judgements.variable_boundCaptures {j : Judgements} [h : j.Settle j] (p : Premises)
    (σ : Substitution) (arguments formals vars : List TypeId) (q : Option TypeId) (v : TypeId) :
    Query.Moves (Session.Between (Store.KeepsVariable q v))
      (j.boundCaptures p σ arguments formals vars) :=
  moves_boundCaptures p σ arguments formals vars fun x _ formal =>
    have (b : TypeId) : Query.Moves (Session.Between (Store.KeepsVariable q v))
        (onStore (editType x.2 (.upperBound b))) :=
      ⟨fun S hS => (maintains_variable_editType x.2 rfl S.store hS).1⟩
    have (b : TypeId) : Query.Moves (Session.Between (Store.KeepsVariable q v))
        (onStore (editType x.2 (.lowerBound b))) :=
      ⟨fun S hS => (maintains_variable_editType x.2 rfl S.store hS).1⟩
    moves_boundCapture p σ x.1 formal

/-! ### New variables -/

/-- The type is known, and it is a wildcard. -/
def Store.IsWildcard (s : Store) (t : TypeId) : Prop :=
  ∃ u n, s.peekType t = some (u, n) ∧ n.kind = .wildcard

section Fresh

variable {base s s' : Store} {a a' : TypeId} {size size' : Nat} {x y : TypeId × TypeId}

theorem Store.IsWildcard.mono (h : s.IsWildcard a) (hle : s ≤ s') : s'.IsWildcard a := by
  obtain ⟨u, n, ha, hn⟩ := h
  exact ⟨u, n, peekType_mono hle ha, hn⟩

theorem Store.NoWildcard.mono (h : s.NoWildcard a) (hle : s ≤ s') : s'.NoWildcard a := by
  obtain ⟨u, n, ha, hn⟩ := h
  exact ⟨u, n, peekType_mono hle ha, hn⟩

theorem Store.NoWildcard.not_isWildcard (h : s.NoWildcard a) : ¬ s.IsWildcard a := by
  obtain ⟨u, n, ha, hn⟩ := h
  rintro ⟨u', n', ha', hn'⟩
  cases ha.symm.trans ha'
  exact hn hn'

theorem Store.isWildcard_or_noWildcard (h : (s.peekType a).isSome = true) :
    s.IsWildcard a ∨ s.NoWildcard a := by
  obtain ⟨⟨u, n⟩, hn⟩ := Option.isSome_iff_exists.1 h
  by_cases hkind : n.kind = .wildcard
  · exact .inl ⟨u, n, hn, hkind⟩
  · exact .inr ⟨u, n, hn, hkind⟩

/-- What stands for an argument after the variables are made: a variable at `size` or later that is
captured from it, if it is a wildcard, and the argument itself otherwise. What the arguments are was
known in `base`. -/
def CapturedAs (base : Store) (size : Nat) (s : Store) (a a' : TypeId) : Prop :=
  base.IsWildcard a ∧ size ≤ a'.index ∧ s.Variable (some a) a' ∨ base.NoWildcard a ∧ a' = a

theorem CapturedAs.of_le (h : CapturedAs base size s a a') (hle : size' ≤ size) :
    CapturedAs base size' s a a' :=
  h.imp_left fun ⟨hwild, hsize, hvar⟩ => ⟨hwild, hle.trans hsize, hvar⟩

theorem CapturedAs.of_keeps (h : CapturedAs base size s a a')
    (hkeeps : Store.KeepsVariable (some a) a' s s') : CapturedAs base size s' a a' :=
  h.imp_left fun ⟨hwild, hsize, hvar⟩ => ⟨hwild, hsize, hkeeps hvar⟩

/-- The types that stand for two wildcards are different. -/
def Apart (s : Store) (x y : TypeId × TypeId) : Prop :=
  s.IsWildcard x.1 → s.IsWildcard y.1 → x.2 ≠ y.2

/-- A variable that a store has is not among those that are made later. -/
theorem apart_of_size (hx : s.Variable (some x.1) x.2) (hle : s.types.size ≤ size)
    (hy : CapturedAs base size s' y.1 y.2) : Apart base x y := by
  intro _ hwild
  rcases hy with ⟨-, hsize, -⟩ | ⟨hno, -⟩
  · obtain ⟨v, hv, -⟩ := hx
    obtain ⟨hlt, -⟩ := Array.getElem?_eq_some_iff.1 hv
    intro heq
    rw [heq] at hlt
    exact absurd (hle.trans hsize) (Nat.not_le.2 hlt)
  · exact absurd hwild hno.not_isWildcard

end Fresh

/-- Each wildcard of a list gets a variable of its own. -/
theorem capturedAs_of_freshCaptures {base : Store} : ∀ {ts vs : List TypeId} {S T : Session},
    (∀ t ∈ ts, (base.peekType t).isSome = true) → base ≤ S.store → freshCaptures ts S = (.ok vs, T) →
      List.Forall₂ (CapturedAs base S.store.types.size T.store) ts vs ∧ (ts.zip vs).Pairwise (Apart base)
  | [], vs, S, T, _, _, hrun => by
      cases hrun
      exact ⟨.nil, .nil⟩
  | t :: ts, vs, S, T, hts, hbase, hrun => by
      obtain ⟨ht, hrest⟩ := List.forall_mem_cons.1 hts
      have hothers : ∀ {V : Session} {vs' : List TypeId}, base ≤ V.store →
          freshCaptures ts V = (.ok vs', T) → V.store.Completion T.store := by
        intro V vs' hV hrun
        have hpeeks : ∀ t ∈ ts, (V.store.peekType t).isSome = true := by
          intro t' ht'
          obtain ⟨x, hx⟩ := Option.isSome_iff_exists.1 (hrest t' ht')
          exact Option.isSome_iff_exists.2 ⟨x, peekType_mono hV hx⟩
        have h := (maintains_freshCaptures hpeeks V (.refl V.store)).1
        rwa [hrun] at h
      obtain ⟨kind, S', hkind, hrun⟩ := bind_eq_ok hrun
      rcases Store.isWildcard_or_noWildcard ht with hwild | hno
      · obtain ⟨u, n, hn, hwild'⟩ := hwild
        have hasked : Known (onStore (typeKind t)) S n.kind :=
          known_onStore.2 (known_typeKind.2 ⟨u, n, peekType_mono hbase hn, rfl⟩)
        cases hkind.symm.trans hasked
        rw [if_pos hwild'] at hrun
        obtain ⟨v, T₁, hfresh, hrun⟩ := bind_eq_ok hrun
        obtain ⟨vs', T', hrun', hrun⟩ := bind_eq_ok hrun
        cases hrun
        obtain ⟨hsize, hvar⟩ := variable_of_freshCapture hfresh
        have hT₁ : S.store.Completion T₁.store := by
          have h := (maintains_freshCapture t S (.refl S.store)).1
          rwa [hfresh] at h
        have hbase₁ := hbase.trans hT₁.le
        obtain ⟨hforall, hpairs⟩ := capturedAs_of_freshCaptures hrest hbase₁ hrun'
        refine ⟨.cons (.inl ⟨⟨u, n, hn, hwild'⟩, hsize, hvar.of_completion (hothers hbase₁ hrun')⟩)
          (hforall.imp fun _ _ h => h.of_le hT₁.types.size_le), List.pairwise_cons.2 ⟨?_, hpairs⟩⟩
        exact fun y hy => apart_of_size hvar le_rfl ((List.forall₂_iff_zip.1 hforall).2 hy)
      · obtain ⟨u, n, hn, hno'⟩ := hno
        have hasked : Known (onStore (typeKind t)) S n.kind :=
          known_onStore.2 (known_typeKind.2 ⟨u, n, peekType_mono hbase hn, rfl⟩)
        cases hkind.symm.trans hasked
        rw [if_neg hno'] at hrun
        obtain ⟨_, S'', hsame, hrun⟩ := bind_eq_ok hrun
        cases hsame
        obtain ⟨vs', T', hrun', hrun⟩ := bind_eq_ok hrun
        cases hrun
        have hno : base.NoWildcard t := ⟨u, n, hn, hno'⟩
        obtain ⟨hforall, hpairs⟩ := capturedAs_of_freshCaptures hrest hbase hrun'
        exact ⟨.cons (.inr ⟨hno, rfl⟩) hforall,
          List.pairwise_cons.2 ⟨fun _ _ hwild => absurd hwild hno.not_isWildcard, hpairs⟩⟩

namespace Session

variable {S T V : Session} {a a' t : TypeId} {size size' : Nat}

variable {arguments : List TypeId} {d : ElementId} {outer : TypeId}

/-- What stands in the place of an argument after capture: a variable at `size` or later that is captured
from it, if it is a wildcard, and the argument itself otherwise. -/
def TakesPlaceOf (T : Session) (size : Nat) (a a' : TypeId) : Prop :=
  T.store.IsWildcard a ∧ size ≤ a'.index ∧
      (∃ x : TypeVariable, T.store.peekType a' = some (a', { shape := .typeVar x }) ∧
        x.capturedFrom = some a) ∨
    T.store.NoWildcard a ∧ a' = a

theorem takesPlaceOf_of_capturedAs {base : Store} (h : CapturedAs base size T.store a a')
    (hle : base ≤ T.store) : T.TakesPlaceOf size a a' := by
  rcases h with ⟨hwild, hsize, x, hx, hfrom⟩ | ⟨hno, rfl⟩
  · exact .inl ⟨hwild.mono hle, hsize, x, Slot.peek_node hx _, hfrom⟩
  · exact .inr ⟨hno.mono hle, rfl⟩

theorem TakesPlaceOf.mono (h : T.TakesPlaceOf size a a') (hle : T ≤ V) (hsize : size' ≤ size) :
    V.TakesPlaceOf size' a a' := by
  rcases h with ⟨hwild, hnew, x, hx, hfrom⟩ | ⟨hno, rfl⟩
  · exact .inl ⟨hwild.mono hle.store, hsize.trans hnew, x, peekType_mono hle.store hx, hfrom⟩
  · exact .inr ⟨hno.mono hle.store, rfl⟩

/-! ### Instances -/

/-- The node of a declared type without annotations. -/
def instanceNode (d : ElementId) (enclosing : Option TypeId) (arguments : List TypeId)
    (erased : Option Bool) : TypeNode :=
  { shape := .declared { element := d, enclosing := enclosing, arguments := arguments, erased := erased } }

/-- The type `t` is an instance of its own: it is declared by `d`, lies inside `outer` and has the given
arguments. -/
def InstanceOf (T : Session) (d : ElementId) (outer : TypeId) (arguments : List TypeId) (t : TypeId) :
    Prop :=
  ∃ enclosing erased, Known (onStore (unlessNone outer)) T enclosing ∧
    T.store.peekType t = some (t, instanceNode d enclosing arguments erased)

theorem le_withArguments (u : TypeId) (n : TypeNode) (outer : TypeId) (arguments : List TypeId)
    (S : Session) : S ≤ (withArguments u n outer arguments S).2 :=
  Frames.le (Query.Moves.run S)
    (Store.Completion.le (maintains_withArguments u n outer arguments S (.refl S.store)).1)

theorem instanceOf_of_withArguments {u : TypeId} {n : TypeNode} (hd : n.element = some d)
    (hrun : withArguments u n outer arguments S = (.ok t, T)) :
    S ≤ T ∧ T.InstanceOf d outer arguments t := by
  have hle : ∀ {V}, withArguments u n outer arguments V = (.ok t, T) → V ≤ T := fun {V} hV => by
    have h := le_withArguments u n outer arguments V
    rwa [hV] at h
  refine ⟨hle hrun, ?_⟩
  unfold withArguments at hrun hle
  rw [hd] at hrun hle
  obtain ⟨enclosing, S₁, houter, hrun⟩ := bind_eq_ok hrun
  obtain ⟨-, hknown⟩ := completes_of_onStore (x := unlessNone outer) houter
  -- Asked in `S₁` the same question gives the same answer.
  have hS₁ : S₁ ≤ T := hle (.trans (bind_of_ok (hknown S₁ le_rfl)) hrun)
  refine ⟨enclosing, ?_⟩
  suffices hnode : ∃ erased, T.store.peekType t = some (t, instanceNode d enclosing arguments erased) by
    obtain ⟨erased, hnode⟩ := hnode
    exact ⟨erased, hknown T hS₁, hnode⟩
  obtain ⟨made, S₂, hmake, hrun⟩ := bind_eq_ok hrun
  have hmade := peekType_makeShape (by rintro ⟨⟩) (store_of_onStore hmake)
  split at hrun
  · obtain ⟨_, S₃, hedit, hrun⟩ := bind_eq_ok hrun
    cases hrun
    have hedit : editType t (.erased true) S₂.store = (.ok (), T.store) := store_of_onStore hedit
    exact ⟨some true, Slot.peek_node (slot_of_editType (Slot.slot_of_peek hmade) hedit) _⟩
  · cases hrun
    exact ⟨none, hmade⟩

theorem InstanceOf.mono (h : T.InstanceOf d outer arguments t) (hle : T ≤ V) :
    V.InstanceOf d outer arguments t := by
  obtain ⟨enclosing, erased, henclosing, hnode⟩ := h
  exact ⟨enclosing, erased, henclosing.mono hle, peekType_mono hle.store hnode⟩

/-- The type around an instance is the one that was given, unless that is the absent type. -/
theorem InstanceOf.enclosing (h : T.InstanceOf d outer arguments t) :
    ∃ n, T.Shows t t n ∧ n.kind = .declared ∧ n.element = some d ∧
      n.arguments = arguments ∧ n.annotations = [] ∧ (n.enclosingOrNone = outer ∨
        n.enclosingOrNone = TypeId.none ∧ ∃ u m, T.Shows outer u m ∧ m.kind = .noType .none) := by
  obtain ⟨enclosing, erased, henclosing, hnode⟩ := h
  refine ⟨_, hnode, rfl, rfl, rfl, rfl, ?_⟩
  obtain ⟨u, m, houter, rfl⟩ := known_unlessNone.1 henclosing
  by_cases hm : m.kind = .noType .none
  · rw [if_pos hm]
    exact .inr ⟨rfl, u, m, houter, hm⟩
  · rw [if_neg hm]
    exact .inl rfl

/-! ### The ways that a capture can go -/

section Inversion

variable {S' : Session} {p : Premises} {k fuel : Nat} {s u outer outer' t' : TypeId}
  {m n : TypeNode} {d e : ElementId} {stays : Bool}

/-- What capture finds out about the arguments of a declared type before it makes anything: they stay if
the type is raw, if none of them is a wildcard, or if they are not as many as there are variables. -/
def Retains (T : Session) (fuel : Nat) (u : TypeId) (n : TypeNode) (e : ElementId) (stays : Bool) : Prop :=
  ∃ flags es vars raw, Known (onStore (wildcardFlags n.arguments)) T flags ∧
    Known (onStore (typeParameters e)) T es ∧ Known (onStore (formals es)) T vars ∧
      Known (onStore (isRaw fuel u)) T raw ∧
        stays = (raw || !flags.any id || vars.length != n.arguments.length)

theorem Retains.mono (h : T.Retains fuel u n e stays) (hle : T ≤ V) : V.Retains fuel u n e stays := by
  obtain ⟨flags, es, vars, raw, hflags, hes, hvars, hraw, hstays⟩ := h
  exact ⟨flags, es, vars, raw, hflags.mono hle, hes.mono hle, hvars.mono hle, hraw.mono hle, hstays⟩

/-- The variables for the wildcards of a list are made first, and get their bounds then. -/
theorem takesPlaceOf_of_captures {σ : Substitution} {arguments vars captured : List TypeId}
    {T₁ T₂ : Session} (hpeeks : ∀ a ∈ arguments, (T.store.peekType a).isSome = true)
    (hfresh : freshCaptures arguments T = (.ok captured, T₁))
    (hbound : (judgements k).boundCaptures p σ arguments vars captured T₁ = (.ok (), T₂)) :
    T ≤ T₂ ∧ List.Forall₂ (T₂.TakesPlaceOf T.store.types.size) arguments captured ∧
      (arguments.zip captured).Pairwise (Apart T.store) := by
  obtain ⟨hcaptured, hapart⟩ := capturedAs_of_freshCaptures hpeeks le_rfl hfresh
  obtain ⟨hT₁, hnew⟩ := maintains_freshCaptures hpeeks T (.refl T.store)
  have hframes₁ : T.Frames _ := (moves_freshCaptures arguments).run T
  rw [hfresh] at hT₁ hnew hframes₁
  obtain ⟨hT₂, -⟩ := Judgements.maintains_boundCaptures (j := judgements k) p σ vars
    (hnew captured rfl) T₁ hT₁
  have hframes₂ : T₁.Frames _ :=
    (Judgements.moves_boundAll (j := judgements k) p σ arguments vars captured).run T₁
  rw [hbound] at hT₂ hframes₂
  have hstore : T.store ≤ T₂.store := Store.Completion.le hT₂
  refine ⟨Frames.le (AdmitsSettling.trans hframes₁ hframes₂) hstore, hcaptured.imp fun a a' h => ?_, hapart⟩
  have hkeeps := (Judgements.variable_boundCaptures (j := judgements k) p σ arguments vars
    captured (some a) a').run T₁
  rw [hbound] at hkeeps
  exact takesPlaceOf_of_capturedAs (h.of_keeps hkeeps) hstore

/-- Once it is known what becomes of the arguments, the type is left as it is, or made anew around its
arguments, or around what was captured from them. -/
theorem cases_of_captureFrom (hd : n.element = some d)
    (hrun : (judgements k).captureFrom p u n e outer outer' S = (.ok t', S')) :
    ∃ T, S.Completes T ∧ T ≤ S' ∧
      (T.Retains (judgements k).fuel u n e true ∧ (outer' = outer ∧ t' = u ∧ S' = T ∨
          outer' ≠ outer ∧ S'.InstanceOf d outer' n.arguments t') ∨
        T.Retains (judgements k).fuel u n e false ∧ ∃ captured,
          List.Forall₂ (S'.TakesPlaceOf T.store.types.size) n.arguments captured ∧
            (n.arguments.zip captured).Pairwise (Apart T.store) ∧
              S'.InstanceOf d outer' captured t') := by
  obtain ⟨flags, S₁, hflags, hrun⟩ := bind_eq_ok hrun
  obtain ⟨es, S₂, hes, hrun⟩ := bind_eq_ok hrun
  obtain ⟨vars, S₃, hvars, hrun⟩ := bind_eq_ok hrun
  obtain ⟨raw, T, hraw, hrun⟩ := bind_eq_ok hrun
  obtain ⟨hS₁, hflags⟩ := completes_of_onStore (x := wildcardFlags n.arguments) hflags
  obtain ⟨hS₂, hes⟩ := completes_of_onStore (x := typeParameters e) hes
  obtain ⟨hS₃, hvars⟩ := completes_of_onStore (x := formals es) hvars
  obtain ⟨hT, hraw⟩ := completes_of_onStore (x := isRaw _ u) hraw
  have hflags := hflags T (hS₂.trans (hS₃.trans hT)).le
  have hretains : T.Retains (judgements k).fuel u n e _ := ⟨flags, es, vars, raw, hflags,
    hes T (hS₃.trans hT).le, hvars T hT.le, hraw T le_rfl, rfl⟩
  refine ⟨T, hS₁.trans (hS₂.trans (hS₃.trans hT)), ?_⟩
  split at hrun
  · next hstays =>
    rw [hstays] at hretains
    split at hrun
    · next houter =>
      cases hrun
      exact ⟨le_rfl, .inl ⟨hretains, .inl ⟨houter, rfl, rfl⟩⟩⟩
    · next houter =>
      obtain ⟨hle, hinstance⟩ := instanceOf_of_withArguments hd hrun
      exact ⟨hle, .inl ⟨hretains, .inr ⟨houter, hinstance⟩⟩⟩
  · next hstays =>
    rw [Bool.eq_false_iff.2 hstays] at hretains
    obtain ⟨captured, T₁, hfresh, hrun⟩ := bind_eq_ok hrun
    obtain ⟨_, T₂, hbound, hrun⟩ := bind_eq_ok hrun
    obtain ⟨hle, hplaces, hapart⟩ := takesPlaceOf_of_captures
      (isSome_of_known_wildcardFlags (known_onStore.1 hflags)) hfresh hbound
    obtain ⟨hlast, hinstance⟩ := instanceOf_of_withArguments hd hrun
    exact ⟨hle.trans hlast, .inr ⟨hretains, captured, hplaces.imp fun _ _ h => h.mono hlast le_rfl,
      hapart, hinstance⟩⟩

/-- The parts of a declared type that capture goes by. -/
structure Declares (T : Session) (t u : TypeId) (n : TypeNode) (d e : ElementId) (outer : TypeId)
    (m : TypeNode) : Prop where
  node : T.store.peekType t = some (u, n)
  kind : n.kind = .declared
  named : n.element = some d
  element : ∃ x, T.store.peekElement d = some (e, x)
  around : T.store.peekType n.enclosingOrNone = some (outer, m)

theorem Declares.mono (h : T.Declares t u n d e outer m) (hle : T ≤ V) :
    V.Declares t u n d e outer m := by
  obtain ⟨x, hx⟩ := h.element
  exact ⟨peekType_mono hle.store h.node, h.kind, h.named, ⟨x, peekElement_mono hle.store hx⟩,
    peekType_mono hle.store h.around⟩

/-- Only declared types with an element are captured. The type around such a type is captured first, if
it is a declared type too. -/
theorem cases_of_capture (hrun : (judgements (k + 1)).capture p t S = (.ok t', S')) :
    (∃ n, S'.Shows t t' n ∧ (n.kind ≠ .declared ∨ n.element = none) ∧ S.Completes S') ∨
      ∃ u n d e outer m outer' T₁ T₂, S.Completes T₁ ∧ T₁.Declares t u n d e outer m ∧ T₁ ≤ T₂ ∧
        (m.kind ≠ .declared ∧ outer' = outer ∧ T₂ = T₁ ∨
          m.kind = .declared ∧ (judgements k).capture p outer T₁ = (.ok outer', T₂)) ∧
        T₂ ≤ S' ∧ (judgements k).captureFrom p u n e outer outer' T₂ = (.ok t', S') := by
  obtain ⟨⟨u, n⟩, S₁, hview, hrun⟩ := bind_eq_ok hrun
  obtain ⟨hS₁, hview⟩ := completes_of_onStore (x := viewType t) hview
  have hnode : ∀ V, S₁ ≤ V → V.Shows t u n := fun V hV => shows_of_known (hview V hV)
  dsimp only at hrun
  split at hrun
  · next hkind =>
    cases hrun
    exact .inl ⟨n, hnode _ le_rfl, .inl hkind, hS₁⟩
  next hkind =>
  obtain ⟨own, S₂, hown, hrun⟩ := bind_eq_ok hrun
  obtain ⟨hS₂, hown⟩ := completes_of_onStore (x := n.elementOf) hown
  cases own with
  | none =>
    cases hrun
    have hnone := known_elementOf_none.1 (hown _ le_rfl)
    exact .inl ⟨n, hnode _ hS₂.le, .inr hnone, hS₁.trans hS₂⟩
  | some e =>
    obtain ⟨⟨outer, m⟩, S₃, houter, hrun⟩ := bind_eq_ok hrun
    obtain ⟨hS₃, houter⟩ := completes_of_onStore (x := viewType n.enclosingOrNone) houter
    obtain ⟨d, x, hd, hx⟩ := known_elementOf_some.1 (hown S₃ hS₃.le)
    have hdeclares : S₃.Declares t u n d e outer m := ⟨hnode S₃ (hS₂.trans hS₃).le, not_not.1 hkind, hd,
      ⟨x, hx⟩, shows_of_known (houter S₃ le_rfl)⟩
    have hT₁ := hS₁.trans (hS₂.trans hS₃)
    have hlast : ∀ {outer' T₂}, (judgements k).captureFrom p u n e outer outer' T₂ = (.ok t', S') →
        T₂ ≤ S' := fun hrun => by
      obtain ⟨T, hT, hle, -⟩ := cases_of_captureFrom hd hrun
      exact hT.le.trans hle
    refine .inr ⟨u, n, d, e, outer, m, ?_⟩
    split at hrun
    · next hm =>
      obtain ⟨outer', T₂, hcapture, hrun⟩ := bind_eq_ok hrun
      exact ⟨outer', S₃, T₂, hT₁, hdeclares, Query.Moves.le_of_eq hcapture, .inr ⟨hm, hcapture⟩,
        hlast hrun, hrun⟩
    · next hm =>
      obtain ⟨_, T₂, hsame, hrun⟩ := bind_eq_ok hrun
      cases hsame
      exact ⟨outer, S₃, S₃, hT₁, hdeclares, le_rfl, .inl ⟨hm, rfl, rfl⟩, hlast hrun, hrun⟩

/-- Capture gives back a node, or an instance of the element of a declared type. -/
theorem node_of_capture (hrun : (judgements k).capture p t S = (.ok t', S')) :
    ∃ u n n', S'.Shows t u n ∧ S'.Shows t' t' n' ∧
      (t' = u ∧ n' = n ∨ n.kind = .declared ∧ n'.kind = .declared ∧ n'.element = n.element ∧
        n.element ≠ none) := by
  cases k with
  | zero => cases hrun
  | succ k =>
    rcases cases_of_capture hrun with ⟨n, ht, -, -⟩ | ⟨u, n, d, e, outer, m, outer', T₁, T₂, hT₁, h, hT₂,
      -, hlast, hrun⟩
    · exact ⟨t', n, n, ht, ht.self, .inl ⟨rfl, rfl⟩⟩
    have h := h.mono (hT₂.trans hlast)
    have hinstance : ∀ {outer arguments}, S'.InstanceOf d outer arguments t' →
        ∃ n', S'.Shows t' t' n' ∧ n'.kind = .declared ∧ n'.element = n.element :=
      fun hinstance => by
        obtain ⟨n', ht', hkind', hd', -⟩ := hinstance.enclosing
        exact ⟨n', ht', hkind', hd'.trans h.named.symm⟩
    have hsome : n.element ≠ none := by
      rw [h.named]
      rintro ⟨⟩
    obtain ⟨T, -, -, ⟨-, ⟨-, rfl, -⟩ | ⟨-, hmade⟩⟩ | ⟨-, captured, -, -, hmade⟩⟩ :=
      cases_of_captureFrom h.named hrun
    · exact ⟨_, n, n, h.node, Store.peekType_self h.node, .inl ⟨rfl, rfl⟩⟩
    all_goals
      obtain ⟨n', ht', hkind', helement⟩ := hinstance hmade
      exact ⟨u, n, n', h.node, ht', .inr ⟨h.kind, hkind', helement, hsome⟩⟩

/-- A comparison with a type that stands for itself only: the types are the same, or the second is an
error type, or the first is captured and then compared by its kind. -/
theorem cases_of_subtype_captured {b : Bool} (hrun : subtype (k + 1) true t s S = (.ok b, T)) :
    ∃ u m v n, T.Shows t u m ∧ T.Shows s v n ∧
      (n.kind ≠ .intersection → n.kind ≠ .wildcard → n.kind ≠ .typeVar → b = true ∨
        n.kind ≠ .error ∧ Known ((judgements k).sameType {} u v) T false ∧
          ∃ t' S₁ S₂, S ≤ S₁ ∧ (judgements k).capture {} u S₁ = (.ok t', S₂) ∧ (m.kind ≠ .union →
              S₂ ≤ T ∧ Known ((judgements k).belowByKind {} false t' v n) T b)) := by
  have hle : ∀ {V}, subtype (k + 1) true t s V = (.ok b, T) → V ≤ T := Query.Moves.le_of_eq
  unfold subtype at hrun hle
  rw [judgements_subtype, Judgements.subtypeStep_captured_eq] at hrun
  obtain ⟨u, S₁, hu, hrun⟩ := bind_eq_ok hrun
  obtain ⟨⟨v, n⟩, S₂, hv, hrun⟩ := bind_eq_ok hrun
  obtain ⟨same, S₃, hsame, hrun⟩ := bind_eq_ok hrun
  obtain ⟨hS₁, hu⟩ := completes_of_onStore (x := resolveType t) hu
  obtain ⟨hS₂, hv⟩ := completes_of_onStore (x := viewType s) hv
  have hS₃ := le_of_ok hsame
  have hknown := known_of_ok hsame le_rfl
  -- Asked in `S₃` the same question gives the same answer.
  have hT : S₃ ≤ T := hle (.trans (bind_of_ok (hu S₃ (hS₂.le.trans hS₃)))
    (.trans (bind_of_ok (hv S₃ hS₃)) (.trans (bind_of_ok hknown) hrun)))
  obtain ⟨m, hm⟩ := known_resolveType.1 (known_onStore.1 (hu T (hS₂.le.trans (hS₃.trans hT))))
  refine ⟨u, m, v, n, hm, shows_of_known (hv T (hS₃.trans hT)), ?_⟩
  intro hinter hwild hvar
  split at hrun
  · cases hrun
    exact .inl rfl
  next hdiffer =>
  have hdiffers : Known ((judgements k).sameType {} u v) T false := by
    have hsame := known_of_ok hsame hT
    rwa [Bool.eq_false_iff.2 hdiffer] at hsame
  by_cases herror : n.kind = .error
  · rw [Judgements.belowNodeCaptured_of_error _ _ herror] at hrun
    cases hrun
    exact .inl rfl
  rw [Judgements.belowNodeCaptured_of_ne _ _ hinter herror] at hrun
  obtain ⟨w, S₄, hw, hrun⟩ := bind_eq_ok hrun
  obtain ⟨lower, S₅, hlower, hrun⟩ := bind_eq_ok hrun
  obtain ⟨through, S₆, hthrough, hrun⟩ := bind_eq_ok hrun
  obtain ⟨t', S₇, hcapture, hrun⟩ := bind_eq_ok hrun
  obtain ⟨hS₄, hw⟩ := completes_of_onStore (x := wildLowerBound _ v) hw
  obtain ⟨hS₅, hlower⟩ := completes_of_onStore (x := captureLowerBound _ w) hlower
  have hS₆ := le_of_ok hthrough
  have hknown := known_of_ok hthrough le_rfl
  have hS := hS₃.trans (hS₄.le.trans (hS₅.le.trans hS₆))
  -- A type that stands for itself only is not compared through a bound.
  have hv := Store.peekType_self (shows_of_known (hv S₆ hS))
  obtain rfl : through = false := by
    cases through with
    | false => rfl
    | true =>
      obtain ⟨hne, htest⟩ := known_both_true.1 hknown
      obtain ⟨kind, hkind, hnull⟩ := known_map.1 htest
      refine absurd ⟨_, w, kind, hw S₆ (hS₅.le.trans hS₆), hlower S₆ hS₆, ?_, hkind, ?_⟩
        (not_standsFor hv hwild (isCapture_eq_false hvar))
      · exact of_decide_eq_true (known_pure.1 hne).symm
      · exact of_decide_eq_true hnull.symm
  rw [if_neg Bool.false_ne_true] at hrun
  refine .inr ⟨herror, hdiffers, t', S₆, S₇, hS₁.le.trans (hS₂.le.trans hS), hcapture, fun hunion => ?_⟩
  have hS₇ : S₆ ≤ S₇ := Query.Moves.le_of_eq hcapture
  obtain ⟨m₁, hm₁⟩ := known_resolveType.1 (known_onStore.1 (hu S₁ le_rfl))
  have hu₇ := peekType_mono ((hS₂.le.trans hS).trans hS₇).store (Store.peekType_self hm₁)
  cases hm.symm.trans (peekType_mono (hS₂.le.trans (hS₃.trans hT)).store hm₁)
  obtain ⟨u', n₁, n', hu', ht', hn'⟩ := node_of_capture hcapture
  cases hu₇.symm.trans hu'
  have hkind : n'.kind ≠ .union := by
    rcases hn' with ⟨-, rfl⟩ | ⟨-, hn', -⟩
    · exact hunion
    · rw [hn']
      decide
  rw [belowByKind_uncaptured ht' fun as has => hkind (congrArg TypeShape.kind has)] at hrun
  exact ⟨le_of_ok hrun, known_of_ok hrun le_rfl⟩

theorem le_of_comparison {b : Bool}
    (hrun : isSubtype fuel t s S = (.ok b, T) ∨ isSubtypeNoCapture fuel t s S = (.ok b, T)) : S ≤ T :=
  hrun.elim Query.Moves.le_of_eq Query.Moves.le_of_eq

/-- A comparison with a type that stands for itself only says yes if it does so without capture, and for
what capture gives. -/
theorem eq_true_of_comparison {b : Bool} (hhook : S.hooks.isSubtype t s = none)
    (hrun : isSubtype fuel t s S = (.ok b, T) ∨ isSubtypeNoCapture fuel t s S = (.ok b, T))
    (hs : ∀ {v n}, T.Shows s v n → n.kind ≠ .intersection ∧ n.kind ≠ .wildcard ∧ n.kind ≠ .typeVar)
    (ht : ∀ {u m}, T.Shows t u m → m.kind ≠ .union)
    (hplain : ∀ {k}, Certain ((judgements k).subtype {} false t s) T)
    (hcaptured : ∀ {k u m v n t' S₁ S₂}, T.Shows t u m → T.Shows s v n → n.kind ≠ .error →
      Known ((judgements k).sameType {} u v) T false → S ≤ S₁ →
        (judgements k).capture {} u S₁ = (.ok t', S₂) → S₂ ≤ T →
          Certain ((judgements k).belowByKind {} false t' v n) T) : b = true := by
  rw [isSubtype_apply hhook] at hrun
  have hfalse : ∀ {fuel}, subtype fuel false t s S = (.ok b, T) → b = true := fun hrun =>
    hplain b (known_of_ok hrun le_rfl)
  rcases hrun with hrun | hrun
  · cases hcapture : S.config.captureInSubtyping with
    | false =>
      rw [hcapture] at hrun
      exact hfalse hrun
    | true =>
      rw [hcapture] at hrun
      cases fuel with
      | zero => cases hrun
      | succ k =>
        obtain ⟨u, m, v, n, hu, hv, hcases⟩ := cases_of_subtype_captured hrun
        obtain ⟨hinter, hwild, hvar⟩ := hs hv
        rcases hcases hinter hwild hvar with htrue | ⟨herror, hdiffers, t', S₁, S₂, hS₁, hrun, h⟩
        · exact htrue
        · obtain ⟨hT, hknown⟩ := h (ht hu)
          exact hcaptured hu hv herror hdiffers hS₁ hrun hT b hknown
  · exact hfalse hrun

end Inversion

end Session

end JavaTypes
