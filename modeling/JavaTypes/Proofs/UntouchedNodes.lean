import JavaTypes.Proofs.Questions

/-!
# Questions leave the nodes alone

A question completes handles and makes nodes. Capture also fills nodes in: the variables that it makes
are linked to their elements, and get their bounds once all of them are there. All of these nodes are
made by the same question.

* `Action.Maintains I x P`: the action `x` keeps the condition `I` on states, and its answers are
  among those of `P`;
* `Store.Fillable I T E N`: what has to be checked of `I`, so that it is kept while types and elements
  are filled in. To fill in nodes that a store `base` does not have keeps the nodes of `base`
  (`fillable_completion`);
* `completion_captureFrom`: a captured variable that gets bounds is one that was made before. That no
  other is written to rests on a question that capture starts with, which of the arguments are
  wildcards: after it an argument that is none stays none, whatever is filled in;
* `Question.nodes_asked`: every question leaves each node as it was.
-/

namespace JavaTypes

open Action

namespace Action

variable {σ α β : Type} {I : σ → Prop} {P : α → Prop} {Q : β → Prop} {x y : Action σ α}
  {f : α → Action σ β}

/-- The action keeps a condition on states, and what it answers with is among the values of `P`. -/
def Maintains (I : σ → Prop) (x : Action σ α) (P : α → Prop) : Prop :=
  ∀ s, I s → I (x s).2 ∧ ∀ a, (x s).1 = .ok a → P a

/-- An action that only answers, in the state that it is in. -/
theorem maintained_of_ok {s : σ} {a : α} (hx : x s = (.ok a, s)) (hs : I s)
    (ha : P a) : I (x s).2 ∧ ∀ b, (x s).1 = .ok b → P b := by
  rw [hx]
  refine ⟨hs, ?_⟩
  rintro b ⟨⟩
  exact ha

theorem maintained_of_error {s s' : σ} {e : Fault} (hx : x s = (.error e, s'))
    (hs : I s') : I (x s).2 ∧ ∀ b, (x s).1 = .ok b → P b := by
  rw [hx]
  refine ⟨hs, ?_⟩
  rintro b ⟨⟩

theorem maintains_pure {a : α} (h : P a) : Maintains I (pure a) P :=
  fun _ hs => maintained_of_ok rfl hs h

theorem maintains_throw (e : Fault) : Maintains I (throw e) P :=
  fun _ hs => maintained_of_error rfl hs

theorem maintains_ofExcept (r : Except Fault α) : Maintains I (ofExcept r) fun a => r = .ok a :=
  fun _ hs => ⟨hs, fun _ => id⟩

theorem maintains_get : Maintains I (get : Action σ σ) fun _ => True :=
  fun _ hs => ⟨hs, fun _ _ => trivial⟩

/-- What is done in the end need not keep the condition. -/
theorem Maintains.ends {R : Except Fault β × σ → Prop}
    (hx : Maintains I x P) (herror : ∀ {e s}, I s → R (.error e, s))
    (hf : ∀ a, P a → ∀ s, I s → R (f a s)) : ∀ s, I s → R ((x >>= f) s) := by
  intro s hs
  obtain ⟨hkept, hanswer⟩ := hx s hs
  cases h : x s with
  | mk r s' =>
    rw [h] at hkept hanswer
    cases r with
    | ok a =>
      rw [bind_of_ok h]
      exact hf a (hanswer a rfl) s' hkept
    | error e =>
      rw [bind_of_error h]
      exact herror hkept

theorem Maintains.bind (hx : Maintains I x P)
    (hf : ∀ a, P a → Maintains I (f a) Q) : Maintains I (x >>= f) Q :=
  hx.ends (R := fun y => I y.2 ∧ ∀ b, y.1 = .ok b → Q b) (fun hs => ⟨hs, nofun⟩) hf

theorem Maintains.ite {c : Prop} [Decidable c] (hx : Maintains I x P)
    (hy : Maintains I y P) : Maintains I (if c then x else y) P := by
  split
  · exact hx
  · exact hy

end Action

/-! ### Filling in -/

/-- What has to be checked of a condition on stores, so that it is kept when types of `T` and elements
of `E` are made and filled in, and when anything is asked. The nodes of the elements are among those of
`N`, of which the kind and the container of an element decide. -/
structure Store.Fillable (I : Store → Prop) (T : TypeId → Prop) (E : ElementId → Prop)
    (N : ElementNode → Prop) : Prop where
  leads : ∀ {s t}, Leads s t → I s → I t
  viewType : ∀ {t}, T t → Maintains I (JavaTypes.viewType t) fun x => T x.1
  viewElement : ∀ {e}, E e → Maintains I (JavaTypes.viewElement e) fun x => E x.1 ∧ N x.2
  setTypeNode : ∀ {t s} (n), T t → I s → I (s.setTypeNode t n)
  setElementNode : ∀ {e n s}, E e → N n → I s → I (s.setElementNode e n)
  makeType : ∀ n, Maintains I (JavaTypes.makeType n) T
  newElement : ∀ k, Maintains I (JavaTypes.newElement k) E
  congr : ∀ {n n'}, n'.kind = n.kind → n'.enclosing = n.enclosing → N n → N n'

namespace Store.Fillable

variable {I : Store → Prop} {T : TypeId → Prop} {E : ElementId → Prop} {N : ElementNode → Prop}
  (hI : Store.Fillable I T E N) {t : TypeId} {e : ElementId} {n : ElementNode} {α : Type}

include hI

theorem finds {x : Build α} {P : Store → Store → α → Prop} (h : ∀ s, Build.Finds s x (P s)) :
    Maintains I x fun _ => True :=
  fun s hs => ⟨hI.leads (h s).leads hs, fun _ _ => trivial⟩

theorem setNode (he : E e) (hn : N n) :
    Maintains I (modify fun s => s.setElementNode e n : Build Unit) fun _ => True :=
  fun _ hs => ⟨hI.setElementNode he hn hs, fun _ _ => trivial⟩

theorem editTypeNode (ht : T t) (n : TypeNode) (edit : TypeEdit) :
    Maintains I (JavaTypes.editTypeNode t n edit) fun _ => True := by
  intro s hs
  refine ⟨?_, fun _ _ => trivial⟩
  unfold JavaTypes.editTypeNode
  cases edit.applyTo s t n with
  | ok n' => exact hI.setTypeNode n' ht hs
  | error f => exact hs

theorem editTypeNodeAll (ht : T t) : ∀ (edits : List TypeEdit) (n : TypeNode),
    Maintains I (JavaTypes.editTypeNodeAll t n edits) fun _ => True
  | [], _ => maintains_pure trivial
  | edit :: edits, n => (hI.editTypeNode ht n edit).bind fun n' _ => editTypeNodeAll ht edits n'

theorem editType (ht : T t) (edit : TypeEdit) :
    Maintains I (JavaTypes.editType t edit) fun _ => True :=
  (hI.viewType ht).bind fun x hx => (hI.editTypeNode hx x.2 edit).bind fun _ _ => maintains_pure trivial

theorem makeShape (shape : TypeShape) : Maintains I (JavaTypes.makeShape shape) T :=
  (hI.makeType _).bind fun _ ht => (hI.editTypeNodeAll ht _ _).bind fun _ _ => maintains_pure ht

theorem editElement (he : E e) (edit : ElementEdit) :
    Maintains I (JavaTypes.editElement e edit) fun _ => True := by
  refine maintains_get.bind fun _ _ => (maintains_ofExcept _).bind fun _ _ => ?_
  refine (hI.viewElement he).bind fun x hx => (maintains_ofExcept _).bind fun n' hedit => ?_
  have hagrees := ElementEdit.agrees_of_applyTo hedit
  exact hI.setNode hx.1 (hI.congr hagrees.kind hagrees.enclosing hx.2)

theorem newNamedElement (k : ElementKind) (name : String) :
    Maintains I (JavaTypes.newNamedElement k name) E :=
  (hI.newElement k).bind fun _ he => (hI.editElement he _).bind fun _ _ => maintains_pure he

theorem linkDefiningElement (ht : T t) (e : ElementId) :
    Maintains I (JavaTypes.linkDefiningElement t e) fun _ => True := by
  refine (hI.viewType ht).bind fun x hx => ?_
  obtain ⟨owner, n⟩ := x
  dsimp only
  cases n.shape with
  | error element =>
    exact (maintains_ofExcept _).bind fun _ _ s hs => ⟨hI.setTypeNode _ hx hs, fun _ _ => trivial⟩
  | declared d => exact hI.editType ht _
  | typeVar v => exact hI.editType ht _
  | _ => exact maintains_pure trivial

theorem setElementType (he : E e) (ht : T t) :
    Maintains I (JavaTypes.setElementType e t) fun _ => True := by
  have hcheck : Maintains I (checkElementType e t) fun x => E x.1 ∧ N x.2 := by
    refine (hI.viewElement he).bind fun x hx => maintains_get.bind fun _ _ => ?_
    refine (maintains_ofExcept _).bind fun _ _ => .bind (P := fun _ => True) ?_ fun _ _ => ?_
    · exact (hI.finds fun _ => finds_checkDefiningElement t x.1).ite (maintains_pure trivial)
    · exact (maintains_ofExcept _).bind fun _ _ =>
        maintains_pure ⟨hx.1, hI.congr (n := x.2) rfl rfl hx.2⟩
  exact hcheck.bind fun x hx => (hI.setNode hx.1 hx.2).bind fun _ _ =>
    (hI.linkDefiningElement ht x.1).ite (maintains_pure trivial)

theorem setAccessor (fuel : Nat) (he : E e) (accessor : ElementId) :
    Maintains I (JavaTypes.setAccessor fuel e accessor) fun _ => True := by
  refine (hI.viewElement he).bind fun x hx => ?_
  obtain ⟨e, n⟩ := x
  dsimp only
  cases hdetail : n.detail with
  | recordComponent old =>
    refine (hI.finds fun _ => Build.finds_of_settles).bind fun method _ => ?_
    refine (hI.finds fun _ => Build.finds_of_settles).bind fun _ _ => (maintains_ofExcept _).bind
      fun new _ => hI.setNode hx.1 (hI.congr (n := n) ?_ rfl hx.2)
    exact (ElementNode.agrees_accessor hdetail new).kind
  | _ => exact maintains_throw _

end Store.Fillable

/-! ### Nodes that a store does not have -/

section New

variable {base : Store}

/-- What `base` knows of a type stays. -/
theorem maintains_typeNode {t u : TypeId} {n : TypeNode} (hn : base.peekType t = some (u, n)) :
    Maintains base.Completion (typeNode t) fun m => m = n := fun _ hs =>
  maintained_of_ok (known_typeNode.2 ⟨u, peekType_mono hs.le hn⟩) hs rfl

/-- To fill in what is new keeps the nodes of `base`. A handle that `base` does not know denotes a node
from then on, or still nothing. -/
theorem fillable_completion (base : Store) : Store.Fillable base.Completion
    (base.types.size ≤ ·.index) (base.elements.size ≤ ·.index) fun _ => True where
  leads hleads hs := hs.trans (completion_of_leads hleads)
  viewType {k} hk s hs := by
    cases hslot : s.types[k.index]? with
    | none =>
      exact maintained_of_error (Shelf.follow_of_stop _ (by rw [Shelf.stop?, Shelf.types, hslot]) _) hs
    | some slot =>
      obtain ⟨n, rfl⟩ := hs.types.new (Array.getElem?_eq_none hk) hslot
      exact maintained_of_ok (viewType_node hslot) hs hk
  viewElement {k} hk s hs := by
    cases hslot : s.elements[k.index]? with
    | none =>
      exact maintained_of_error (Shelf.follow_of_stop _ (by rw [Shelf.stop?, Shelf.elements, hslot]) _) hs
    | some slot =>
      obtain ⟨n, rfl⟩ := hs.elements.new (Array.getElem?_eq_none hk) hslot
      exact maintained_of_ok (viewElement_node hslot) hs ⟨hk, trivial⟩
  setTypeNode n hk hs := hs.setTypeNode hk n
  setElementNode {_ n _} hk _ hs := ⟨hs.types, hs.elements.setNew hk n, hs.registry, hs.labels⟩
  makeType n s hs := ⟨hs.makeType n, by rintro t ⟨⟩; exact hs.types.size_le⟩
  newElement k s hs := ⟨hs.makeElement _, by rintro e ⟨⟩; exact hs.elements.size_le⟩
  congr _ _ _ := trivial

end New

/-! ### Capture -/

/-- A store that has all that `base` has goes to another. -/
def Store.Keeps (base s t : Store) : Prop :=
  base.Completion s → base.Completion t

instance admitsCompletion_keeps (base : Store) : Store.AdmitsCompletion base.Keeps where
  refl _ := id
  trans h₁ h₂ h := h₂ (h₁ h)
  leads hleads h := h.trans (completion_of_leads hleads)
  makeShape shape s h := h.trans (completion_makeShape shape s)

instance admitsCompletion_completion : Store.AdmitsCompletion Store.Completion where
  refl := .refl
  trans := .trans
  leads := completion_of_leads
  makeShape := completion_makeShape

section Capture

variable {base : Store} {α : Type} {j : Judgements}

/-- The session's store has all that `base` has. -/
def Session.Continues (base : Store) (S : Session) : Prop :=
  base.Completion S.store

theorem maintains_onStore {x : Build α} {P : α → Prop} (hx : Maintains base.Completion x P) :
    Maintains (Session.Continues base) (onStore x) P :=
  fun S hS => hx S.store hS

theorem maintains_of_moves {x : Query α} [hx : Query.Moves (Session.Between base.Keeps) x] :
    Maintains (Session.Continues base) x fun _ => True :=
  fun S hS => ⟨hx.run S hS, fun _ _ => trivial⟩

theorem maintains_freshCapture (wildcard : TypeId) :
    Maintains (Session.Continues base) (freshCapture wildcard)
      fun v => base.types.size ≤ v.index := by
  have := Query.Moves.modifyMemo (R := Session.Between base.Keeps)
    (fun m => { m with captures := m.captures + 1 }) fun _ => rfl
  refine maintains_of_moves.bind fun _ _ => maintains_get.bind fun _ _ => ?_
  refine (maintains_onStore ((fillable_completion base).newNamedElement _ _)).bind fun e he => ?_
  refine (maintains_onStore ((fillable_completion base).makeType _)).bind fun v hv => ?_
  exact (maintains_onStore ((fillable_completion base).setElementType he hv)).bind fun _ _ =>
    (maintains_onStore ((fillable_completion base).editType hv _)).bind fun _ _ => maintains_pure hv

/-- The type is known, and it is not a wildcard. -/
def Store.NoWildcard (s : Store) (t : TypeId) : Prop :=
  ∃ u n, s.peekType t = some (u, n) ∧ n.kind ≠ .wildcard

/-- What stands in the place of a type is new, or the type is no wildcard. -/
theorem maintains_freshCaptures : ∀ {ts : List TypeId}, (∀ t ∈ ts, (base.peekType t).isSome = true) →
    Maintains (Session.Continues base) (freshCaptures ts) fun vs =>
      ∀ x ∈ ts.zip vs, base.types.size ≤ x.2.index ∨ base.NoWildcard x.1
  | [], _ => maintains_pure nofun
  | t :: ts, hts => by
      obtain ⟨ht, hrest⟩ := List.forall_mem_cons.1 hts
      obtain ⟨⟨u, n⟩, hn⟩ := Option.isSome_iff_exists.1 ht
      have hkind : Maintains base.Completion (typeKind t) fun k => k = n.kind :=
        (maintains_typeNode hn).bind fun m hm => maintains_pure (congrArg TypeNode.kind hm)
      have hothers : ∀ v, (base.types.size ≤ v.index ∨ base.NoWildcard t) →
          Maintains (Session.Continues base) (freshCaptures ts >>= fun vs => pure (v :: vs))
            fun vs => ∀ x ∈ (t :: ts).zip vs, base.types.size ≤ x.2.index ∨ base.NoWildcard x.1 :=
        fun v hv => (maintains_freshCaptures hrest).bind fun vs hvs =>
          maintains_pure (List.forall_mem_cons.2 ⟨hv, hvs⟩)
      refine (maintains_onStore hkind).bind fun k hk => ?_
      subst hk
      split
      · exact (maintains_freshCapture t).bind fun v hv => hothers v (.inl hv)
      · next hne => exact hothers t (.inr ⟨u, n, hn, hne⟩)

theorem maintains_withArguments (t : TypeId) (n : TypeNode) (enclosing : TypeId)
    (arguments : List TypeId) :
    Maintains (Session.Continues base) (withArguments t n enclosing arguments) fun _ => True := by
  unfold withArguments
  cases n.element with
  | none => exact maintains_pure trivial
  | some e =>
    refine maintains_of_moves.bind fun outer _ =>
      (maintains_onStore ((fillable_completion base).makeShape _)).bind fun result hresult => ?_
    exact ((maintains_onStore ((fillable_completion base).editType hresult _)).bind fun _ _ =>
      maintains_pure trivial).ite (maintains_pure trivial)

/-- Nothing is done about an argument that is not a wildcard. -/
theorem Judgements.maintains_boundCapture {p : Premises} {σ : Substitution}
    {argument : TypeId} (h : base.NoWildcard argument) (formal var : TypeId) :
    Maintains (Session.Continues base) (j.boundCapture p σ argument formal var) fun _ => True := by
  obtain ⟨u, n, hn, hne⟩ := h
  refine (maintains_onStore (maintains_typeNode hn)).bind fun m hm => ?_
  rw [hm, if_neg hne]
  exact maintains_pure trivial

/-- The variables that get bounds are new. Nothing is done about the other types. -/
theorem Judgements.maintains_boundCaptures [h : j.Settle j] (p : Premises)
    (σ : Substitution) {arguments captured : List TypeId} (formals : List TypeId)
    (hnew : ∀ x ∈ arguments.zip captured, base.types.size ≤ x.2.index ∨ base.NoWildcard x.1) :
    Maintains (Session.Continues base) (j.boundCaptures p σ arguments formals captured)
      fun _ => True := by
  have := moves_boundCaptures (R := Session.Between base.Keeps) (j := j) p σ arguments formals captured
    fun x hx formal => by
      rcases hnew x hx with hnew | hno
      · have (edit : TypeEdit) : Query.Moves (Session.Between base.Keeps) (onStore (editType x.2 edit)) :=
          ⟨fun S hS => ((fillable_completion base).editType hnew _ S.store hS).1⟩
        exact moves_boundCapture p σ x.1 formal
      · exact ⟨fun U hU => (maintains_boundCapture hno formal x.2 U hU).1⟩
  exact maintains_of_moves

/-- The types whose kinds are asked for are known afterwards. -/
theorem isSome_of_known_wildcardFlags : ∀ {ts : List TypeId} {flags : List Bool},
    Known (wildcardFlags ts) base flags → ∀ t ∈ ts, (base.peekType t).isSome = true
  | [], _, _, t, ht => by cases ht
  | t :: ts, flags, h, t', ht' => by
      obtain ⟨kind, hkind, h⟩ := known_bind.1 h
      obtain ⟨rest, hrest, -⟩ := known_map.1 h
      obtain ⟨u, n, hn, -⟩ := known_typeKind.1 hkind
      rcases List.mem_cons.1 ht' with rfl | ht'
      · exact Option.isSome_iff_exists.2 ⟨(u, n), hn⟩
      · exact isSome_of_known_wildcardFlags hrest t' ht'

/-- The variables that get bounds are among those that were made for the wildcards. -/
instance Judgements.completion_captureFrom [h : j.Settle j] (p : Premises) (t : TypeId)
    (n : TypeNode) (e : ElementId) (outer outer' : TypeId) :
    Query.Moves (Session.Between Store.Completion) (j.captureFrom p t n e outer outer') := by
  refine moves_of_settles.bind_of_ok fun {S flags T} hS => ?_
  have hknown := known_of_ok hS le_rfl
  have hwith : ∀ arguments, Maintains (Session.Continues T.store)
      (withArguments t n outer' arguments) fun _ => True := maintains_withArguments t n outer'
  -- From here on nothing that is in the store of `T` is written to.
  suffices hrest : Maintains (Session.Continues T.store) _ fun _ => True from
    (hrest T (.refl T.store)).1
  refine maintains_of_moves.bind fun es _ => maintains_of_moves.bind fun vars _ =>
    maintains_of_moves.bind fun _ _ => .ite (.ite (maintains_pure trivial) (hwith _)) ?_
  refine (maintains_freshCaptures
    (isSome_of_known_wildcardFlags (known_onStore.1 hknown))).bind fun captured hfresh => ?_
  exact (maintains_boundCaptures p _ vars hfresh).bind fun _ _ => hwith captured

end Capture

instance admitsCapture_completion : Session.AdmitsCapture (Session.Between Store.Completion) :=
  admitsCapture_of_captureFrom

/-- A question, answered or not, completes pending slots and adds nodes, and every node that the store
had is as it was. -/
theorem Question.nodes_asked (fuel : Nat) (S : Session) (q : Question) :
    S.store.Completion (q.asked fuel S).store ∧
    (∀ (i : Nat) (n : TypeNode), S.store.types[i]? = some (.node n) →
      (q.asked fuel S).store.types[i]? = some (.node n)) ∧
    ∀ (i : Nat) (n : ElementNode), S.store.elements[i]? = some (.node n) →
      (q.asked fuel S).store.elements[i]? = some (.node n) := by
  have hcompletion : S.store.Completion (q.asked fuel S).store :=
    q.moves (R := Session.Between Store.Completion) fuel S
  refine ⟨hcompletion, fun i n hn => ?_, fun i n hn => ?_⟩
  · exact hcompletion.types.kept i (.node n) hn rfl
  · exact hcompletion.elements.kept i (.node n) hn rfl

end JavaTypes
