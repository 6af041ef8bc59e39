import JavaTypes.Proofs.SupertypesSettle
import JavaTypes.Proofs.StructuralEquality

/-!
# Sameness of types is symmetric

The comparison of two types is written with one of them in the lead, and asks containment and
subtyping about their arguments. Asked the other way round it gives the same answer, unless it comes
to executable types, where the variables of one side are renamed.

* `Action.Agree x y s`: two tests that do not give different answers in a state. Two tests that are
  run in the other order agree, since both know the answers of both in the end;
* `Session.ExecutableFree`: the types to which the argument applies;
* `agree_sameTypeStep`: one step, given that the level below agrees;
* `isSameType_isSameTypeLoose_symm`: the result for both ways of comparing.

Containment takes the two sides in one order and then in the other, so a swap of the two types asks
the same questions: nothing has to be known about what they answer.
-/

namespace JavaTypes

namespace Action

/-! ### Tests that agree -/

section Agree

variable {σ : Type} {α : Type} {s : σ} {x y x' y' : Action σ Bool}

/-- Two tests that do not give different answers. -/
def Agree (x y : Action σ Bool) (s : σ) : Prop :=
  ∀ b c, Known x s b → Known y s c → b = c

theorem agree_throw_left {e : Fault} : Agree (throw e) y s :=
  fun _ _ h => by cases h

theorem agree_throw_right {e : Fault} : Agree x (throw e) s :=
  fun _ _ _ h => by cases h

theorem agree_pure {b c : Bool} (h : b = c) : Agree (pure b : Action σ Bool) (pure c) s :=
  fun _ _ hb hc => (known_pure.1 hb).trans (h.trans (known_pure.1 hc).symm)

variable [Evolving σ]

/-- Two tests that a third repeats. -/
theorem agree_of_settles {z : Action σ Bool} [Settles x z] [Settles y z] : Agree x y s :=
  fun _ _ hb hc => Known.unique (x := z) (hb.grow le_rfl) (hc.grow le_rfl)

/-- The same reading before two tests. -/
theorem agree_bind {x : Action σ α} {f g : α → Action σ Bool} [sx : Settles x x]
    [sf : ∀ a, Settles (f a) (f a)] [sg : ∀ a, Settles (g a) (g a)]
    (h : ∀ a, Known x s a → Agree (f a) (g a) s) : Agree (x >>= f) (x >>= g) s := by
  intro b c hb hc
  obtain ⟨a, ha, hb⟩ := known_bind.1 hb
  obtain ⟨a', ha', hc⟩ := known_bind.1 hc
  obtain rfl := ha.unique ha'
  exact h a ha b c hb hc

/-- Two readings in either order. -/
theorem agree_bind₂ {β : Type} {x : Action σ α} {y : Action σ β} {f : α → β → Action σ Bool}
    {g : β → α → Action σ Bool} [sx : Settles x x] [sy : Settles y y]
    [sf : ∀ a b, Settles (f a b) (f a b)] [sg : ∀ b a, Settles (g b a) (g b a)]
    (h : ∀ a b, Known x s a → Known y s b → Agree (f a b) (g b a) s) :
    Agree (x >>= fun a => y >>= f a) (y >>= fun b => x >>= g b) s := by
  intro b c hb hc
  obtain ⟨a, ha, hb⟩ := known_bind.1 hb
  obtain ⟨d, hd, hb⟩ := known_bind.1 hb
  obtain ⟨d', hd', hc⟩ := known_bind.1 hc
  obtain ⟨a', ha', hc⟩ := known_bind.1 hc
  obtain rfl := ha.unique ha'
  obtain rfl := hd.unique hd'
  exact h a d ha hd b c hb hc

section Pairs

variable [Settles x x] [Settles y y] [Settles x' x'] [Settles y' y']

theorem Agree.both (hx : Agree x x' s) (hy : Agree y y' s) :
    Agree (Action.both x y) (Action.both x' y') s := by
  intro b c hb hc
  rcases known_both.1 hb with ⟨h, hb⟩ | ⟨h, rfl⟩ <;>
    rcases known_both.1 hc with ⟨h', hc⟩ | ⟨h', rfl⟩
  · exact hy b c hb hc
  · exact absurd (hx _ _ h h') (by decide)
  · exact absurd (hx _ _ h h') (by decide)
  · rfl

theorem Agree.both_swap (hx : Agree x x' s) (hy : Agree y y' s) :
    Agree (Action.both x y) (Action.both y' x') s := by
  intro b c hb hc
  rcases known_both.1 hb with ⟨h, hb⟩ | ⟨h, rfl⟩ <;>
    rcases known_both.1 hc with ⟨h', hc⟩ | ⟨h', rfl⟩
  · exact (hy b true hb h').trans (hx true c h hc)
  · exact hy b false hb h'
  · exact hx false c h hc
  · rfl

theorem Agree.either_swap (hx : Agree x x' s) (hy : Agree y y' s) :
    Agree (Action.either x y) (Action.either y' x') s := by
  intro b c hb hc
  rcases known_either.1 hb with ⟨h, rfl⟩ | ⟨h, hb⟩ <;>
    rcases known_either.1 hc with ⟨h', rfl⟩ | ⟨h', hc⟩
  · rfl
  · exact hx true c h hc
  · exact hy b true hb h'
  · exact (hy b false hb h').trans (hx false c h hc)

end Pairs

section Lists

variable {r r' : α → α → Action σ Bool} [∀ a b, Settles (r a b) (r a b)]
  [∀ a b, Settles (r' a b) (r' a b)]

theorem agree_allPairs : ∀ {as bs : List α}, (∀ a ∈ as, ∀ b ∈ bs, Agree (r a b) (r' b a) s) →
    Agree (allPairs r as bs) (allPairs r' bs as) s
  | [], [], _ => agree_pure rfl
  | [], _ :: _, _ => agree_pure rfl
  | _ :: _, [], _ => agree_pure rfl
  | _ :: _, _ :: _, h =>
      (h _ List.mem_cons_self _ List.mem_cons_self).both
        (agree_allPairs fun a ha b hb => h a (List.mem_cons_of_mem _ ha) b (List.mem_cons_of_mem _ hb))

theorem agree_sameLists {as bs : List α} (h : ∀ a ∈ as, ∀ b ∈ bs, Agree (r a b) (r' b a) s) :
    Agree (sameLists r as bs) (sameLists r' bs as) s := by
  unfold sameLists
  by_cases hlen : as.length = bs.length
  · rw [if_pos hlen, if_pos hlen.symm]
    exact agree_allPairs h
  · rw [if_neg hlen, if_neg (Ne.symm hlen)]
    exact agree_pure rfl

omit [Evolving σ] [∀ a b, Settles (r a b) (r a b)] [∀ a b, Settles (r' a b) (r' a b)] in
theorem agree_sameOptions {a b : Option α} (h : ∀ c ∈ a, ∀ d ∈ b, Agree (r c d) (r' d c) s) :
    Agree (sameOptions r a b) (sameOptions r' b a) s := by
  cases a with
  | none => cases b <;> exact agree_pure rfl
  | some c =>
    cases b with
    | none => exact agree_pure rfl
    | some d => exact h c rfl d rfl

end Lists

end Agree

end Action

open Action

/-! ### Types without executable parts -/

variable {S : Session} {a b : ElementId} {annotations r : Bool} {c t t' : TypeId} {f fuel g : Nat}
  {n : TypeNode}

/-- The types inside a node that a comparison goes into. -/
def TypeNode.inner (n : TypeNode) (annotations : Bool) : List TypeId :=
  n.component.toList ++ n.enclosingOrNone :: n.arguments ++
    if annotations then n.annotations.map AnnotationUse.type else []

theorem TypeNode.component_mem_inner (n : TypeNode)
    (hc : c ∈ n.component) : c ∈ n.inner annotations := by
  simp [inner, Option.mem_def.1 hc]

theorem TypeNode.enclosingOrNone_mem_inner (n : TypeNode) :
    n.enclosingOrNone ∈ n.inner annotations := by
  simp [inner]

theorem TypeNode.argument_mem_inner (n : TypeNode)
    (hc : c ∈ n.arguments) : c ∈ n.inner annotations := by
  simp [inner, hc]

theorem TypeNode.annotation_mem_inner (n : TypeNode) {a : AnnotationUse} (ha : a ∈ n.annotations) :
    a.type ∈ n.inner true := by
  simp only [inner, if_true, List.mem_append, List.mem_map]
  exact .inr ⟨a, ha, rfl⟩

/-- The second type is found in the first by going into components, enclosing types, arguments and,
where they count, annotations. -/
inductive Session.Inside (S : Session) : TypeId → TypeId → Prop
  | self (t : TypeId) : Inside S t t
  | part {t t' c u : TypeId} {n : TypeNode} (h : S.store.peekType t = some (t', n))
      (hc : c ∈ n.inner S.config.includeAnnotations) (hu : Inside S c u) : Inside S t u

/-- No executable type is found in a type. -/
def Session.ExecutableFree (S : Session) (t : TypeId) : Prop :=
  ∀ u u' n, S.Inside t u → S.store.peekType u = some (u', n) → n.kind ≠ .executable

theorem Session.ExecutableFree.part (h : S.ExecutableFree t) (ht : S.Shows t t' n)
    (hc : c ∈ n.inner S.config.includeAnnotations) : S.ExecutableFree c :=
  fun u u' m hu => h u u' m (.part ht hc hu)

theorem Session.ExecutableFree.kind_ne
    (h : S.ExecutableFree t) (ht : S.Shows t t' n) : n.kind ≠ .executable :=
  h t t' n (.self t) ht

/-- A set of types that contains the inner types of its members, and no executable type. -/
theorem Session.executableFree_of_closed (P : TypeId → Prop) (hP : ∀ t t' n, P t → S.Shows t t' n →
      n.kind ≠ .executable ∧ ∀ c ∈ n.inner S.config.includeAnnotations, P c)
    (ht : P t) : S.ExecutableFree t := by
  intro u u' n hu
  induction hu with
  | self t => exact fun hn => (hP t u' n ht hn).1
  | part h hc _ ih => exact ih ((hP _ _ _ ht h).2 _ hc)

/-! ### Elements and variables -/

/-- A comparison of elements that answers says whether they are equal. -/
theorem known_sameElement (h : Known (sameElement fuel a b) S r) :
    r = true ↔ Equality.EqualElements S.config.equality S.store [] a b := by
  obtain ⟨a', ha, h⟩ := known_bind.1 h
  obtain ⟨b', hb, h⟩ := known_bind.1 h
  obtain ⟨m, ha⟩ := known_resolveElement.1 (known_onStore.1 ha)
  obtain ⟨n, hb⟩ := known_resolveElement.1 (known_onStore.1 hb)
  split at h
  · next heq =>
    exact iff_of_true (known_pure.1 h) (.of_alike (.inr ⟨a', m, b', n, ha, hb, .inl heq⟩))
  · obtain ⟨q, hq, h⟩ := known_bind.1 h
    obtain ⟨c, hc, rfl⟩ := known_map.1 hq
    obtain rfl := known_config.1 hc
    exact Equality.known_elements_iff (known_onStore.1 h)

theorem agree_sameElement : Agree (sameElement f a b) (sameElement g b a) S := by
  intro r r' h h'
  have hab := known_sameElement h
  have hba := known_sameElement h'
  exact Bool.eq_iff_iff.2 ⟨fun hr => hba.2 (hab.1 hr).symm, fun hr => hab.2 (hba.1 hr).symm⟩

theorem agree_sameVariableElements :
    ∀ d e, Agree (sameVariableElements f d e) (sameVariableElements g e d) S := by
  rintro (_ | _) (_ | _)
  case some.some => exact agree_sameElement
  all_goals exact agree_pure rfl

theorem agree_sameVariables {x y : TypeId × TypeNode} :
    Agree (sameVariables f x y) (sameVariables g y x) S := by
  unfold sameVariables
  by_cases heq : x.1 = y.1
  · rw [if_pos heq, if_pos heq.symm]
    exact agree_pure rfl
  rw [if_neg heq, if_neg (Ne.symm heq)]
  by_cases hk : x.2.kind ≠ .typeVar ∨ y.2.kind ≠ .typeVar ∨ x.2.isCapture ∨ y.2.isCapture
  · rw [if_pos hk, if_pos (by tauto)]
    exact agree_pure rfl
  · rw [if_neg hk, if_neg (by tauto)]
    exact agree_bind₂ fun d e _ _ => agree_sameVariableElements d e

theorem agree_sameTypeVariable {a b : TypeId} :
    Agree (sameTypeVariable f a b) (sameTypeVariable g b a) S := by
  rw [sameTypeVariable_eq, sameTypeVariable_eq]
  exact agree_bind₂ fun _ _ _ _ => agree_sameVariables

/-- A variable is not the same as a type of another kind. -/
theorem sameTypeVariable_of_kind_ne {a b a' b' : TypeId} {m : TypeNode}
    (ha : S.Shows a a' m) (hb : S.Shows b b' n)
    (hm : m.kind = .typeVar) (hn : n.kind ≠ .typeVar)
    (h : Known (sameTypeVariable fuel a b) S r) : r = false := by
  rw [sameTypeVariable_eq] at h
  obtain ⟨x, hx, h⟩ := known_bind.1 h
  obtain ⟨y, hy, h⟩ := known_bind.1 h
  cases ha.symm.trans (known_viewType.1 (known_onStore.1 hx))
  cases hb.symm.trans (known_viewType.1 (known_onStore.1 hy))
  have hne : a' ≠ b' := by
    rintro rfl
    obtain rfl := Store.peekType_node ha hb
    exact hn hm
  unfold sameVariables at h
  rw [if_neg hne, if_pos (.inr (.inl hn))] at h
  exact known_pure.1 h

/-! ### One step -/

/-- Whether a containment in one direction is enough for two arguments to match. -/
def Premises.loosely (p : Premises) (t s : TypeId) : Query Bool :=
  Action.both (return p.loose) <|
    Action.either (do return (← typeKind t) = .wildcard) (do return (← typeKind s) = .wildcard)

theorem agree_loosely {p : Premises} {s : TypeId} : Agree (p.loosely t s) (p.loosely s t) S := by
  have hself : ∀ t, Agree (do return (← typeKind t) = .wildcard : Query Bool)
      (do return (← typeKind t) = .wildcard) S := fun _ _ _ h h' => h.unique h'
  exact (agree_pure rfl).both ((hself t).either_swap (hself s))

namespace Judgements

section Step

/-! Two levels of judgements, `j` for one order of the types and `j'` for the other, and a level `k`
that repeats what both answer. -/

variable {j j' : Judgements} {p : Premises} {S : Session}

variable {b : Bool} {m n : TypeNode} {s s' t t' : TypeId}

/-- Types of different kinds are not the same. For variables that is found out from their elements. -/
theorem sameParts_of_kind_ne (hvar : m.kind ≠ .typeVar)
    (hkind : m.kind ≠ n.kind) : j.sameParts p t m s n = pure false := by
  obtain ⟨shape, as⟩ := m
  obtain ⟨shape', bs⟩ := n
  cases shape with
  | typeVar v => exact absurd rfl hvar
  | primitive x =>
    cases shape' with
    | primitive y =>
      have hxy : x ≠ y := fun hxy => hkind (congrArg TypeKind.primitive hxy)
      exact congrArg pure (decide_eq_false hxy)
    | _ => rfl
  | noType x =>
    cases shape' with
    | noType y =>
      have hxy : x ≠ y := fun hxy => hkind (congrArg TypeKind.noType hxy)
      exact congrArg pure (decide_eq_false hxy)
    | _ => rfl
  | _ =>
    cases shape'
    all_goals first
      | exact absurd rfl hkind
      | rfl

theorem known_sameParts_of_kind_ne (ht : S.Shows t t m) (hs : S.Shows s s n)
    (hkind : m.kind ≠ n.kind) (h : Known (j.sameParts p t m s n) S b) : b = false := by
  by_cases hvar : m.kind = .typeVar
  · obtain ⟨shape, as⟩ := m
    cases shape with
    | typeVar v => exact sameTypeVariable_of_kind_ne ht hs rfl (.symm hkind) h
    | _ => cases hvar
  · rw [sameParts_of_kind_ne hvar hkind] at h
    exact known_pure.1 h

variable [j.Settle j]

/-- Arguments that are not the same are compared by containment in both directions. -/
theorem known_equivalentArguments (h : Known (j.equivalentArguments p t s) S b) :
    (Known (j.sameType p t s) S true ∧ b = true) ∨
      (Known (j.sameType p t s) S false ∧ ∃ loosely, Known (p.loosely t s) S loosely ∧
        Known (if loosely then Action.either (j.containsType p t s) (j.containsType p s t)
          else Action.both (j.containsType p t s) (j.containsType p s t)) S b) := by
  refine (known_either.1 h).imp_right ?_
  rintro ⟨hsame, h⟩
  obtain ⟨contains, hc, h⟩ := known_bind.1 h
  obtain ⟨loosely, hl, h⟩ := known_bind.1 h
  refine ⟨hsame, loosely, hl, ?_⟩
  -- The first containment was asked before; asking it again in its place changes nothing.
  cases loosely with
  | true => exact (bind_of_ok hc).trans h
  | false => exact (bind_of_ok hc).trans h

variable [j'.Settle j']

theorem agree_sameOwner : Agree (j.sameOwner m n) (j'.sameOwner n m) S :=
  agree_bind₂ fun _ _ _ _ => agree_sameOptions fun _ _ _ _ => agree_sameElement

theorem agree_sameAnnotations {as bs : List AnnotationUse}
    (h : ∀ a ∈ as, ∀ b ∈ bs, Agree (j.sameType p a.type b.type) (j'.sameType p b.type a.type) S) :
    Agree (Equality.sameAnnotations (j.sameType p) as bs)
      (Equality.sameAnnotations (j'.sameType p) bs as) S := by
  refine agree_sameLists fun a ha b hb => (h a ha b hb).both (agree_pure (Bool.eq_iff_iff.2 ?_))
  exact ⟨AnnotationValue.sameMembers_symm, AnnotationValue.sameMembers_symm⟩

variable (k : Judgements) [j.Settle k] [j'.Settle k]

include k

theorem agree_areAmong {as bs : List TypeId} :
    Agree (Action.both (j.areAmong p as bs) (j.areAmong p bs as))
      (Action.both (j'.areAmong p bs as) (j'.areAmong p as bs)) S :=
  .both_swap (agree_of_settles (z := k.areAmong p as bs))
    (agree_of_settles (z := k.areAmong p bs as))

theorem agree_mutualContainment : Agree (Action.both (j.containsType p t s) (j.containsType p s t))
      (Action.both (j'.containsType p s t) (j'.containsType p t s)) S :=
  .both_swap (agree_of_settles (z := k.containsType p t s))
    (agree_of_settles (z := k.containsType p s t))

theorem agree_containmentEitherWay : Agree (Action.either (j.containsType p t s) (j.containsType p s t))
      (Action.either (j'.containsType p s t) (j'.containsType p t s)) S :=
  .either_swap (agree_of_settles (z := k.containsType p t s))
    (agree_of_settles (z := k.containsType p s t))

theorem agree_equivalentArguments (ih : Agree (j.sameType p t s) (j'.sameType p s t) S) :
    Agree (j.equivalentArguments p t s) (j'.equivalentArguments p s t) S := by
  intro b c hb hc
  rcases known_equivalentArguments hb with ⟨h, rfl⟩ | ⟨h, l, hl, hb⟩ <;>
    rcases known_equivalentArguments hc with ⟨h', rfl⟩ | ⟨h', l', hl', hc⟩
  · rfl
  · exact absurd (ih _ _ h h') (by decide)
  · exact absurd (ih _ _ h h') (by decide)
  · obtain rfl := agree_loosely _ _ hl hl'
    cases l with
    | true => exact agree_containmentEitherWay k b c hb hc
    | false => exact agree_mutualContainment k b c hb hc

theorem agree_sameDeclared (henclosing : Agree (j.sameType p m.enclosingOrNone n.enclosingOrNone)
      (j'.sameType p n.enclosingOrNone m.enclosingOrNone) S)
    (harguments : ∀ a ∈ m.arguments, ∀ b ∈ n.arguments,
      Agree (j.sameType p a b) (j'.sameType p b a) S) :
    Agree (j.sameDeclared p m n) (j'.sameDeclared p n m) S := by
  refine agree_sameOwner.both (henclosing.both (agree_sameLists fun a ha b hb => ?_))
  exact agree_equivalentArguments k (harguments a ha b hb)

theorem agree_sameParts (ht : S.Shows t t' m) (hs : S.Shows s s' n) (hfree : S.ExecutableFree t)
    (ih : ∀ a b, S.ExecutableFree a → Agree (j.sameType p a b) (j'.sameType p b a) S) :
    Agree (j.sameParts p t' m s' n) (j'.sameParts p s' n t' m) S := by
  by_cases hkind : m.kind = n.kind
  case neg =>
    have ht' := ht.self
    have hs' := hs.self
    intro b c hb hc
    rw [known_sameParts_of_kind_ne ht' hs' hkind hb,
      known_sameParts_of_kind_ne hs' ht' (Ne.symm hkind) hc]
  have hexec := hfree.kind_ne ht
  have hdeclared : Agree (j.sameDeclared p m n) (j'.sameDeclared p n m) S :=
    agree_sameDeclared k (ih _ _ (hfree.part ht m.enclosingOrNone_mem_inner))
      fun a ha b _ => ih a b (hfree.part ht (m.argument_mem_inner ha))
  have hcomponent : ∀ c ∈ m.component, S.ExecutableFree c :=
    fun c hc => hfree.part ht (m.component_mem_inner hc)
  obtain ⟨shape, as⟩ := m
  obtain ⟨shape', bs⟩ := n
  cases shape with
  | typeVar v =>
    cases shape' with
    | typeVar w => exact agree_sameTypeVariable
    | _ => cases hkind
  | wildcard v =>
    cases shape' with
    | wildcard w => exact agree_mutualContainment k
    | _ => cases hkind
  | declared d =>
    cases shape' with
    | declared e => exact hdeclared
    | _ => cases hkind
  | error d =>
    cases shape' with
    | error e => exact hdeclared
    | _ => cases hkind
  | array c =>
    cases shape' with
    | array d => exact agree_sameOptions fun c' hc d' _ => ih c' d' (hcomponent c' hc)
    | _ => cases hkind
  | intersection as =>
    cases shape' with
    | intersection bs => exact agree_areAmong k
    | _ => cases hkind
  | union as =>
    cases shape' with
    | union bs => exact agree_areAmong k
    | _ => cases hkind
  | executable x => exact absurd rfl hexec
  | primitive x =>
    cases shape' with
    | primitive y => exact agree_pure (decide_eq_decide.2 eq_comm)
    | _ => cases hkind
  | noType x =>
    cases shape' with
    | noType y => exact agree_pure (decide_eq_decide.2 eq_comm)
    | _ => cases hkind
  | null =>
    cases shape' with
    | null => exact agree_pure rfl
    | _ => cases hkind

theorem agree_sameNodes (ht : S.Shows t t' m) (hs : S.Shows s s' n) (hfree : S.ExecutableFree t)
    (ih : ∀ a b, S.ExecutableFree a → Agree (j.sameType p a b) (j'.sameType p b a) S) :
    Agree (j.sameNodes p (t', m) (s', n)) (j'.sameNodes p (s', n) (t', m)) S := by
  unfold sameNodes
  by_cases heq : t' = s'
  · rw [if_pos heq, if_pos heq.symm]
    exact agree_pure rfl
  rw [if_neg heq, if_neg (Ne.symm heq)]
  refine agree_bind fun c hc => ?_
  obtain rfl := known_config.1 hc
  refine .both ?_ (agree_sameParts k ht hs hfree ih)
  split
  · next hannot =>
    refine agree_sameAnnotations fun a ha b _ => ih _ _ (hfree.part ht ?_)
    rw [hannot]
    exact m.annotation_mem_inner ha
  · exact agree_pure rfl

/-- One step of the comparison, given that the level below agrees. -/
theorem agree_sameTypeStep (hfree : S.ExecutableFree t)
    (ih : ∀ a b, S.ExecutableFree a → Agree (j.sameType p a b) (j'.sameType p b a) S) :
    Agree (j.sameTypeStep p t s) (j'.sameTypeStep p s t) S :=
  agree_bind₂ fun _ _ ht hs => agree_sameNodes k (shows_of_known ht) (shows_of_known hs) hfree ih

end Step

end Judgements

/-- The comparison of types at two levels, one for each order of the types. -/
theorem agree_judgements_sameType {p : Premises} : ∀ (n k : Nat) (t s : TypeId),
    S.ExecutableFree t → Agree ((judgements n).sameType p t s) ((judgements k).sameType p s t) S
  | 0, _, _, _, _ => agree_throw_left
  | _ + 1, 0, _, _, _ => agree_throw_right
  | n + 1, k + 1, _, _, hfree =>
      Judgements.agree_sameTypeStep (judgements (max n k)) hfree (agree_judgements_sameType n k)

/-! ### Symmetry -/

/-- Hooks that give the same answer do not make a difference. -/
theorem agree_answeredBy {hook hook' : Hooks → Option Bool} {x y : Query Bool}
    (hhook : hook S.hooks = hook' S.hooks) (h : Agree x y S) :
    Agree (answeredBy hook x) (answeredBy hook' y) S := by
  intro b c hb hc
  rw [Known, answeredBy_apply] at hb hc
  rw [← hhook] at hc
  cases hanswer : hook S.hooks with
  | some answer =>
    rw [hanswer] at hb hc
    cases hb
    cases hc
    rfl
  | none =>
    rw [hanswer] at hb hc
    exact h b c hb hc

/-- Whether two types are the same does not depend on their order, strictly or loosely. The first
question may leave a session in which more is known, and more may be asked before the second. The
answers of a host are taken to be symmetric. -/
theorem isSameType_isSameTypeLoose_symm {f g : Nat} {t s : TypeId} {S S₁ S₂ S₃ : Session}
    {b c : Bool} (hlater : S₁ ≤ S₂) (hfree : S₃.ExecutableFree t) :
    (S.hooks.sameType t s = S.hooks.sameType s t →
      isSameType f t s S = (.ok b, S₁) → isSameType g s t S₂ = (.ok c, S₃) → b = c) ∧
    (isSameTypeLoose f t s S = (.ok b, S₁) → isSameTypeLoose g s t S₂ = (.ok c, S₃) → b = c) := by
  constructor
  · intro hhook h h'
    have hle₁ := le_of_ok h
    have hle₂ := le_of_ok h'
    have hhooks : S₃.hooks = S.hooks := (le_trans hle₁ (le_trans hlater hle₂)).hooks
    refine agree_answeredBy ?_ (agree_judgements_sameType f g t s hfree) b c
      (known_of_ok h (le_trans hlater hle₂))
      (known_of_ok h' le_rfl)
    rw [hhooks]
    exact hhook
  · intro h h'
    have hle := le_of_ok h'
    exact agree_judgements_sameType f g t s hfree b c (known_of_ok h (le_trans hlater hle))
      (known_of_ok h' le_rfl)

/-- A session with the types `List<?>` and `List<? extends Object>`, at 19 and 20. -/
def wildcardLists : Session :=
  .ofNodes
    [{ shape := .wildcard {} }, { shape := .wildcard { upper := some ⟨14⟩ } }, .ofClass 3 [17],
     .ofClass 3 [18]]
    [{ name := some "List", detail := .type .interface {} }]

theorem executableFree_wildcardLists : wildcardLists.ExecutableFree ⟨19⟩ := by
  refine Session.executableFree_of_closed
    (fun u => u = ⟨19⟩ ∨ u = ⟨17⟩ ∨ u = TypeId.none) ?_ (.inl rfl)
  rintro t t' n (rfl | rfl | rfl) h <;>
  · change some (_, _) = some (t', n) at h
    cases h
    exact ⟨by decide, by decide⟩

/-- The two types are found to be the same by containment, whichever comes first. -/
theorem isSameType_isSameTypeLoose_symm_wildcardLists :
    isSameType 12 ⟨19⟩ ⟨20⟩ wildcardLists = (.ok true, wildcardLists) ∧
      isSameType 12 ⟨20⟩ ⟨19⟩ wildcardLists = (.ok true, wildcardLists) ∧
      ∀ c, isSameType 15 ⟨20⟩ ⟨19⟩ wildcardLists = (.ok c, wildcardLists) → true = c := by
  have h : isSameType 12 ⟨19⟩ ⟨20⟩ wildcardLists = (.ok true, wildcardLists) := rfl
  have hhook : wildcardLists.hooks.sameType ⟨19⟩ ⟨20⟩ = wildcardLists.hooks.sameType ⟨20⟩ ⟨19⟩ := rfl
  refine ⟨h, rfl, fun c h' => ?_⟩
  exact (isSameType_isSameTypeLoose_symm le_rfl executableFree_wildcardLists).1 hhook h h'

end JavaTypes
