import JavaTypes.Proofs.ClassTable

/-!
# What becomes of the parts of a type

A substitution gives back the handle of a type in which nothing changes, and derives a new type otherwise.
Either way the type that it answers with has, place by place, what became of the parts of the type.

* `PartPlace`, `TypeNode.parts`: the parts of a type, with what a substitution does in their places;
* `Session.Coincide T a b`: the handles `a` and `b` lead to one node, or both stand for the absent type;
* `Session.Becomes T change place a o`: in its place, the part `a` becomes `o`;
* `Session.Moved T change n k`: the node of `k` has what became of the parts of `n`;
* `cases_of_known_substituteNode`: a type stays, or it is a variable that is replaced, or its parts have
  moved.
-/

namespace JavaTypes

open Action

/-- What a substitution does with a part of a type. -/
inductive PartPlace
  /-- It stays as it is. -/
  | kept
  /-- It is changed. -/
  | changed
  /-- It is the type around a declared type, which is changed if it is declared too. -/
  | around
  /-- It is changed, and the bound of a wildcard takes its place. -/
  | above
  /-- It is changed, and the lower bound of a wildcard takes its place. -/
  | below

/-- The parts of a type. -/
def TypeNode.parts (n : TypeNode) : List (PartPlace × List TypeId) :=
  match n.shape with
  | .array c => [(.above, c.toList)]
  | .declared d => [(.around, [n.enclosingOrNone]), (.changed, d.arguments)]
  | .executable x =>
      [(.changed, x.parameters), (.changed, [n.returnOrVoid]), (.kept, [n.receiverOrNone]),
        (.changed, x.thrown), (.kept, x.typeVariables)]
  | .intersection bs => [(.changed, bs)]
  | .union bs => [(.changed, bs)]
  | .wildcard w => [(.above, w.upper.toList), (.below, w.lower.toList)]
  | _ => []

theorem TypeNode.outline_types (n : TypeNode) : n.outline.types = n.parts.map Prod.snd := by
  obtain ⟨shape, as⟩ := n
  cases shape <;> rfl

theorem TypeNode.mem_outline_of_parts {n : TypeNode} {p : PartPlace × List TypeId} {c : TypeId}
    (hp : p ∈ n.parts) (hc : c ∈ p.2) : c ∈ n.outline.types.flatten := by
  rw [outline_types]
  exact List.mem_flatten.2 ⟨p.2, List.mem_map.2 ⟨p, hp, rfl⟩, hc⟩

/-- The outline of a type that is no variable. -/
theorem TypeNode.outline_eq {n : TypeNode} (h : n.kind ≠ .typeVar) : n.outline =
    { kind := some n.kind
      elements := if n.kind = .declared ∨ n.kind = .error then [n.element] else []
      types := n.parts.map Prod.snd } := by
  obtain ⟨shape, as⟩ := n
  cases shape with
  | typeVar v => exact absurd rfl h
  | _ => rfl

namespace Session

variable {T : Session} {a b c k t u : TypeId} {m n : TypeNode} {fuel : Nat} {σ : Substitution}

/-! ### Handles of one type -/

/-- The type is the absent type. -/
def Absent (T : Session) (t : TypeId) : Prop :=
  ∃ u n, T.store.peekType t = some (u, n) ∧ n.kind = .noType .none

/-- The two handles lead to one node, or both to the absent type. -/
def Coincide (T : Session) (a b : TypeId) : Prop :=
  a = b ∨ (∃ x, T.store.peekType a = some x ∧ T.store.peekType b = some x) ∨ T.Absent a ∧ T.Absent b

theorem Coincide.symm (h : T.Coincide a b) : T.Coincide b a := by
  rcases h with rfl | ⟨x, ha, hb⟩ | ⟨ha, hb⟩
  · exact .inl rfl
  · exact .inr (.inl ⟨x, hb, ha⟩)
  · exact .inr (.inr ⟨hb, ha⟩)

theorem Coincide.of_node (h : T.Shows a b n) : T.Coincide a b :=
  .inr (.inl ⟨(b, n), h, h.self⟩)

theorem forall₂_coincide_refl (ts : List TypeId) : List.Forall₂ T.Coincide ts ts :=
  List.forall₂_same.2 fun _ _ => .inl rfl

/-- A handle that is left out when it is that of the absent type. -/
theorem coincide_unlessNone (habsent : T.Absent TypeId.none) {r : Option TypeId}
    (h : Known (onStore (unlessNone t)) T r) : T.Coincide t (r.getD TypeId.none) := by
  obtain ⟨u, n, ht, rfl⟩ := known_unlessNone.1 h
  split
  · next hn => exact .inr (.inr ⟨⟨u, n, ht, hn⟩, habsent⟩)
  · exact .inl rfl

/-- The two handles of elements are one, or the second is what the first is completed to. -/
def CoincideElements (T : Session) (d e : ElementId) : Prop :=
  d = e ∨ ∃ x, T.store.peekElement d = some (e, x)

/-! ### What becomes of a part -/

/-- In its place, a part becomes another one, or is left out. -/
def Becomes (T : Session) (change : TypeId → Query TypeId) : PartPlace → TypeId → Option TypeId → Prop
  | .kept, a, o => o = some a
  | .changed, a, o => ∃ k, Known (change a) T k ∧ o = some k
  | .around, a, o => ∃ w y k, T.store.peekType a = some (w, y) ∧
      Known (if y.kind = .declared then change w else pure w) T k ∧ o = some k
  | .above, a, o => ∃ k f l, Known (change a) T k ∧ Known (wildUpperBound f k) T l ∧ o = some l
  | .below, a, o => ∃ k f, Known (change a) T k ∧ Known (onStore (lowerBoundAfter f (some k))) T o

/-- The types of a list become those of another, up to the choice of handles. -/
def PartsBecome (T : Session) (change : TypeId → Query TypeId) (p : PartPlace × List TypeId)
    (bs : List TypeId) : Prop :=
  ∃ os, List.Forall₂ (T.Becomes change p.1) p.2 os ∧ List.Forall₂ T.Coincide os.reduceOption bs

/-- The type has what became of the parts of a node. -/
def Moved (T : Session) (change : TypeId → Query TypeId) (n : TypeNode) (k : TypeId) : Prop :=
  ∃ m, T.store.peekType k = some (k, m) ∧ m.kind = n.kind ∧
    Option.Rel T.CoincideElements n.element m.element ∧
      List.Forall₂ (T.PartsBecome change) n.parts (m.parts.map Prod.snd)

theorem known_wildUpperBound_succ : Known (wildUpperBound (fuel + 1) t) T k ↔
    ∃ u n, T.Shows t u n ∧ Known (if n.kind ≠ .wildcard then pure t else
      match n.extendsBound with
      | some bound => wildUpperBound fuel bound
      | none => objectType) T k := by
  refine (known_bind_of (x := onStore (typeNode t)) fun n => ?_).trans ?_
  · cases n.extendsBound <;> infer_instance
  simp only [known_onStore, known_typeNode, ← exists_and_right]
  exact exists_comm

theorem eq_of_known_wildUpperBound (hkind : ∀ u x, T.Shows t u x → x.kind ≠ .wildcard)
    (h : Known (wildUpperBound fuel t) T k) : k = t := by
  cases fuel with
  | zero => cases h
  | succ fuel =>
    obtain ⟨u, x, hx, h⟩ := known_wildUpperBound_succ.1 h
    rw [if_pos (hkind u x hx)] at h
    exact known_pure.1 h

theorem known_wildLowerBound_succ : Known (onStore (wildLowerBound (fuel + 1) t)) T k ↔
    ∃ u n, T.Shows t u n ∧ Known (onStore (if n.kind ≠ .wildcard then pure t else
      match n.superBound with
      | some bound => wildLowerBound fuel bound
      | none => pure TypeId.null)) T k := by
  rw [known_onStore]
  refine (known_bind_of fun n => ?_).trans ?_
  · cases n.superBound <;> infer_instance
  simp only [known_onStore, known_typeNode, ← exists_and_right]
  exact exists_comm

section Kinds

variable (hT : T.DerivesShapes) {change : TypeId → Query TypeId}

theorem partsBecome_of_some {place : PartPlace} {as ks bs : List TypeId}
    (h : List.Forall₂ (fun a k => T.Becomes change place a (some k)) as ks)
    (hbs : List.Forall₂ T.Coincide ks bs) : T.PartsBecome change (place, as) bs := by
  refine ⟨ks.map some, List.forall₂_map_right_iff.2 h, ?_⟩
  change List.Forall₂ T.Coincide ((ks.map some).filterMap id) bs
  rwa [List.filterMap_map, Function.id_comp, List.filterMap_some]

theorem partsBecome_kept (change : TypeId → Query TypeId) (cs : List TypeId) :
    T.PartsBecome change (.kept, cs) cs :=
  partsBecome_of_some (List.forall₂_same.2 fun _ _ => rfl) (forall₂_coincide_refl cs)

theorem optionRel_coincideElements_refl (r : Option ElementId) :
    Option.Rel T.CoincideElements r r := by
  cases r with
  | none => exact .none
  | some d => exact .some (.inl rfl)

section Changes

variable [hc : ∀ t, Settles (change t) (change t)]

include hc

/-- Each type of the list is changed. If nothing is said to have changed, each stays what it was. -/
theorem forall₂_of_known_changeEach : ∀ {ts ts' : List TypeId} {changed : Bool},
    Known (changeEach change ts) T (ts', changed) →
      List.Forall₂ (fun t t' => Known (change t) T t') ts ts' ∧
        (changed = false → List.Forall₂ T.Coincide ts' ts)
  | [], ts', changed, h => by
      cases known_pure.1 h
      exact ⟨.nil, fun _ => .nil⟩
  | t :: ts, ts', changed, h => by
      obtain ⟨t', ht', h⟩ := known_bind.1 h
      obtain ⟨u, hu, h⟩ := known_bind.1 h
      obtain ⟨⟨rest, changed'⟩, hrest, h⟩ := known_map.1 h
      cases h
      obtain ⟨hchanges, hequal⟩ := forall₂_of_known_changeEach hrest
      refine ⟨.cons ht' hchanges, fun hfalse => ?_⟩
      obtain ⟨hsame, hfalse⟩ := Bool.or_eq_false_iff.1 hfalse
      have hsame : t' = u := by simpa using hsame
      obtain ⟨n, hn⟩ := known_resolveType.1 (known_onStore.1 hu)
      exact .cons (hsame ▸ (Coincide.of_node hn).symm) (hequal hfalse)

/-- The new list, or the old one if there is none, has what each type became. -/
theorem partsBecome_changeList {ts : List TypeId} {r : Option (List TypeId)}
    (h : Known (changeList change ts) T r) : T.PartsBecome change (.changed, ts) (r.getD ts) := by
  obtain ⟨⟨ts', changed⟩, hchange, rfl⟩ := known_map.1 h
  obtain ⟨hchanges, hequal⟩ := forall₂_of_known_changeEach hchange
  refine partsBecome_of_some (hchanges.imp fun _ k hk => ⟨k, hk, rfl⟩) ?_
  cases changed with
  | true => exact forall₂_coincide_refl ts'
  | false => exact hequal rfl

theorem optionRel_of_known_changeOption : ∀ {r r' : Option TypeId},
    Known (changeOption change r) T r' → Option.Rel (fun t t' => Known (change t) T t') r r'
  | none, r', h => by
      cases known_pure.1 h
      exact .none
  | some t, r', h => by
      obtain ⟨t', ht', rfl⟩ := known_map.1 h
      exact .some ht'

end Changes

/-- A type that is said to be unchanged is the completed type of the one before. -/
theorem optionRel_of_known_unchanged {r r' : Option TypeId} {P : TypeId → TypeId → Prop}
    (hr : Option.Rel P r r') (h : Known (onStore (unchanged r r')) T true) :
    Option.Rel (fun t t' => ∃ n, T.Shows t t' n) r r' := by
  cases hr with
  | none => exact .none
  | some =>
    obtain ⟨u, hu, hsame⟩ := known_map.1 (known_onStore.1 h)
    obtain rfl := of_decide_eq_true hsame.symm
    exact .some (known_resolveType.1 hu)

/-! ### Each kind of type -/

theorem Moved.of_parts (ht : T.Shows t t n)
    (h : List.Forall₂ (T.PartsBecome change) n.parts (n.parts.map Prod.snd)) : T.Moved change n t :=
  ⟨n, ht, rfl, optionRel_coincideElements_refl n.element, h⟩

/-- A declared type without an element stays. -/
theorem eq_of_known_substituteDeclared (hd : n.element = none)
    (h : Known (substituteDeclared change t n) T k) : k = t := by
  unfold substituteDeclared at h
  rw [hd] at h
  obtain ⟨x, _, -, h⟩ := bind_eq_ok h
  dsimp only at h
  split at h
  all_goals
    obtain ⟨enclosing, _, -, h⟩ := bind_eq_ok h
    obtain ⟨arguments, _, -, h⟩ := bind_eq_ok h
    split at h <;> cases h <;> rfl

/-- What has become of bounds that stay, none of which is a wildcard. -/
theorem partsBecome_of_unchanged {r r' : Option TypeId}
    (hr : Option.Rel (fun a k => Known (change a) T k) r r')
    (hflat : ∀ b ∈ r.toList, ∀ u x, T.Shows b u x → x.kind ≠ .wildcard)
    (h : Option.Rel (fun t t' => ∃ n, T.Shows t t' n) r r') :
    T.PartsBecome change (.above, r.toList) r.toList ∧ T.PartsBecome change (.below, r.toList) r.toList := by
  cases hr with
  | none => exact ⟨⟨[], .nil, .nil⟩, ⟨[], .nil, .nil⟩⟩
  | @some b b' hb =>
    obtain ⟨x, hx⟩ | _ := h
    have hkind := hflat b (by simp) b' x hx
    have hback : List.Forall₂ T.Coincide [b'] [b] := .cons (Coincide.of_node hx).symm .nil
    constructor
    · refine partsBecome_of_some (.cons ⟨b', 1, b', hb, ?_, rfl⟩ .nil) hback
      refine known_wildUpperBound_succ.2 ⟨b', x, hx.self, ?_⟩
      rw [if_pos hkind]
      rfl
    · refine partsBecome_of_some (.cons ⟨b', 1, hb, ?_⟩ .nil) hback
      refine known_onStore.2 ((known_typeKind.2 ⟨b', x, hx.self, rfl⟩).bind ?_)
      rw [if_neg hkind]
      rfl

section Derived

variable [hc : ∀ t, Settles (change t) (change t)]

include hT hc

/-- A declared type becomes one of the same element. -/
theorem moved_substituteDeclared (habsent : T.Absent TypeId.none) (ht : T.Shows t t n)
    {x : DeclaredType} (hx : n.shape = .declared x) {d : ElementId} (hd : n.element = some d)
    (h : Known (substituteDeclared change t n) T k) : T.Moved change n k := by
  unfold substituteDeclared at h
  rw [hd] at h
  obtain ⟨⟨w, y⟩, hw, h⟩ := known_bind.1 h
  have hw := shows_of_known hw
  obtain ⟨w', hw', h⟩ := (known_ite_bind inferInstance).1 h
  obtain ⟨r, hr, h⟩ := known_bind.1 h
  have harguments := partsBecome_changeList hr
  have haround : ∀ {outer}, T.Coincide w' outer →
      T.PartsBecome change (.around, [n.enclosingOrNone]) [outer] := fun houter =>
    partsBecome_of_some (.cons ⟨w, y, w', hw, hw', rfl⟩ .nil) (.cons houter .nil)
  obtain ⟨shape, as⟩ := n
  cases hx
  split at h
  · next hsame =>
    cases known_pure.1 h
    obtain ⟨rfl, rfl⟩ := hsame
    exact .of_parts ht (.cons (haround (Coincide.of_node hw).symm) (.cons harguments .nil))
  · obtain ⟨outer, houter, h⟩ := known_bind.1 h
    obtain ⟨e, he, h⟩ := known_bind.1 h
    obtain ⟨z, hz⟩ := known_resolveElement.1 (known_onStore.1 he)
    refine ⟨_, hT _ k (lookup_of_derive h) (by rintro ⟨⟩), rfl, ?_,
      .cons (haround (coincide_unlessNone habsent houter)) (.cons harguments .nil)⟩
    rw [hd]
    exact .some (.inr ⟨z, hz⟩)

/-- An array becomes the array over what its component becomes. -/
theorem moved_substituteComponent (ht : T.Shows t t n) (hn : n.shape = .array (some c))
    (h : Known (substituteComponent fuel change t c) T k) : T.Moved change n k := by
  obtain ⟨c', hc', h⟩ := known_bind.1 h
  obtain ⟨b, hb, h⟩ := known_bind.1 h
  obtain ⟨v, hv, h⟩ := known_bind.1 h
  have hcomponent : ∀ {z}, T.Coincide b z → T.PartsBecome change (.above, [c]) [z] := fun hz =>
    partsBecome_of_some (.cons ⟨c', fuel, b, hc', hb, rfl⟩ .nil) (.cons hz .nil)
  obtain ⟨shape, as⟩ := n
  cases hn
  split at h
  · next hsame =>
    cases known_pure.1 h
    obtain ⟨x, hx⟩ := known_resolveType.1 (known_onStore.1 hv)
    exact .of_parts ht (.cons (hcomponent (hsame ▸ (Coincide.of_node hx).symm)) .nil)
  · exact ⟨_, hT _ k (lookup_of_derive h) (by rintro ⟨⟩), rfl, .none, .cons (hcomponent (.inl rfl)) .nil⟩

/-- An intersection, or a union, becomes that of what its parts become. -/
theorem moved_substituteBounds (shape : List TypeId → TypeShape) {bs : List TypeId} {kind : TypeKind}
    (hkind : ∀ bs, (shape bs).kind = kind) (herror : kind ≠ .error)
    (hshape : ∀ bs as, TypeNode.parts ⟨shape bs, as⟩ = [(.changed, bs)] ∧
      TypeNode.element ⟨shape bs, as⟩ = none) (ht : T.Shows t t n) (hn : n.shape = shape bs)
    (h : Known (substituteBounds change t shape bs) T k) : T.Moved change n k := by
  obtain ⟨shape', as⟩ := n
  cases hn
  obtain ⟨r, hr, h⟩ := (known_bind_of fun r => by cases r <;> infer_instance).1 h
  have hbounds := partsBecome_changeList hr
  cases r with
  | none =>
    cases known_pure.1 h
    refine .of_parts ht ?_
    rw [(hshape bs as).1]
    exact .cons hbounds .nil
  | some bs' =>
    refine ⟨_, hT _ k (lookup_of_derive h) (by rwa [hkind]), ?_, ?_, ?_⟩
    · rw [TypeNode.kind, TypeNode.kind, hkind, hkind]
    · rw [(hshape _ _).2, (hshape _ _).2]
      exact .none
    · rw [(hshape _ _).1, (hshape _ _).1]
      exact .cons hbounds .nil

/-- An executable type becomes that of what its parameters, exceptions and result become. -/
theorem moved_substituteExecutable (habsent : T.Absent TypeId.none) {x : ExecutableType}
    (ht : T.Shows t t n) (hn : n.shape = .executable x)
    (h : Known (substituteExecutable change t n) T k) : T.Moved change n k := by
  obtain ⟨shape, as⟩ := n
  cases hn
  obtain ⟨ps, hps, h⟩ := known_bind.1 h
  obtain ⟨ts, hts, h⟩ := known_bind.1 h
  obtain ⟨r, hr, h⟩ := known_bind.1 h
  obtain ⟨v, hv, h⟩ := known_bind.1 h
  have hkept := partsBecome_kept (T := T) change
  have hreturn : ∀ {z}, T.Coincide r z →
      T.PartsBecome change (.changed, [TypeNode.returnOrVoid ⟨.executable x, as⟩]) [z] := fun hz =>
    partsBecome_of_some (.cons ⟨r, hr, rfl⟩ .nil) (.cons hz .nil)
  split at h
  · next hsame =>
    cases known_pure.1 h
    obtain ⟨rfl, rfl, rfl⟩ := hsame
    obtain ⟨y, hy⟩ := known_resolveType.1 (known_onStore.1 hv)
    exact .of_parts ht (.cons (partsBecome_changeList hps) (.cons (hreturn (Coincide.of_node hy).symm)
      (.cons (hkept _) (.cons (partsBecome_changeList hts) (.cons (hkept _) .nil)))))
  · obtain ⟨receiver, hreceiver, h⟩ := known_bind.1 h
    have hreceiver : T.PartsBecome change (.kept, [_]) [_] := partsBecome_of_some (.cons rfl .nil)
      (.cons (coincide_unlessNone habsent hreceiver) .nil)
    exact ⟨_, hT _ k (lookup_of_derive h) (by rintro ⟨⟩), rfl, .none, .cons (partsBecome_changeList hps)
      (.cons (hreturn (.inl rfl)) (.cons hreceiver
        (.cons (partsBecome_changeList hts) (.cons (hkept _) .nil))))⟩

/-- A wildcard becomes one bounded by what lies behind what its bounds become. -/
theorem moved_substituteWildcard {w : WildcardType} (ht : T.Shows t t n) (hn : n.shape = .wildcard w)
    (hflat : ∀ b ∈ w.upper.toList ++ w.lower.toList, ∀ u x, T.Shows b u x → x.kind ≠ .wildcard)
    (h : Known (substituteWildcard fuel change t w) T k) : T.Moved change n k := by
  obtain ⟨shape, as⟩ := n
  cases hn
  obtain ⟨upper, hupper, h⟩ := known_bind.1 h
  obtain ⟨lower, hlower, h⟩ := known_bind.1 h
  obtain ⟨same, hsame, h⟩ := known_bind.1 h
  have hupper := optionRel_of_known_changeOption hupper
  have hlower := optionRel_of_known_changeOption hlower
  cases same with
  | true =>
    cases known_pure.1 h
    obtain ⟨hsame, hsame'⟩ := known_both_true.1 hsame
    exact .of_parts ht (.cons (partsBecome_of_unchanged hupper
        (fun b hb => hflat b (List.mem_append_left _ hb)) (optionRel_of_known_unchanged hupper hsame)).1
      (.cons (partsBecome_of_unchanged hlower (fun b hb => hflat b (List.mem_append_right _ hb))
        (optionRel_of_known_unchanged hlower hsame')).2 .nil))
  | false =>
    obtain ⟨upper', hupper', h⟩ := known_bind.1 h
    obtain ⟨lower', hlower', h⟩ := known_bind.1 h
    refine ⟨_, hT _ k (lookup_of_derive h) (by rintro ⟨⟩), rfl, .none, .cons ?_ (.cons ?_ .nil)⟩
    · generalize w.upper = r at hupper
      cases hupper with
      | none =>
        cases known_pure.1 hupper'
        exact ⟨[], .nil, .nil⟩
      | @some b b' hb =>
        obtain ⟨l, hl, rfl⟩ := known_map.1 hupper'
        exact partsBecome_of_some (.cons ⟨b', fuel, l, hb, hl, rfl⟩ .nil) (forall₂_coincide_refl _)
    · generalize w.lower = r at hlower
      cases hlower with
      | none =>
        cases known_pure.1 (known_onStore.1 hlower')
        exact ⟨[], .nil, .nil⟩
      | @some b b' hb =>
        refine ⟨[lower'], .cons ⟨b', fuel, hb, hlower'⟩ .nil, ?_⟩
        cases lower' <;> exact forall₂_coincide_refl _

end Derived

end Kinds

/-! ### What a substitution answers with -/

/-- The substitution replaces nothing, or there is no element to derive another type for. -/
def GoesUnmoved (σ : Substitution) (n : TypeNode) : Prop :=
  σ.isActive = false ∨ n.kind = .declared ∧ n.element = none

/-- A type stays, or it is a variable that is replaced, or it becomes a type of what its parts become. -/
theorem cases_of_known_substituteNode (hT : T.DerivesShapes) (habsent : T.Absent TypeId.none)
    (ht : T.Shows t u n)
    (hflat : ∀ b ∈ n.extendsBound.toList ++ n.superBound.toList, ∀ v x, T.Shows b v x →
      x.kind ≠ .wildcard) (h : Known (substitute σ (fuel + 1) t) T k) :
    GoesUnmoved σ n ∧ k = u ∨ ¬ GoesUnmoved σ n ∧
      (n.kind = .typeVar ∧ Known (replacement fuel u σ.vars σ.vals) T k ∨
        n.kind ≠ .typeVar ∧ T.Moved (substitute σ fuel) n k) := by
  rw [substitute_succ] at h
  have h := ht.known.of_bind h
  have hu := ht.self
  unfold substituteNode at h
  split at h
  case isFalse hσ => exact .inl ⟨.inl (Bool.eq_false_iff.2 hσ), known_pure.1 h⟩
  rename_i hσ
  have hgoes : (n.kind = .declared → n.element ≠ none) → ¬ GoesUnmoved σ n := by
    rintro hn (hσ' | ⟨hk, he⟩)
    · exact Bool.false_ne_true (hσ'.symm.trans hσ)
    · exact hn hk he
  obtain ⟨shape, as⟩ := n
  cases shape with
  | typeVar v => exact .inr ⟨hgoes (by rintro ⟨⟩), .inl ⟨rfl, h⟩⟩
  | declared d =>
    cases hd : TypeNode.element ⟨.declared d, as⟩ with
    | none => exact .inl ⟨.inr ⟨rfl, hd⟩, eq_of_known_substituteDeclared hd h⟩
    | some e =>
      exact .inr ⟨hgoes fun _ => by rw [hd]; rintro ⟨⟩, .inr ⟨by rintro ⟨⟩,
        moved_substituteDeclared hT habsent hu rfl hd h⟩⟩
  | array component =>
    refine .inr ⟨hgoes (by rintro ⟨⟩), .inr ⟨by rintro ⟨⟩, ?_⟩⟩
    cases component with
    | none =>
      cases known_pure.1 h
      exact .of_parts hu (.cons ⟨[], .nil, .nil⟩ .nil)
    | some c => exact moved_substituteComponent hT hu rfl h
  | wildcard w =>
    exact .inr ⟨hgoes (by rintro ⟨⟩), .inr ⟨by rintro ⟨⟩, moved_substituteWildcard hT hu rfl hflat h⟩⟩
  | intersection bounds =>
    exact .inr ⟨hgoes (by rintro ⟨⟩), .inr ⟨by rintro ⟨⟩, moved_substituteBounds hT .intersection
      (fun _ => rfl) (by rintro ⟨⟩) (fun _ _ => ⟨rfl, rfl⟩) hu rfl h⟩⟩
  | union bounds =>
    exact .inr ⟨hgoes (by rintro ⟨⟩), .inr ⟨by rintro ⟨⟩, moved_substituteBounds hT .union
      (fun _ => rfl) (by rintro ⟨⟩) (fun _ _ => ⟨rfl, rfl⟩) hu rfl h⟩⟩
  | executable x =>
    exact .inr ⟨hgoes (by rintro ⟨⟩), .inr ⟨by rintro ⟨⟩,
      moved_substituteExecutable hT habsent hu rfl h⟩⟩
  | _ =>
    cases known_pure.1 h
    exact .inr ⟨hgoes (by rintro ⟨⟩), .inr ⟨by rintro ⟨⟩, .of_parts hu .nil⟩⟩

end Session

end JavaTypes
