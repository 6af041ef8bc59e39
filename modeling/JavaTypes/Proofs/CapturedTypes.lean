import JavaTypes.Proofs.CaptureRuns
import JavaTypes.Proofs.ErasedInstances
import JavaTypes.Proofs.FiniteComparisons

/-!
# Captured types

What capture makes of a type.

* `Session.Narrows T t t'`: the type `t'` is left of `t` when some arguments of it, and of the types around
  it, are captured. It is raw where `t` is (`Narrows.known_isRaw`), and a subtype of `t`
  (`Narrows.eventually_subtype`). The comparison comes to an end, since a captured variable is never the
  same as its wildcard, and who found a type not to be raw has seen all the types around it;
* `Session.Uncaptured T t`: there is nothing to capture in `t`, so capture gives it back
  (`Uncaptured.eventually_capture`);
* `narrows_of_capture`: capture leads from a type to a narrower one that is uncaptured;
* `capture_replacesWildcards`: what capture answers with.
-/

namespace JavaTypes

open Action Equality Filter

namespace Session

/-! ### Questions that are answered with enough fuel -/

section Decides

variable {T : Session} {α β : Type} {x y : Nat → Query Bool}

/-- With enough fuel the question is answered, and nothing changes in the session. -/
def Decides (T : Session) (x : Nat → Query Bool) : Prop :=
  ∃ b, ∀ᶠ k in atTop, Known (x k) T b

theorem decides_of_known {x : Query Bool} {b : Bool} (h : Known x T b) : T.Decides fun _ => x :=
  ⟨b, .of_forall fun _ => h⟩

theorem Decides.bind {x : Nat → Query α} {a : α} {f : Nat → α → Query Bool}
    (hx : ∀ᶠ k in atTop, Known (x k) T a) (hf : T.Decides fun k => f k a) :
    T.Decides fun k => x k >>= f k := by
  obtain ⟨b, hf⟩ := hf
  exact ⟨b, (hx.and hf).mono fun _ h => h.1.bind h.2⟩

theorem Decides.both (hx : T.Decides x) (hy : T.Decides y) :
    T.Decides fun k => Action.both (x k) (y k) := by
  obtain ⟨b, hx⟩ := hx
  cases b with
  | true => exact .bind hx hy
  | false => exact ⟨false, hx.mono fun _ h => h.bind rfl⟩

theorem Decides.either (hx : T.Decides x) (hy : T.Decides y) :
    T.Decides fun k => Action.either (x k) (y k) := by
  obtain ⟨b, hx⟩ := hx
  cases b with
  | true => exact ⟨true, hx.mono fun _ h => h.bind rfl⟩
  | false => exact .bind hx hy

theorem Decides.sameLists {r : Nat → α → β → Query Bool} {as : List α} {bs : List β}
    (h : List.Forall₂ (fun a b => T.Decides fun k => r k a b) as bs) :
    T.Decides fun k => Action.sameLists (r k) as bs := by
  have hall : T.Decides fun k => Action.allPairs (r k) as bs := by
    induction h with
    | nil => exact decides_of_known rfl
    | cons hab _ ih => exact hab.both ih
  simpa only [Action.sameLists, h.length_eq, if_true] using hall

end Decides

variable {S T V : Session} {p : Premises} {a a' s t t' u v outer outer' : TypeId} {m n : TypeNode}
  {d e : ElementId} {as arguments : List TypeId} {fuel : Nat} {b : Bool}

/-! ### The types around a type -/

variable {S' : Session} {k size : Nat} {n' : TypeNode}

/-- The arguments of the type and of all the types around it. -/
def HasArguments (T : Session) (t : TypeId) (as : List TypeId) : Prop :=
  ∃ fuel, Known (allTypeArguments fuel t) T.store as

/-- The arguments of a declared type come after those of the type around it. -/
theorem HasArguments.around (h : T.HasArguments t as) (ht : T.Shows t u n) (hn : n.kind = .declared) :
    ∃ outer, T.HasArguments n.enclosingOrNone outer ∧ as = outer ++ n.arguments := by
  obtain ⟨_ | fuel, h⟩ := h
  · cases h
  · have hrest := (known_typeNode.2 ⟨u, ht⟩).of_bind h
    rw [if_pos (by rw [hn]; rfl)] at hrest
    obtain ⟨outer, houter, rfl⟩ := known_map.1 hrest
    exact ⟨outer, ⟨fuel, houter⟩, rfl⟩

theorem hasArguments_of_kind (ht : T.Shows t u n) (hn : n.kind.isDeclaredLike = false) :
    T.HasArguments t [] :=
  ⟨1, (known_typeNode.2 ⟨u, ht⟩).bind (by rw [hn]; rfl)⟩

/-- There are only finitely many types around the type. -/
def FiniteAround (T : Session) (t : TypeId) : Prop :=
  ∃ fuel as, Known (allTypeArguments fuel t) T.store as

theorem FiniteAround.mono (h : T.FiniteAround t) (hle : T ≤ V) : V.FiniteAround t := by
  obtain ⟨fuel, as, h⟩ := h
  exact ⟨fuel, as, h.mono hle.store⟩

theorem finiteAround_of_kind (ht : T.Shows t u n)
    (hn : n.kind.isDeclaredLike = false) : T.FiniteAround t := by
  obtain ⟨fuel, h⟩ := hasArguments_of_kind ht hn
  exact ⟨fuel, [], h⟩

theorem finiteAround_of_enclosing (ht : T.Shows t u n)
    (h : T.FiniteAround n.enclosingOrNone) : T.FiniteAround t := by
  by_cases hn : n.kind.isDeclaredLike = true
  · obtain ⟨fuel, as, h⟩ := h
    refine ⟨fuel + 1, as ++ n.arguments, (known_typeNode.2 ⟨u, ht⟩).bind ?_⟩
    rw [if_pos hn]
    exact h.bind rfl
  · exact finiteAround_of_kind ht (Bool.eq_false_iff.2 hn)

theorem FiniteAround.enclosing (h : T.FiniteAround t) (ht : T.Shows t u n)
    (hn : n.kind = .declared) : T.FiniteAround n.enclosingOrNone := by
  obtain ⟨fuel, as, h⟩ := h
  obtain ⟨outer, ⟨fuel, h⟩, -⟩ := HasArguments.around ⟨fuel, h⟩ ht hn
  exact ⟨fuel, outer, h⟩

theorem known_isRaw_succ (ht : T.Shows t u n) : Known (isRaw (fuel + 1) t) T.store b ↔
      Known (if n.kind = .declared then Action.either n.omitsArguments (isRaw fuel n.enclosingOrNone)
        else pure false) T.store b := by
  have hnode : Known (typeNode t) T.store n := known_typeNode.2 ⟨u, ht⟩
  exact ⟨hnode.of_bind, fun h => hnode.bind h⟩

section Absent

variable (habsent : T.Shows TypeId.none TypeId.none { shape := .noType .none })

include habsent

/-- Who has looked for omitted arguments in vain has seen all the types around a type. -/
theorem finiteAround_of_isRaw : ∀ {fuel : Nat} {t : TypeId}, Known (isRaw fuel t) T.store false →
    T.FiniteAround t
  | 0, _, h => by cases h
  | fuel + 1, t, h => by
      obtain ⟨n, hn, -⟩ := known_bind.1 h
      obtain ⟨u, ht⟩ := known_typeNode.1 hn
      refine finiteAround_of_enclosing ht ?_
      rw [known_isRaw_succ ht] at h
      split at h
      · rcases known_either.1 h with ⟨-, h⟩ | ⟨-, h⟩
        · cases h
        · exact finiteAround_of_isRaw h
      · next hkind =>
        have hnone : n.enclosingOrNone = TypeId.none := by
          obtain ⟨shape, as⟩ := n
          cases shape with
          | declared x => exact absurd rfl hkind
          | _ => rfl
        rw [hnone]
        exact finiteAround_of_kind habsent rfl

end Absent

/-! ### Narrowed types -/

/-- An argument, or a variable that was captured from it. -/
def StandsIn (T : Session) (a a' : TypeId) : Prop :=
  (T.store.peekType a).isSome = true ∧ a' = a ∨ T.store.IsWildcard a ∧ ∃ x : TypeVariable,
      T.store.peekType a' = some (a', { shape := .typeVar x }) ∧ x.capturedFrom = some a

theorem StandsIn.mono (h : T.StandsIn a a') (hle : T ≤ V) : V.StandsIn a a' := by
  rcases h with ⟨ha, rfl⟩ | ⟨hwild, x, hx, hfrom⟩
  · obtain ⟨y, hy⟩ := Option.isSome_iff_exists.1 ha
    exact .inl ⟨Option.isSome_iff_exists.2 ⟨y, peekType_mono hle.store hy⟩, rfl⟩
  · exact .inr ⟨hwild.mono hle.store, x, peekType_mono hle.store hx, hfrom⟩

theorem StandsIn.isSome (h : T.StandsIn a a') :
    (T.store.peekType a).isSome = true ∧ (T.store.peekType a').isSome = true := by
  rcases h with ⟨ha, rfl⟩ | ⟨⟨u, n, ha, -⟩, x, hx, -⟩
  · exact ⟨ha, ha⟩
  · exact ⟨Option.isSome_iff_exists.2 ⟨_, ha⟩, Option.isSome_iff_exists.2 ⟨_, hx⟩⟩

theorem TakesPlaceOf.standsIn (h : T.TakesPlaceOf size a a') : T.StandsIn a a' := by
  rcases h with ⟨hwild, -, hvar⟩ | ⟨⟨u, n, ha, -⟩, rfl⟩
  · exact .inr ⟨hwild, hvar⟩
  · exact .inl ⟨Option.isSome_iff_exists.2 ⟨_, ha⟩, rfl⟩

/-- The type `t'` is `t`, or what is left of it when some arguments of `t`, and of the types around it,
are captured. -/
inductive Narrows (T : Session) : TypeId → TypeId → Prop
  | stays {t u : TypeId} {n : TypeNode} (ht : T.store.peekType t = some (u, n)) : T.Narrows t u
  | inside {t u t' outer outer' : TypeId} {m n : TypeNode} {d e : ElementId} {arguments : List TypeId}
      (h : T.Declares t u n d e outer m) (hinstance : T.InstanceOf d outer' arguments t')
      (harguments : List.Forall₂ T.StandsIn n.arguments arguments)
      (hfinite : T.FiniteAround n.enclosingOrNone) (houter : T.Narrows outer outer') : T.Narrows t t'

theorem Narrows.mono (h : T.Narrows t t') (hle : T ≤ V) : V.Narrows t t' := by
  induction h with
  | stays ht => exact .stays (peekType_mono hle.store ht)
  | inside h hinstance harguments hfinite _ ih =>
    exact .inside (h.mono hle) (hinstance.mono hle) (harguments.imp fun _ _ h => h.mono hle)
      (hfinite.mono hle) ih

/-- What is left is a handle of a node. -/
theorem Narrows.node (h : T.Narrows t t') : ∃ n', T.Shows t' t' n' := by
  cases h with
  | stays ht => exact ⟨_, Store.peekType_self ht⟩
  | inside h hinstance _ _ _ =>
    obtain ⟨enclosing, erased, -, hnode⟩ := hinstance
    exact ⟨_, hnode⟩

theorem Narrows.of_peek (ht : T.Shows t u n) (h : T.Narrows u t') : T.Narrows t t' := by
  cases h with
  | stays hu =>
    cases ht.self.symm.trans hu
    exact .stays ht
  | inside h hinstance harguments hfinite houter =>
    cases ht.self.symm.trans h.node
    exact .inside { h with node := ht } hinstance harguments hfinite houter

/-- Around a type of which something was captured there are only finitely many types. -/
theorem Narrows.finiteAround (h : T.Narrows t t') (ht : T.Shows t u n) (hne : t' ≠ u) :
    T.FiniteAround t := by
  cases h with
  | stays ht' =>
    cases ht.symm.trans ht'
    exact absurd rfl hne
  | inside h _ _ hfinite _ => exact finiteAround_of_enclosing h.node hfinite

theorem omitsArguments_congr (hempty : m.arguments.isEmpty = n.arguments.isEmpty)
    (helement : m.element = n.element) : m.omitsArguments = n.omitsArguments := by
  unfold TypeNode.omitsArguments TypeNode.elementOf
  rw [hempty, helement]

theorem known_isRaw_of_kind (ht : T.Shows t u n) (hn : n.kind ≠ .declared) :
    Known (isRaw (fuel + 1) t) T.store b ↔ b = false := by
  rw [known_isRaw_succ ht, if_neg hn, known_pure]

theorem known_isRaw_of_peek (ht : T.Shows t u n) :
    Known (isRaw fuel t) T.store b ↔ Known (isRaw fuel u) T.store b := by
  cases fuel with
  | zero => exact .rfl
  | succ fuel => rw [known_isRaw_succ ht, known_isRaw_succ ht.self]

section Absent

variable (habsent : T.Shows TypeId.none TypeId.none { shape := .noType .none })

include habsent

/-- What is left of a type omits its arguments where the type does. -/
theorem Narrows.known_isRaw (h : T.Narrows t t') : ∀ {fuel : Nat} {b : Bool},
    Known (isRaw fuel t) T.store b → Known (isRaw fuel t') T.store b := by
  induction h with
  | stays ht => exact fun h => (known_isRaw_of_peek ht).1 h
  | @inside t u t' outer outer' m n d e arguments h hinstance harguments _ _ ih =>
    intro fuel b hraw
    cases fuel with
    | zero => cases hraw
    | succ fuel =>
      obtain ⟨n', ht', hkind', hd', hargs', -, henclosing⟩ := hinstance.enclosing
      have homits : n'.omitsArguments = n.omitsArguments := by
        refine omitsArguments_congr ?_ (hd'.trans h.named.symm)
        rw [hargs', isEmpty_eq_of_forall₂ harguments]
      rw [known_isRaw_succ h.node, if_pos h.kind] at hraw
      rw [known_isRaw_succ ht', if_pos hkind', homits]
      rw [known_either] at hraw ⊢
      refine hraw.imp_right fun ⟨homits, hraw⟩ => ⟨homits, ?_⟩
      have hraw := ih ((known_isRaw_of_peek h.around).1 hraw)
      rcases henclosing with heq | ⟨heq, v, y, houter', hy⟩
      · rwa [heq]
      · rw [heq]
        cases fuel with
        | zero => cases hraw
        | succ fuel =>
          rw [known_isRaw_of_kind houter' (by rw [hy]; decide)] at hraw
          exact (known_isRaw_of_kind habsent (by decide)).2 hraw

end Absent

/-! ### Comparisons of what is left -/

theorem decides_of_succ {x : Nat → Query Bool} (h : T.Decides fun k => x (k + 1)) : T.Decides x := by
  obtain ⟨b, h⟩ := h
  exact ⟨b, eventually_atTop_of_succ h⟩

theorem eventually_sameType_of_node (ht : T.Shows t u m) (hs : T.Shows s u n) :
    ∀ᶠ k in atTop, Known ((judgements k).sameType p t s) T true := by
  refine eventually_atTop_of_succ (.of_forall fun k => ?_)
  rw [judgements_sameType, Judgements.sameTypeStep_eq]
  refine ht.known.bind (hs.known.bind ?_)
  rw [Judgements.sameNodes, if_pos rfl]
  rfl

/-- A type without annotations is compared with another by the parts of both. -/
theorem decides_sameType (ht : T.Shows t u m) (hs : T.Shows s v n)
    (hplain : m.annotations = []) (hparts : T.Decides fun k => (judgements k).sameParts p u m v n) :
    T.Decides fun k => (judgements k).sameType p t s := by
  by_cases heq : u = v
  · subst heq
    exact ⟨true, eventually_sameType_of_node ht hs⟩
  refine decides_of_succ (.bind (.of_forall fun k => ht.known)
    (.bind (.of_forall fun k => hs.known) ?_))
  have hannotations : T.Decides fun k => if T.config.includeAnnotations = true then
      Equality.sameAnnotations ((judgements k).sameType p) m.annotations n.annotations
      else pure true := by
    split
    · rw [hplain]
      cases n.annotations with
      | nil => exact decides_of_known rfl
      | cons a as => exact decides_of_known rfl
    · exact decides_of_known rfl
  simp only [if_neg heq]
  exact .bind (.of_forall fun k => rfl) (hannotations.both hparts)

section Arguments

variable {w : TypeId} {x : TypeNode} {y : TypeVariable}

theorem ne_of_wildcard (ha' : T.Shows a' a' { shape := .typeVar y })
    (ha : T.Shows a w x) (hx : x.kind = .wildcard) : a' ≠ w := by
  rintro rfl
  cases ha'.symm.trans ha.self
  cases hx

/-- A variable is not the same as a wildcard. -/
theorem decides_sameType_of_wildcard (ha' : T.Shows a' a' { shape := .typeVar y })
    (ha : T.Shows a w x) (hx : x.kind = .wildcard) :
    T.Decides fun k => (judgements k).sameType p a' a := by
  refine decides_sameType ha' ha rfl ⟨false, .of_forall fun k => ?_⟩
  show Known (sameTypeVariable (judgements k).fuel a' w) T false
  rw [sameTypeVariable_eq]
  refine ha'.known.bind (ha.self.known.bind ?_)
  rw [sameVariables, if_neg (ne_of_wildcard ha' ha hx), if_pos (.inr (.inl (by rw [hx]; decide)))]
  rfl

theorem decides_sameType_of_standsIn (h : T.StandsIn a a') :
    T.Decides fun k => (judgements k).sameType p a' a := by
  rcases h with ⟨ha, rfl⟩ | ⟨⟨w, x, ha, hx⟩, y, ha', -⟩
  · obtain ⟨⟨w, x⟩, ha⟩ := Option.isSome_iff_exists.1 ha
    exact ⟨true, eventually_sameType_of_node ha ha⟩
  · exact decides_sameType_of_wildcard ha' ha hx

theorem known_sameWildcard_self (k : Nat) :
    Known ((judgements k).sameWildcard p w x w x) T true := by
  rw [Judgements.sameWildcard, if_pos rfl]
  rfl

/-- An argument contains what stands in its place. -/
theorem eventually_containsType (h : T.StandsIn a a') :
    ∀ᶠ k in atTop, Known ((judgements k).containsType p a a') T true := by
  refine eventually_atTop_of_succ ?_
  rcases h with ⟨ha, rfl⟩ | ⟨⟨w, x, ha, hx⟩, y, ha', hfrom⟩
  · obtain ⟨⟨w, x⟩, ha⟩ := Option.isSome_iff_exists.1 ha
    have hw := Store.peekType_self ha
    have hsame : ∀ᶠ k in atTop, Known ((judgements k).sameType p w w) T true :=
      eventually_sameType_of_node hw hw
    refine hsame.mono fun k hsame => (Shows.known ha).bind ((Shows.known ha).bind ?_)
    dsimp only
    split
    · exact hsame
    · exact (known_sameWildcard_self k).bind rfl
  · refine .of_forall fun k => (Shows.known ha).bind ((Shows.known ha').bind ?_)
    dsimp only
    rw [if_neg (not_not.2 hx)]
    refine .bind (a := false) ?_ (.bind (a := true) ?_ rfl)
    · rw [Judgements.sameWildcard, if_neg (ne_of_wildcard ha' ha hx).symm,
        if_pos (by simp [TypeNode.kind, TypeShape.kind])]
      rfl
    · have horigin : TypeNode.capturedFrom { shape := .typeVar y } = some a := hfrom
      rw [Judgements.isCaptureOf, horigin]
      exact (Shows.known ha).bind (known_sameWildcard_self k)

theorem decides_containsType (h : T.StandsIn a a') :
    T.Decides fun k => (judgements k).containsType p a' a := by
  rcases h with ⟨ha, rfl⟩ | ⟨⟨w, x, ha, hx⟩, y, ha', hfrom⟩
  · exact ⟨true, eventually_containsType (.inl ⟨ha, rfl⟩)⟩
  · refine decides_of_succ (.bind (.of_forall fun k => Shows.known ha')
      (.bind (.of_forall fun k => Shows.known ha) ?_))
    exact decides_sameType_of_wildcard ha' (Store.peekType_self ha) hx

theorem decides_isWildcard (h : (T.store.peekType t).isSome = true) :
    T.Decides fun _ => (do return (← typeKind t) = .wildcard : Query Bool) := by
  obtain ⟨⟨u, n⟩, ht⟩ := Option.isSome_iff_exists.1 h
  have hkind : Known (onStore (typeKind t)) T n.kind :=
    known_onStore.2 (known_typeKind.2 ⟨u, n, ht, rfl⟩)
  exact decides_of_known (hkind.bind rfl)

/-- Whether an argument and what stands in its place allow the same types is decided at once. -/
theorem decides_equivalentArguments (h : T.StandsIn a a') :
    T.Decides fun k => (judgements k).equivalentArguments p a' a := by
  refine (decides_sameType_of_standsIn h).either ?_
  obtain ⟨contains, hcontains⟩ : T.Decides fun k => (judgements k).containsType p a' a :=
    decides_containsType h
  have hconverse : T.Decides fun k => (judgements k).containsType p a a' :=
    ⟨true, eventually_containsType h⟩
  obtain ⟨eitherWay, hway⟩ : T.Decides fun _ => Action.both (return p.loose)
      (Action.either (do return (← typeKind a') = .wildcard) (do return (← typeKind a) = .wildcard)) :=
    (decides_of_known rfl).both ((decides_isWildcard h.isSome.2).either (decides_isWildcard h.isSome.1))
  refine .bind hcontains (.bind hway ?_)
  cases eitherWay with
  | true => exact (decides_of_known rfl).either hconverse
  | false => exact (decides_of_known rfl).both hconverse

end Arguments

/-- Two nodes of one element belong to the same element. -/
theorem known_sameOwner (h : T.Declares t u n d e outer m)
    (hd' : n'.element = some d) : Known ((judgements k).sameOwner n' n) T true := by
  obtain ⟨x, hx⟩ := h.element
  have hself : Known (onStore (resolveElement e)) T e :=
    known_onStore.2 (known_resolveElement.2 ⟨x, Store.peekElement_self hx⟩)
  refine (known_elementOf_some.2 ⟨d, x, hd', hx⟩).bind
    ((known_elementOf_some.2 ⟨d, x, h.named, hx⟩).bind (hself.bind (hself.bind ?_)))
  rw [if_pos rfl]
  rfl

/-- Only declared types are narrowed. -/
theorem Narrows.eq_of_kind {y : TypeNode} (h : T.Narrows t t') (ht' : T.Shows t' v y)
    (hy : y.kind ≠ .declared) : T.Shows t v y := by
  cases h with
  | stays ht =>
    cases (Store.peekType_self ht).symm.trans ht'
    exact ht
  | inside h hinstance _ _ _ =>
    obtain ⟨n', hn', hkind', -⟩ := hinstance.enclosing
    cases hn'.symm.trans ht'
    exact absurd hkind' hy

/-- What is left of a type is compared with the type without an end to wait for. -/
theorem Narrows.decides_sameType
    (habsent : T.Shows TypeId.none TypeId.none { shape := .noType .none })
    (h : T.Narrows t t') : T.Decides fun k => (judgements k).sameType p t' t := by
  induction h with
  | stays ht => exact ⟨true, eventually_sameType_of_node (Store.peekType_self ht) ht⟩
  | @inside t u t' outer outer' m n d e arguments h hinstance harguments _ houter ih =>
    obtain ⟨n', ht', hkind', hd', hargs', hplain, henclosing⟩ := hinstance.enclosing
    refine Session.decides_sameType ht' h.node hplain ?_
    have hparts : ∀ k, (judgements k).sameParts p t' n' u n = (judgements k).sameDeclared p n' n := by
      intro k
      obtain ⟨x, hx⟩ := TypeNode.shape_of_declared hkind'
      obtain ⟨y, hy⟩ := TypeNode.shape_of_declared h.kind
      rw [Judgements.sameParts, hx, hy]
    simp only [hparts]
    refine .both ?_ (.both ?_ ?_)
    · exact ⟨true, .of_forall fun k => known_sameOwner h hd'⟩
    · obtain ⟨b, ih⟩ := ih
      rcases henclosing with heq | ⟨heq, v, y, houter', hy⟩
      · obtain ⟨m', houter'⟩ := houter.node
        rw [heq]
        exact ⟨b, ih.mono fun k hk => (known_sameType_congr houter' h.around).2
          ((known_sameType_congr houter' (Store.peekType_self h.around)).1 hk)⟩
      · cases (Store.peekType_self h.around).symm.trans
          (houter.eq_of_kind houter' (by rw [hy]; decide))
        rw [heq]
        refine Session.decides_sameType habsent h.around rfl ⟨true, Eventually.of_forall fun k => ?_⟩
        obtain ⟨shape, as⟩ := m
        cases shape <;> cases hy
        rfl
    · rw [hargs']
      exact .sameLists (harguments.flip.imp fun _ _ h => decides_equivalentArguments h)

theorem eventually_fuel (fuel : Nat) : ∀ᶠ k in atTop, fuel ≤ (judgements k).fuel :=
  eventually_atTop_of_succ ((eventually_ge_atTop fuel).mono fun _ h => h)

theorem FiniteAround.eventually_isParameterized (h : T.FiniteAround t) :
    ∃ b, ∀ᶠ k in atTop, Known (onStore (isParameterized (judgements k).fuel t)) T b := by
  obtain ⟨fuel, as, h⟩ := h
  refine ⟨!as.isEmpty, (eventually_fuel fuel).mono fun k hk => known_onStore.2 (Known.bind ?_ rfl)⟩
  have := Fact.mk hk
  exact h.grow le_rfl

/-- A declared type is compared with the type of its own element by the arguments and by the types
around them. -/
theorem known_belowDeclared_self (hfuel : 1 ≤ (judgements k).fuel)
    (h : T.Declares t u n d e outer m) (ht' : T.Shows t' t' n')
    (hkind' : n'.kind = .declared) (hd' : n'.element = some d)
    (harguments : Known ((judgements k).containsArguments p u t') T true)
    (henclosing : Known ((judgements k).enclosingBelow p n' n) T true) :
    Known ((judgements k).belowDeclared p t' u n) T true := by
  obtain ⟨x, hx⟩ := h.element
  obtain ⟨fuel, hfuel⟩ : ∃ fuel, (judgements k).fuel = fuel + 1 :=
    ⟨(judgements k).fuel - 1, by omega⟩
  have hfound : Known (superAt (judgements k).fuel t' e) T (some t') := by
    rw [hfuel]
    refine ht'.known.bind ?_
    obtain ⟨y, hy⟩ := TypeNode.shape_of_declared hkind'
    unfold asSuperNode
    rw [hy]
    refine (known_elementOf_some.2 ⟨d, x, hd', hx⟩).bind ?_
    rw [asSuperDeclared, if_pos rfl]
    rfl
  refine (known_elementOf_some.2 ⟨d, x, h.named, hx⟩).bind (hfound.bind ?_)
  refine (known_onStore.2 (known_typeNode.2 ⟨t', ht'⟩)).bind ?_
  rw [if_neg (not_not.2 hkind')]
  refine .bind (a := true) ?_ henclosing
  refine .bind rfl ?_
  split
  · rfl
  · exact harguments

theorem eventually_containsArguments (ht : T.Shows t u n) (ht' : T.Shows t' t' n')
    (harguments : List.Forall₂ T.StandsIn n.arguments n'.arguments) :
    ∀ᶠ k in atTop, Known ((judgements k).containsArguments p u t') T true := by
  have hall : ∀ᶠ k in atTop, List.Forall₂
      (fun a a' => Known ((judgements k).containsType (p.assume u t') a a') T true)
      n.arguments n'.arguments :=
    eventually_forall₂ (harguments.imp fun _ _ h => eventually_containsType h)
  refine hall.mono fun k hk => ht.self.known.bind (ht'.known.bind ?_)
  dsimp only
  split
  · rfl
  · exact known_sameLists_true.2 hk

theorem Narrows.kind_eq (h : T.Narrows t t') (ht : T.Shows t u n)
    (ht' : T.Shows t' v n') : n'.kind = n.kind := by
  cases h with
  | stays hu =>
    cases ht.symm.trans hu
    cases ht.self.symm.trans ht'
    rfl
  | inside h hinstance _ _ _ =>
    obtain ⟨x, hx, hkind', -⟩ := hinstance.enclosing
    cases h.node.symm.trans ht
    cases hx.symm.trans ht'
    exact hkind'.trans h.kind.symm

/-- The type around what is left of a type is compared with the type around it, if it is asked for. -/
theorem eventually_enclosingBelow (h : T.Declares t u n d e outer m)
    (hfinite : T.FiniteAround n.enclosingOrNone) (houter : T.Narrows outer outer')
    (henclosing : n'.enclosingOrNone = outer' ∨ n'.enclosingOrNone = TypeId.none ∧
      ∃ v y, T.Shows outer' v y ∧ y.kind = .noType .none)
    (hbelow : ∀ᶠ k in atTop, Known ((judgements k).subtype p false outer' outer) T true) :
    ∀ᶠ k in atTop, Known ((judgements k).enclosingBelow p n' n) T true := by
  have hkind : Known (onStore (typeKind n.enclosingOrNone)) T m.kind :=
    known_onStore.2 (known_typeKind.2 ⟨outer, m, h.around, rfl⟩)
  by_cases hm : m.kind = .declared
  · obtain ⟨m', houter'⟩ := houter.node
    have hm' : m'.kind = .declared := (houter.kind_eq (Store.peekType_self h.around) houter').trans hm
    have heq : n'.enclosingOrNone = outer' := by
      rcases henclosing with heq | ⟨-, v, y, hy, hnone⟩
      · exact heq
      · cases houter'.symm.trans hy
        rw [hm'] at hnone
        cases hnone
    have hkind' : Known (onStore (typeKind n'.enclosingOrNone)) T m'.kind := by
      rw [heq]
      exact known_onStore.2 (known_typeKind.2 ⟨outer', m', houter', rfl⟩)
    obtain ⟨counts, hcounts⟩ := hfinite.eventually_isParameterized
    refine (hcounts.and hbelow).mono fun k ⟨hk, hsub⟩ => ?_
    refine .bind (a := counts) ?_ ?_
    · exact .bind (a := true) (hkind.bind (by rw [hm]; rfl)) hk
    · cases counts with
      | false => rfl
      | true =>
        refine hkind'.bind ?_
        rw [if_pos hm', heq]
        exact (known_subtype_congr houter' h.around).2
          ((known_subtype_congr houter' (Store.peekType_self h.around)).1 hsub)
  · refine .of_forall fun k => .bind (.bind (a := false) ?_ rfl) rfl
    exact hkind.bind (by rw [decide_eq_false hm]; rfl)

/-- A type that is not the same as a declared type is compared with it by its kind. -/
theorem eventually_subtype_of_belowByKind (ht : T.Shows t u m)
    (hs : T.Shows s v n) (hn : n.kind = .declared)
    (hsame : T.Decides fun k => (judgements k).sameType p u v)
    (h : ∀ᶠ k in atTop, Known ((judgements k).belowByKind p false u v n) T true) :
    ∀ᶠ k in atTop, Known ((judgements k).subtype p false t s) T true := by
  obtain ⟨b, hsame⟩ := hsame
  refine eventually_atTop_of_succ ((hsame.and (h.and (eventually_fuel 1))).mono ?_)
  rintro k ⟨hsame, h, hfuel⟩
  cases b with
  | true =>
    exact (known_onStore.2 (known_resolveType.2 ⟨m, ht⟩)).bind (hs.known.bind (hsame.bind rfl))
  | false =>
    have hkind : ∀ kind, kind ≠ .declared → n.kind ≠ kind := by
      rintro kind hne rfl
      exact hne hn
    exact known_subtype_of_belowByKind ht hs (hkind _ nofun) (hkind _ nofun) (hkind _ nofun)
      (hkind _ nofun) hfuel hsame h

/-- What is left of a type is a subtype of it. -/
theorem Narrows.eventually_subtype
    (habsent : T.Shows TypeId.none TypeId.none { shape := .noType .none })
    (h : T.Narrows t t') : ∀ᶠ k in atTop, Known ((judgements k).subtype p false t' t) T true := by
  induction h with
  | @stays t u n ht =>
    have hself := Store.peekType_self ht
    have hsame : ∀ᶠ k in atTop, Known ((judgements k).sameType p u u) T true :=
      eventually_sameType_of_node hself hself
    refine eventually_atTop_of_succ (hsame.mono fun k hk => ?_)
    exact (known_onStore.2 (known_resolveType.2 ⟨n, hself⟩)).bind ((Shows.known ht).bind (hk.bind rfl))
  | @inside t u t' outer outer' m n d e arguments h hinstance harguments hfinite houter ih =>
    obtain ⟨b, hsame⟩ := (Narrows.inside h hinstance harguments hfinite houter).decides_sameType
      habsent
    obtain ⟨n', ht', hkind', hd', rfl, -, henclosing⟩ := hinstance.enclosing
    have hsame' : T.Decides fun k => (judgements k).sameType p t' u :=
      ⟨b, hsame.mono fun k hk => (known_sameType_congr ht' h.node).1 hk⟩
    refine eventually_subtype_of_belowByKind ht' h.node h.kind hsame' ?_
    have hcontains : ∀ᶠ k in atTop, Known ((judgements k).containsArguments p u t') T true :=
      eventually_containsArguments h.node ht' harguments
    have henclosing := eventually_enclosingBelow h hfinite houter henclosing ih
    refine (hcontains.and (henclosing.and (eventually_fuel 1))).mono ?_
    rintro k ⟨hcontains, henclosing, hfuel⟩
    refine (known_onStore.2 (known_typeNode.2 ⟨t', ht'⟩)).bind ?_
    obtain ⟨x, hx⟩ := TypeNode.shape_of_declared hkind'
    rw [hx, if_pos h.kind]
    exact known_belowDeclared_self hfuel h ht' hkind' hd' hcontains henclosing

/-! ### What capture leaves alone -/

/-- There is nothing to capture in the type, nor in the types around it. -/
inductive Uncaptured (T : Session) : TypeId → Prop
  | other {t : TypeId} {n : TypeNode} (ht : T.store.peekType t = some (t, n))
      (hn : n.kind ≠ .declared ∨ n.element = none) : T.Uncaptured t
  | inside {t outer : TypeId} {m n : TypeNode} {d e : ElementId} {fuel : Nat}
      (h : T.Declares t t n d e outer m) (hretains : T.Retains fuel t n e true)
      (houter : T.Uncaptured outer) : T.Uncaptured t

theorem Uncaptured.mono (h : T.Uncaptured t) (hle : T ≤ V) : V.Uncaptured t := by
  induction h with
  | other ht hn => exact .other (peekType_mono hle.store ht) hn
  | inside h hretains _ ih => exact .inside (h.mono hle) (hretains.mono hle) ih

theorem known_captureFrom (hretains : T.Retains fuel u n e true) (hfuel : fuel ≤ (judgements k).fuel) :
    Known ((judgements k).captureFrom p u n e outer outer) T u := by
  obtain ⟨flags, es, vars, raw, hflags, hes, hvars, hraw, hstays⟩ := hretains
  have := Fact.mk hfuel
  have hraw : Known (onStore (isRaw (judgements k).fuel u)) T raw := hraw.grow le_rfl
  refine hflags.bind (hes.bind (hvars.bind (hraw.bind ?_)))
  rw [if_pos hstays.symm, if_pos rfl]
  rfl

/-- Capture gives such a type back. -/
theorem Uncaptured.eventually_capture (h : T.Uncaptured t) :
    ∀ᶠ k in atTop, Known ((judgements k).capture p t) T t := by
  induction h with
  | @other t n ht hn =>
    refine eventually_atTop_of_succ (.of_forall fun k => ?_)
    refine (Shows.known ht).bind ?_
    dsimp only
    split
    · rfl
    · next hkind =>
      have hnone : n.element = none := hn.resolve_left hkind
      exact (known_elementOf_none.2 hnone).bind rfl
  | @inside t outer m n d e fuel h hretains _ ih =>
    refine eventually_atTop_of_succ ((ih.and (eventually_fuel fuel)).mono ?_)
    rintro k ⟨hk, hfuel⟩
    obtain ⟨x, hx⟩ := h.element
    refine (Shows.known h.node).bind ?_
    dsimp only
    rw [if_neg (not_not.2 h.kind)]
    refine (known_elementOf_some.2 ⟨d, x, h.named, hx⟩).bind ((Shows.known h.around).bind ?_)
    have hlast : Known ((judgements k).captureFrom p t n e outer outer) T t :=
      known_captureFrom hretains hfuel
    split
    · exact hk.bind hlast
    · exact .bind rfl hlast

section Absent

variable (habsent : T.Shows TypeId.none TypeId.none { shape := .noType .none })

include habsent

/-- An instance of which nothing is left to capture, inside a type of which nothing is left. -/
theorem uncaptured_of_instanceOf (hinstance : T.InstanceOf d outer arguments t)
    (ht : T.Shows t t n') {x : ElementNode} (hx : T.store.peekElement d = some (e, x))
    (hretains : T.Retains fuel t n' e true) (houter : T.Uncaptured outer) : T.Uncaptured t := by
  obtain ⟨n, hn, hkind, hd, -, -, henclosing⟩ := hinstance.enclosing
  cases ht.symm.trans hn
  have hself : ∃ m, T.Shows outer outer m := by
    cases houter with
    | other ht _ => exact ⟨_, ht⟩
    | inside h _ _ => exact ⟨_, h.node⟩
  obtain ⟨m, hm⟩ := hself
  rcases henclosing with heq | ⟨heq, -⟩
  · exact .inside ⟨hn, hkind, hd, ⟨x, hx⟩, by rw [heq]; exact hm⟩ hretains houter
  · exact .inside ⟨hn, hkind, hd, ⟨x, hx⟩, by rw [heq]; exact habsent⟩ hretains
      (.other habsent (.inl (by decide)))

end Absent

theorem known_wildcardFlags_of_noWildcard : ∀ {as : List TypeId}, (∀ a ∈ as, T.store.NoWildcard a) →
    ∃ flags, Known (wildcardFlags as) T.store flags ∧ flags.any id = false
  | [], _ => ⟨[], rfl, rfl⟩
  | a :: as, h => by
      obtain ⟨⟨u, n, ha, hn⟩, hrest⟩ := List.forall_mem_cons.1 h
      obtain ⟨flags, hflags, hany⟩ := known_wildcardFlags_of_noWildcard hrest
      have hkind : Known (typeKind a) T.store n.kind := known_typeKind.2 ⟨u, n, ha, rfl⟩
      exact ⟨decide (n.kind = .wildcard) :: flags, hkind.bind (hflags.bind rfl), by simp [hn, hany]⟩

/-- What stands in the place of an argument after capture is not a wildcard. -/
theorem TakesPlaceOf.noWildcard (h : T.TakesPlaceOf size a a') : T.store.NoWildcard a' := by
  rcases h with ⟨-, -, x, hx, -⟩ | ⟨hno, rfl⟩
  · exact ⟨a', _, hx, by simp [TypeNode.kind, TypeShape.kind]⟩
  · exact hno

/-! ### Runs of capture -/

/-- The last step of a capture, when the type around is captured. -/
theorem narrows_of_captureFrom (habsent : S.Shows TypeId.none TypeId.none { shape := .noType .none })
    (h : S.Declares t u n d e outer m) (houter : S.Narrows outer outer') (hdone : S.Uncaptured outer')
    (hrun : (judgements k).captureFrom p u n e outer outer' S = (.ok t', S')) :
    S'.Narrows t t' ∧ S'.Uncaptured t' := by
  obtain ⟨T, hT, hle, hcases⟩ := cases_of_captureFrom h.named hrun
  have hS' := hT.le.trans hle
  have h := h.mono hS'
  have habsent := habsent.mono hS'
  have houter := houter.mono hS'
  have hdone := hdone.mono hS'
  obtain ⟨x, hx⟩ := h.element
  rcases hcases with ⟨hretains, ⟨heq, rfl, rfl⟩ | ⟨hne, hinstance⟩⟩ |
    ⟨hretains, captured, hplaces, -, hinstance⟩
  · exact ⟨.stays h.node, .inside { h with node := Store.peekType_self h.node } hretains (heq ▸ hdone)⟩
  · obtain ⟨flags, es, vars, raw, hflags, hes, hvars, hraw, hstays⟩ := hretains.mono hle
    have hkept : List.Forall₂ S'.StandsIn n.arguments n.arguments := List.forall₂_same.2 fun a ha =>
        .inl ⟨isSome_of_known_wildcardFlags (known_onStore.1 hflags) a ha, rfl⟩
    have hfinite : S'.FiniteAround n.enclosingOrNone :=
      (houter.of_peek h.around).finiteAround h.around hne
    have hnarrows : S'.Narrows t t' := .inside h hinstance hkept hfinite houter
    obtain ⟨n', ht', -, -, hargs', -, -⟩ := hinstance.enclosing
    have hraw' := hnarrows.known_isRaw habsent ((known_isRaw_of_peek h.node).2 (known_onStore.1 hraw))
    refine ⟨hnarrows, uncaptured_of_instanceOf habsent hinstance ht' hx
      ⟨flags, es, vars, raw, ?_, hes, hvars, known_onStore.2 hraw', ?_⟩ hdone⟩
    · rw [hargs']
      exact hflags
    · rw [hargs']
      exact hstays
  · obtain ⟨flags, es, vars, raw, hflags, hes, hvars, hraw, hstays⟩ := hretains.mono hle
    obtain rfl : raw = false := by
      cases raw with
      | true => simp at hstays
      | false => rfl
    have hraw := (known_isRaw_of_peek h.node).2 (known_onStore.1 hraw)
    have hfinite := (finiteAround_of_isRaw habsent hraw).enclosing h.node h.kind
    have hnarrows : S'.Narrows t t' :=
      .inside h hinstance (hplaces.imp fun _ _ h => h.standsIn) hfinite houter
    obtain ⟨n', ht', -, -, hargs', -, -⟩ := hinstance.enclosing
    have hno : ∀ a ∈ n'.arguments, S'.store.NoWildcard a := by
      intro a ha
      obtain ⟨_, -, hplace⟩ := exists_of_forall₂_right hplaces (hargs' ▸ ha)
      exact hplace.noWildcard
    obtain ⟨flags', hflags', hany⟩ := known_wildcardFlags_of_noWildcard hno
    exact ⟨hnarrows, uncaptured_of_instanceOf habsent hinstance ht' hx
      ⟨flags', es, vars, false, known_onStore.2 hflags', hes, hvars,
        known_onStore.2 (hnarrows.known_isRaw habsent hraw), by simp [hany]⟩ hdone⟩

/-- Capture leaves a narrower type, in which nothing is left to capture. -/
theorem narrows_of_capture : ∀ {k : Nat} {S S' : Session} {t t' : TypeId},
    S.Shows TypeId.none TypeId.none { shape := .noType .none } →
      (judgements k).capture p t S = (.ok t', S') → S'.Narrows t t' ∧ S'.Uncaptured t'
  | 0, _, _, _, _, _, hrun => by cases hrun
  | k + 1, S, S', t, t', habsent, hrun => by
      rcases cases_of_capture hrun with ⟨n, ht, hn, -⟩ | ⟨u, n, d, e, outer, m, outer', T₁, T₂, hT₁, h,
        hT₂, houter, -, hrun⟩
      · exact ⟨.stays ht, .other ht.self hn⟩
      have hself := Store.peekType_self h.around
      have habsent₁ := habsent.mono hT₁.le
      rcases houter with ⟨hm, rfl, rfl⟩ | ⟨hm, hcapture⟩
      · exact narrows_of_captureFrom habsent₁ h (.stays hself) (.other hself (.inl hm)) hrun
      · obtain ⟨hnarrows, hdone⟩ := narrows_of_capture habsent₁ hcapture
        exact narrows_of_captureFrom (habsent₁.mono hT₂) (h.mono hT₂) hnarrows hdone hrun

/-! ### Types without wildcards -/

/-- No argument of the type, or of a type around it, is a wildcard. -/
def WithoutWildcards (T : Session) : TypeId → Prop :=
  T.EachAround fun _ m => ∀ a ∈ m.arguments, ¬ T.store.IsWildcard a

theorem WithoutWildcards.of_le (h : V.WithoutWildcards t) (hle : T ≤ V) : T.WithoutWildcards t := by
  intro w v m hw hv a ha hwild
  refine h w v m (.mono ?_ t w hw) (peekType_mono hle.store hv) a ha (hwild.mono hle.store)
  rintro x y ⟨u, n, m', hx, hy⟩
  exact ⟨u, n, m', peekType_mono hle.store hx, peekType_mono hle.store hy⟩

/-- Capture only completes handles if there are no wildcards. -/
theorem completes_of_capture : ∀ {k : Nat} {S S' : Session} {t t' : TypeId},
    (judgements k).capture p t S = (.ok t', S') →
      (∃ u n, S'.Shows t u n ∧ n.kind ≠ .declared) ∨ S'.WithoutWildcards t →
        (∃ n, S'.Shows t t' n) ∧ S.Completes S'
  | 0, _, _, _, _, hrun, _ => by cases hrun
  | k + 1, S, S', t, t', hrun, hfree => by
      rcases cases_of_capture hrun with ⟨n, ht, -, hS'⟩ | ⟨u, n, d, e, outer, m, outer', T₁, T₂, hT₁, h,
        hT₂, houter, hlast, hrun⟩
      · exact ⟨⟨n, ht⟩, hS'⟩
      have h' := h.mono (hT₂.trans hlast)
      have hfree : S'.WithoutWildcards t := by
        refine hfree.resolve_left ?_
        rintro ⟨u', n', ht, hn⟩
        cases h'.node.symm.trans ht
        exact hn h.kind
      have houter : outer' = outer ∧ T₁.Completes T₂ := by
        rcases houter with ⟨-, rfl, rfl⟩ | ⟨-, hcapture⟩
        · exact ⟨rfl, .refl _⟩
        · have hfree' : S'.WithoutWildcards outer := hfree.enclosing h'.node h'.around
          obtain ⟨⟨m', hm'⟩, hcompletes⟩ :=
            completes_of_capture hcapture (.inr (hfree'.of_le hlast))
          cases (Store.peekType_self (h.mono hT₂).around).symm.trans hm'
          exact ⟨rfl, hcompletes⟩
      obtain ⟨heq, hT₂⟩ := houter
      obtain ⟨T, hT, hle, hcases⟩ := cases_of_captureFrom h.named hrun
      rcases hcases with ⟨-, ⟨-, rfl, rfl⟩ | ⟨hne, -⟩⟩ | ⟨hretains, -⟩
      · exact ⟨⟨n, h'.node⟩, hT₁.trans (hT₂.trans hT)⟩
      · exact absurd heq hne
      · obtain ⟨flags, es, vars, raw, hflags, -, -, -, hstays⟩ := hretains.mono hle
        have hany : flags.any id = false := by
          refine any_eq_false_of_known_wildcardFlags (fun a ha w x hx hwild => ?_) (known_onStore.1 hflags)
          exact hfree t u n .refl h'.node a ha ⟨w, x, hx, hwild⟩
        simp [hany] at hstays

/-! ### Types with all their arguments -/

/-- A declared type that is not raw, and has as many arguments as its element has type variables. -/
structure Applied (T : Session) (t u : TypeId) (n : TypeNode) : Prop where
  node : T.store.peekType t = some (u, n)
  kind : n.kind = .declared
  notRaw : ∃ fuel, Known (onStore (isRaw fuel t)) T false
  full : ∃ e es vars, Known (onStore n.elementOf) T (some e) ∧ Known (onStore (typeParameters e)) T es ∧
    Known (onStore (formals es)) T vars ∧ vars.length = n.arguments.length

theorem Applied.mono (h : T.Applied t u n) (hle : T ≤ V) : V.Applied t u n := by
  obtain ⟨fuel, hraw⟩ := h.notRaw
  obtain ⟨e, es, vars, he, hes, hvars, hlength⟩ := h.full
  exact ⟨peekType_mono hle.store h.node, h.kind,
    ⟨fuel, hraw.mono hle⟩, e, es, vars, he.mono hle, hes.mono hle, hvars.mono hle, hlength⟩

theorem Apart.of_le {s s' : Store} {x y : TypeId × TypeId} (h : Apart s x y) (hle : s ≤ s')
    (hx : (s.peekType x.1).isSome = true) (hy : (s.peekType y.1).isSome = true) : Apart s' x y := by
  have hback : ∀ {a : TypeId}, (s.peekType a).isSome = true → s'.IsWildcard a → s.IsWildcard a := by
    intro a ha hwild
    rcases Store.isWildcard_or_noWildcard ha with h | h
    · exact h
    · exact absurd hwild (h.mono hle).not_isWildcard
  exact fun hwild hwild' => h (hback hx hwild) (hback hy hwild')

theorem noWildcard_of_known_wildcardFlags : ∀ {as : List TypeId} {flags : List Bool},
    Known (wildcardFlags as) T.store flags → flags.any id = false → ∀ a ∈ as, T.store.NoWildcard a
  | [], _, _, _, a, ha => by cases ha
  | a :: as, flags, h, hany, a', ha' => by
      obtain ⟨kind, hkind, h⟩ := known_bind.1 h
      obtain ⟨rest, hrest, rfl⟩ := known_map.1 h
      obtain ⟨u, n, hn, rfl⟩ := known_typeKind.1 hkind
      simp only [List.any_cons, id, Bool.or_eq_false_iff, decide_eq_false_iff_not] at hany
      rcases List.mem_cons.1 ha' with rfl | ha'
      · exact ⟨u, n, hn, hany.1⟩
      · exact noWildcard_of_known_wildcardFlags hrest hany.2 a' ha'

theorem known_isRaw_unique {fuel' : Nat} {b' : Bool} (h : Known (isRaw fuel t) T.store b)
    (h' : Known (isRaw fuel' t) T.store b') : b = b' :=
  Known.unique (x := isRaw (max fuel fuel') t) (h.grow le_rfl) (h'.grow le_rfl)

/-- The arguments of such a type stay only if there is no wildcard among them. -/
theorem Applied.noWildcard (h : T.Applied t u n) (hdeclares : T.Declares t u n d e outer m)
    (hretains : T.Retains fuel u n e true) : ∀ a ∈ n.arguments, T.store.NoWildcard a := by
  obtain ⟨flags, es, vars, raw, hflags, hes, hvars, hraw, hstays⟩ := hretains
  obtain ⟨fuel', hnotRaw⟩ := h.notRaw
  obtain ⟨e', es', vars', he', hes', hvars', hlength⟩ := h.full
  obtain ⟨x, hx⟩ := hdeclares.element
  cases (known_elementOf_some.2 ⟨d, x, hdeclares.named, hx⟩).unique he'
  obtain rfl := hes.unique hes'
  obtain rfl := hvars.unique hvars'
  obtain rfl := known_isRaw_unique (known_onStore.1 hraw)
    ((known_isRaw_of_peek h.node).1 (known_onStore.1 hnotRaw))
  refine noWildcard_of_known_wildcardFlags (known_onStore.1 hflags) ?_
  simpa [hlength] using hstays.symm

/-- In a type with all its arguments each wildcard is replaced by a variable of its own. -/
theorem takesPlaceOf_of_capture
    (hrun : (judgements k).capture p t S = (.ok t', S')) (happlied : S'.Applied t u n) :
    ∃ n', S'.Shows t' t' n' ∧ n'.kind = .declared ∧ n'.element = n.element ∧
      List.Forall₂ (S'.TakesPlaceOf S.store.types.size) n.arguments n'.arguments ∧
        (n.arguments.zip n'.arguments).Pairwise (Apart S'.store) := by
  cases k with
  | zero => cases hrun
  | succ k =>
    rcases cases_of_capture hrun with ⟨n', ht, hn, -⟩ | ⟨u', n', d, e, outer, m, outer', T₁, T₂, hT₁, h,
      hT₂, -, hlast, hrun⟩
    · cases happlied.node.symm.trans ht
      obtain ⟨e, es, vars, he, -⟩ := happlied.full
      obtain ⟨d, x, hd, -⟩ := known_elementOf_some.1 he
      rcases hn with hn | hn
      · exact absurd happlied.kind hn
      · rw [hn] at hd
        cases hd
    obtain ⟨T, hT, hle, hcases⟩ := cases_of_captureFrom h.named hrun
    have hsize : S.store.types.size ≤ T.store.types.size :=
      (hT₁.le.trans (hT₂.trans hT.le)).store.size_types
    have h := h.mono (hT₂.trans hlast)
    cases happlied.node.symm.trans h.node
    have hstays : S'.Retains (judgements k).fuel u n e true →
        List.Forall₂ (S'.TakesPlaceOf S.store.types.size) n.arguments n.arguments ∧
          (n.arguments.zip n.arguments).Pairwise (Apart S'.store) := by
      intro hretains
      have hno := happlied.noWildcard h hretains
      refine ⟨List.forall₂_same.2 fun a ha => .inr ⟨hno a ha, rfl⟩,
        List.pairwise_of_forall_mem_list fun x hx y _ hwild => ?_⟩
      exact absurd hwild (hno x.1 (List.of_mem_zip hx).1).not_isWildcard
    rcases hcases with ⟨hretains, ⟨-, rfl, rfl⟩ | ⟨-, hinstance⟩⟩ |
      ⟨hretains, captured, hplaces, hapart, hinstance⟩
    · exact ⟨n, Store.peekType_self h.node, h.kind, rfl, hstays hretains⟩
    · obtain ⟨n', ht', hkind', hd', hargs', -, -⟩ := hinstance.enclosing
      refine ⟨n', ht', hkind', hd'.trans h.named.symm, ?_⟩
      rw [hargs']
      exact hstays (hretains.mono hle)
    · obtain ⟨n', ht', hkind', hd', rfl, -, -⟩ := hinstance.enclosing
      obtain ⟨flags, -, -, -, hflags, -⟩ := hretains
      have hpeeks := isSome_of_known_wildcardFlags (known_onStore.1 hflags)
      refine ⟨n', ht', hkind', hd'.trans h.named.symm, hplaces.imp fun _ _ h => h.mono le_rfl hsize, ?_⟩
      refine hapart.imp_of_mem fun {x y} hx hy h => ?_
      exact Apart.of_le h hle.store (hpeeks x.1 (List.of_mem_zip hx).1) (hpeeks y.1 (List.of_mem_zip hy).1)

/-- A class `Outer<A>` has an inner class `Inner<B, C>`. There is a type
`Outer<?>.Inner<? extends Cloneable, ?>`, at 25. -/
def wildcardInstances : Session :=
  ofNodes
    [.ofClass 3 [18], .variableOf 5, .ofInner 4 17 [20, 21], .variableOf 6, .variableOf 7,
     { shape := .wildcard {} }, { shape := .wildcard { upper := some ⟨15⟩ } }, .ofClass 3 [22],
     .ofInner 4 24 [23, 22]]
    [{ name := some "Outer", type := some ⟨17⟩, enclosed := [⟨4⟩],
       detail := .type .plain { typeParameters := [⟨5⟩] } },
     { name := some "Inner", type := some ⟨19⟩, enclosing := some ⟨3⟩,
       detail := .type .plain { typeParameters := [⟨6⟩, ⟨7⟩] } }, .parameter "A" 18 3,
     .parameter "B" 20 4, .parameter "C" 21 4]

/-! ### Capturing a type -/

/-- What capture answers with. A type that is not declared, or without wildcards, is given back, and
nothing is made; only handles are completed, by their suppliers. In a type with all its arguments each
wildcard gives way to a variable of its own that was captured from it and was not there before. Nothing
is left to capture in what is answered, and that is a subtype of the type. -/
theorem capture_replacesWildcards {S' : Session} {fuel : Nat}
    (habsent : S.store.peekType TypeId.none = some (TypeId.none, { shape := .noType .none }))
    (hrun : capture fuel t S = (.ok t', S')) :
    ((∃ u n, S'.store.peekType t = some (u, n) ∧ n.kind ≠ .declared) ∨ S'.WithoutWildcards t →
        (∃ n, S'.store.peekType t = some (t', n)) ∧ S.Completes S') ∧
      (∀ u n, S'.Applied t u n → ∃ n', S'.store.peekType t' = some (t', n') ∧ n'.kind = .declared ∧
        n'.element = n.element ∧
          List.Forall₂ (S'.TakesPlaceOf S.store.types.size) n.arguments n'.arguments ∧
            (n.arguments.zip n'.arguments).Pairwise (Apart S'.store)) ∧
      (∃ enough, ∀ k, enough ≤ k → capture k t' S' = (.ok t', S')) ∧
        ∃ enough, ∀ k, enough ≤ k → isSubtypeNoCapture k t' t S' = (.ok true, S') := by
  have hle : S ≤ S' := Query.Moves.le_of_eq hrun
  have hcapture : (judgements fuel).capture {} t S = (.ok t', S') := hrun
  obtain ⟨hnarrows, hdone⟩ := narrows_of_capture habsent hcapture
  exact ⟨completes_of_capture hcapture, fun _ _ => takesPlaceOf_of_capture hcapture,
    eventually_atTop.1 hdone.eventually_capture,
    eventually_atTop.1 (hnarrows.eventually_subtype (peekType_mono hle.store habsent))⟩

/-- `Inner` keeps its element, and has variables at 28 and 29 in the place of its wildcards. -/
theorem capture_replacesWildcards_wildcardInstances : ∃ S' : Session,
    capture 12 ⟨25⟩ wildcardInstances = (.ok ⟨30⟩, S') ∧
      (∃ n, S'.Applied ⟨25⟩ ⟨25⟩ n ∧ n.element = some ⟨4⟩ ∧ n.arguments = [⟨23⟩, ⟨22⟩] ∧
        ∃ n', S'.store.peekType ⟨30⟩ = some (⟨30⟩, n') ∧ n'.kind = .declared ∧
          n'.element = n.element ∧ List.Forall₂ (S'.TakesPlaceOf wildcardInstances.store.types.size)
            n.arguments n'.arguments ∧ (n.arguments.zip n'.arguments).Pairwise (Apart S'.store)) ∧
      (∃ enough, ∀ k, enough ≤ k → capture k ⟨30⟩ S' = (.ok ⟨30⟩, S')) ∧
        ∃ enough, ∀ k, enough ≤ k → isSubtypeNoCapture k ⟨30⟩ ⟨25⟩ S' = (.ok true, S') := by
  have hanswer : (capture 12 ⟨25⟩ wildcardInstances).1 = .ok ⟨30⟩ := by decide +kernel
  have habsent : wildcardInstances.store.peekType TypeId.none =
      some (TypeId.none, { shape := .noType .none }) := rfl
  have happlied : wildcardInstances.Applied ⟨25⟩ ⟨25⟩ (instanceNode ⟨4⟩ (some ⟨24⟩) [⟨23⟩, ⟨22⟩] none) :=
    ⟨rfl, rfl, ⟨4, rfl⟩, ⟨4⟩, [⟨6⟩, ⟨7⟩], [⟨20⟩, ⟨21⟩], rfl, rfl, rfl, rfl⟩
  generalize wildcardInstances = S at *
  have hrun : capture 12 ⟨25⟩ S = (.ok ⟨30⟩, (capture 12 ⟨25⟩ S).2) := Prod.ext hanswer rfl
  generalize (capture 12 ⟨25⟩ S).2 = S' at *
  have happlied := happlied.mono (Query.Moves.le_of_eq hrun)
  obtain ⟨-, harguments, hagain, hbelow⟩ := capture_replacesWildcards habsent hrun
  exact ⟨S', hrun, ⟨_, happlied, rfl, rfl, harguments _ _ happlied⟩, hagain, hbelow⟩

/-- A class `Box<E>` whose type parameter has no type variable yet, a type `Box<?>`, at 15, and a handle,
at 16, that will stand for an array of it. -/
def incompleteBoxes : Session where
  store := .after [.newNamedElement (.type .plain) "Box", .newNamedElement .typeParameter "E",
      .attach .typeParameter ⟨0⟩ ⟨1⟩, .newType .wildcard,
      .makeShape (.declared { element := some ⟨0⟩, arguments := [⟨14⟩] }),
      .deferType (.newArray ⟨15⟩ .ofExcept)]

/-- The type `Box<?>` is not raw and has as many arguments as `Box` has type parameters, and keeps its
wildcard. The array is not a declared type, and is made when it is captured. -/
theorem capture_denied_incompleteBoxes :
    (isRaw 3 ⟨15⟩ incompleteBoxes.store).1 = .ok false ∧
      (typeParameters ⟨0⟩ incompleteBoxes.store).1 = .ok [⟨1⟩] ∧
        (incompleteBoxes.store.peekType ⟨15⟩).map (fun x => x.2.arguments) = some [⟨14⟩] ∧
          incompleteBoxes.store.peekTypeKind ⟨14⟩ = some .wildcard ∧
            (capture 5 ⟨15⟩ incompleteBoxes).1 = .ok ⟨15⟩ ∧
      (capture 5 ⟨16⟩ incompleteBoxes).1 = .ok ⟨17⟩ ∧
        (capture 5 ⟨16⟩ incompleteBoxes).2.store.peekTypeKind ⟨16⟩ = some .array ∧
          (capture 5 ⟨16⟩ incompleteBoxes).2.store.types.size =
            incompleteBoxes.store.types.size + 1 := by
  decide +kernel

end Session

end JavaTypes
