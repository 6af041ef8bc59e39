import JavaTypes.Proofs.EqualInstances
import JavaTypes.Proofs.SearchAnswers
import JavaTypes.Proofs.SortedClosures

/-!
# Searching for a supertype

The search for the supertype that a class declares goes depth first and leaves a branch that comes back
to a class. In a table of classes it follows the first path to the class, so it finds the entry that
the class has in the closure, up to equality. `Object` is the exception: the search finds it at the
first type that it is not above, without a path.

* `found_of_known_firstFound`: what is found in a list;
* `SeenAt.found`: what stands at the end of the first path is found;
* `keeps_asSuperFrom`: the search ends, unless one of the smaller questions fails.
-/

namespace JavaTypes

open Action

namespace Session

variable {S T V : Session} {C E : ElementId → Prop} {enough fuel : Nat} {A : Inquiry C enough}
  {a b : ElementId} {c k t t' u x : TypeId} {n : TypeNode} {seen : List ElementId}
  {ks : List TypeId} {r : Option TypeId}

/-! ### What a search has seen -/

section Known

variable {search : TypeId → Query (Option TypeId)} [hs : ∀ t, Settles (search t) (search t)]

include hs

/-- Something with a property is found in a list that is related to another one, if a search finds
such at the place of `j`, and the searches before it find nothing else. -/
theorem found_of_known_firstFound {P : TypeId → Prop} {R : TypeId → TypeId → Prop} {j : TypeId}
    {after : List TypeId} : ∀ {before ks : List TypeId}, List.Forall₂ R (before ++ j :: after) ks →
      Known (firstFound search ks) T r →
        (∀ i ∈ before, ∀ k ∈ ks, R i k → ∀ x, Known (search k) T (some x) → P x) →
          (∀ k ∈ ks, R j k → ∀ q, Known (search k) T q → ∃ x, q = some x ∧ P x) →
            ∃ x, r = some x ∧ P x
  | [], k :: ks, .cons hk _, h, _, hj => by
      rcases cases_of_known_firstFound h with ⟨x, hx, rfl⟩ | ⟨hnone, -⟩
      · exact hj k List.mem_cons_self hk _ hx
      · obtain ⟨x, hx, -⟩ := hj k List.mem_cons_self hk _ hnone
        cases hx
  | i :: before, k :: ks, .cons hk hks, h, hbefore, hj => by
      rcases cases_of_known_firstFound h with ⟨x, hx, rfl⟩ | ⟨-, h⟩
      · exact ⟨x, rfl, hbefore i List.mem_cons_self k List.mem_cons_self hk x hx⟩
      · exact found_of_known_firstFound hks h
          (fun i hi k' hk' => hbefore i (List.mem_cons_of_mem _ hi) k' (List.mem_cons_of_mem _ hk'))
          fun k' hk' => hj k' (List.mem_cons_of_mem _ hk')

end Known

/-! ### What is found -/

section Table

variable (H : T.ClassTable C)

include H

/-- What a search above an instance of `a` looks at is seen above `a`. -/
theorem seenAbove_of_known (hC : C a) (ha : T.IsClass t a) {above : TypeId}
    (habove : Known (supertype fuel t) T above) {q : Option TypeId}
    (hq : Known (onStore (unlessNone above)) T q) :
    (∀ k ∈ q.toList, T.SeenAbove a k) ∧
      ∀ is, Known (interfaces fuel t) T is → ∀ k ∈ is, T.SeenAbove a k := by
  have L := H.ranked.ladder
  have ht := ha.declaredIn hC
  obtain ⟨named, hknown, hsame⟩ := (L.superclassSeen hC ha ht habove).forall₂ L hq
  have hsame := hsame.imp fun _ _ h => h.1
  have hlist : T.SuperclassList fuel a t q.toList := ⟨above, q, named, habove, hq, rfl, hknown, hsame⟩
  obtain ⟨interfaces, hinterfaces⟩ := exists_known_declaredInterfaces H.ranked hC
  constructor
  · intro k hk
    obtain ⟨s, hs, hks⟩ := exists_of_forall₂_left hsame hk
    exact ⟨_, s, known_supertypesNamed.2 ⟨named, interfaces, hknown, hinterfaces, rfl⟩,
      List.mem_append_left _ hs, hks⟩
  · intro is his k hk
    obtain ⟨names, hnames, hsames⟩ := L.forall₂_of_known_interfaces hC ha ht his
    obtain ⟨_, hall, hsame'⟩ := hlist.exists_named ⟨names, hnames, hsames.imp fun _ _ h => h.1⟩
    exact seenAbove_of_mem hall hsame' (List.mem_append_right _ hk)

/-- Up to equality, a type is what was searched for, or it is `Object`. -/
def Found (T : Session) (b : ElementId) (c x : TypeId) : Prop :=
  T.TypesEqual x c ∨ T.IsObject b ∧ Known objectType T x

section Step

variable (D : T.Discerning C) {search : TypeId → Query (Option TypeId)}
  [hs : ∀ t, Settles (search t) (search t)] (hC : C a) (ha : T.IsClass t a)
  (hequal : T.TypesEqual t t') {before after : List TypeId} {j : TypeId}
  (habove : T.DirectlyAbove t (before ++ j :: after))
  (hbefore : ∀ i ∈ before, ∀ k, T.SeenAbove a k → T.TypesEqual i k →
    ∀ x, Known (search k) T (some x) → T.Found b c x)
  (hj : ∀ k, T.SeenAbove a k → T.TypesEqual j k →
    ∀ q, Known (search k) T q → ∃ x, q = some x ∧ T.Found b c x)

include D hs hC ha hequal habove hbefore hj

/-- A search above a type that equals `t` comes to the types above `t` in their order. -/
theorem found_of_known_searchAbove (h : Known (searchAbove fuel search t') T r) :
    ∃ x, r = some x ∧ T.Found b c x := by
  obtain ⟨f, above, q, is, hsuper, hq, his, hsplit⟩ := habove
  obtain ⟨above', q', hsuper', hq', hcases⟩ := cases_of_known_searchAbove h
  have ha' := H.isClass_of_equalTypes hC ha hequal
  have hseen := seenAbove_of_known H hC ha' hsuper' hq'
  have heq := typesEqual_supertype H D hC ha hequal hsuper hsuper'
  have hinterfaces : ∀ {before' is'}, is = before' ++ j :: after → (∀ i ∈ before', i ∈ before) →
      Known (interfaces fuel t') T is' → Known (firstFound search is') T r →
        ∃ x, r = some x ∧ T.Found b c x := by
    intro before' is' his₁ hsub his' hfirst
    have hall := forall₂_interfaces H D hC ha hequal his his'
    rw [his₁] at hall
    exact found_of_known_firstFound hall hfirst
      (fun i hi k hk => hbefore i (hsub i hi) k (hseen.2 is' his' k hk))
      fun k hk => hj k (hseen.2 is' his' k hk)
  obtain ⟨v, m, hv, rfl⟩ := known_unlessNone.1 hq
  obtain ⟨v', m', hv', rfl⟩ := known_unlessNone.1 hq'
  rw [← Equality.EqualTypes.kind_eq heq hv hv'] at hcases hseen
  split at hsplit
  · next hnone =>
    rw [if_pos hnone] at hcases
    rcases hcases with ⟨x, hx, -⟩ | ⟨-, is', his', hfirst⟩
    · cases hx
    · exact hinterfaces hsplit.symm (fun i hi => hi) his' hfirst
  next hsome =>
  rw [if_neg hsome] at hcases hseen
  have habove' := hseen.1 above' (by simp)
  cases before with
  | nil =>
    obtain ⟨rfl, -⟩ := List.cons.inj hsplit
    rcases hcases with ⟨x, -, hx, rfl⟩ | ⟨hnone, -⟩
    · exact hj above' habove' heq _ hx
    · obtain ⟨x, hx, -⟩ := hj above' habove' heq _ (hnone rfl)
      cases hx
  | cons i before =>
    obtain ⟨rfl, hrest⟩ := List.cons.inj hsplit
    rcases hcases with ⟨x, -, hx, rfl⟩ | ⟨-, is', his', hfirst⟩
    · exact ⟨x, rfl, hbefore i List.mem_cons_self above' habove' heq x hx⟩
    · exact hinterfaces hrest.symm (fun k hk => List.mem_cons_of_mem _ hk) his' hfirst

end Step

/-- A search finds what stands at the end of the first path, or `Object`. -/
theorem SeenAt.found (D : T.Discerning C) (h : T.SeenAt b t c) :
    ∀ {fuel : Nat} {seen : List ElementId} {t' : TypeId} {r : Option TypeId}, T.TypesEqual t t' →
      T.DeclaredIn C t' → T.Clear C seen t' → Known (asSuperFrom b fuel seen t') T r →
        ∃ x, r = some x ∧ T.Found b c x := by
  induction h with
  | here h hc =>
    intro fuel seen t' r hequal hdeclared hclear hr
    cases fuel with
    | zero => cases hr
    | succ fuel =>
      obtain ⟨u, n, a, hu, ha, hC, hcases⟩ := cases_of_known_asSuperFrom hdeclared hr
      have hsame := hequal.symm.trans h
      obtain rfl := (H.isClass_of_equalTypes hC ha hsame).unique hc
      obtain ⟨-, rfl⟩ := hcases.resolve_right fun h => h.1 rfl
      exact ⟨u, rfl, .inl ((typesEqual_of_node hu).symm.trans hsame)⟩
  | @up t k j c a before after h hk hne habove havoid hj ih =>
    intro fuel seen t' r hequal hdeclared hclear hr
    cases fuel with
    | zero => cases hr
    | succ fuel =>
      obtain ⟨u, n, a', hu, ha, hC, hcases⟩ := cases_of_known_asSuperFrom hdeclared hr
      have hkt := h.symm.trans hequal
      obtain rfl := (H.isClass_of_equalTypes hC ha hkt.symm).unique hk
      obtain ⟨-, found, hfound, hcases⟩ := hcases.resolve_left fun h => hne h.1
      have hbelow : ∀ q ∈ seen, C q → C a' ∧ Relation.TransGen T.Extends q a' := fun q hq hqC =>
        ⟨hC, (hclear q hq hqC).2 T .rfl a' ha⟩
      have hmem : a' ∉ seen := fun hmem => H.acyclic .rfl hC (hbelow a' hmem hC).2
      rw [if_neg hmem] at hfound
      have hbefore : ∀ i ∈ before, ∀ k', T.SeenAbove a' k' → T.TypesEqual i k' → ∀ y,
          Known (asSuperFrom b fuel (a' :: seen) k') T (some y) → T.Found b c y := by
        intro i hi k' hk' hik y hy
        obtain ⟨d, hd, hsurveyed, hnot⟩ := havoid i hi
        obtain ⟨d', hd', hreaches⟩ :=
          H.ranked.ladder.finds_of_known_asSuperFrom (hk'.declaredIn H.ranked hC) hy
        have hC' := H.ranked.mem_of_extends hC (hk'.extends hd')
        obtain rfl := (H.isClass_of_equalTypes hC' hd' hik.symm).unique hd
        exact hreaches.elim (fun h => absurd h.1 hnot) .inr
      obtain ⟨x, rfl, hx⟩ := found_of_known_searchAbove H D hC hk
        (hkt.trans (typesEqual_of_node hu)) habove hbefore (fun k' hk' hjk q hq =>
          ih hjk (hk'.declaredIn H.ranked hC) (clear_cons H.ranked hbelow fun _ => hk') hq) hfound
      obtain ⟨-, rfl⟩ := hcases.resolve_right fun h => nomatch h.1
      exact ⟨x, rfl, hx⟩

end Table

/-! ### The search ends -/

section Ends

theorem keeps_implicitObject : Keeps S A E True (implicitObject b) fun _ _ => True := by
  refine keeps_objectElement.bind fun T o _ _ => ?_
  split
  · have hobject : Keeps T A E True objectType fun _ _ => True :=
      (keeps_subquestion fun _ _ _ => .wellKnown).map fun _ _ _ _ => trivial
    exact hobject.map fun _ _ _ _ => trivial
  · exact keeps_pure fun _ _ => trivial

variable {search : TypeId → Query (Option TypeId)}

theorem keeps_firstFound (h : ∀ T, ∀ k ∈ ks, Later S T → Keeps T A E True (search k) fun _ _ => True) :
    Keeps S A E True (firstFound search ks) fun _ _ => True := by
  induction ks generalizing S with
  | nil => exact keeps_pure fun _ _ => trivial
  | cons k ks ih =>
    refine (h S k List.mem_cons_self .rfl).bind fun T found hT _ => ?_
    cases found with
    | some x => exact keeps_pure fun _ _ => trivial
    | none => exact ih fun U k' hk' hU => h U k' (List.mem_cons_of_mem k hk') (hT.trans hU)

theorem keeps_searchAbove (H : S.ClassTable C) (ht : A.Covers C S t) (hC : C a) (ha : S.IsClass t a)
    (hfuel : enough ≤ fuel)
    (h : ∀ T k, Later S T → T.SeenAbove a k → A.types k → Keeps T A E True (search k) fun _ _ => True) :
    Keeps S A E True (searchAbove fuel search t) fun _ _ => True := by
  refine (keeps_supertype H.ranked fun _ => ⟨ht, hfuel⟩).bind fun T above hT habove => ?_
  have hsuper := (habove T .rfl).2.1 a hC ((ha.mono hT.le).declaredIn rfl)
  have hview : Yields T (onStore (typeKind above)) fun _ _ => True :=
    .typeKind (hsuper.responds_view (H.later hT).ranked.ladder)
  refine (keeps_of_yields fun _ => hview).bind fun U kind hU hkind => ?_
  have hseen : ∀ V, Later U V → (∀ k ∈ (if kind = .noType .none then none else some above).toList,
      V.SeenAbove a k) ∧ ∀ is, Known (interfaces fuel t) V is → ∀ k ∈ is, V.SeenAbove a k :=
    fun V hV => seenAbove_of_known (H.later (hT.trans (hU.trans hV))) hC
      (ha.mono (hT.trans (hU.trans hV)).le) (habove V (hU.trans hV)).1
      (known_onStore.2 ((known_onStore.1 (hkind V hV).1).bind rfl))
  have hSU := hT.trans hU
  have hinterfaces : ∀ W, Later U W →
      Keeps W A E True (interfaces fuel t >>= firstFound search) fun _ _ => True := by
    intro W hW
    have hSW := hSU.trans hW
    refine (keeps_interfaces (H.later hSW).ranked fun _ => ⟨ht.later hSW, hfuel⟩).bind
      fun X is hX his => keeps_firstFound fun Y k hk hY => ?_
    have hUY := hW.trans (hX.trans hY)
    exact h Y k (hSU.trans hUY) ((hseen Y hUY).2 is (his Y hY).1 k hk) ((his Y hY).2.2 trivial k hk)
  split
  · exact hinterfaces U .rfl
  next hsome =>
  rw [if_neg hsome] at hseen
  refine (h U above hSU ((hseen U .rfl).1 above (by simp))
    ((habove U hU).2.2 trivial)).bind fun W found hW _ => ?_
  cases found with
  | some found => exact keeps_pure fun _ _ => trivial
  | none => exact hinterfaces W hW

/-- The search is never cut off in a table of classes, since it meets each class at most once on a
path. -/
theorem keeps_asSuperFrom : ∀ {fuel : Nat} {S : Session} {seen : List ElementId} {t : TypeId},
    S.ClassTable C → S.Clear C seen t → A.types t → S.PathFuel C enough fuel seen t →
      Keeps S A E True (asSuperFrom b fuel seen t) fun _ _ => True
  | 0, _, _, _, _, _, _, hfuel => absurd hfuel.lt (Nat.not_lt_zero _)
  | fuel + 1, S, seen, t, H, hclear, hA, hfuel => by
      rw [asSuperFrom]
      refine ((keeps_of_yields fun _ => hfuel.1.yields_kind).inside).bind fun T x hT hx => ?_
      obtain ⟨u, n⟩ := x
      have hpeek : ∀ V, Later T V → V.Shows t u n := fun V hV => shows_of_known (hx V hV).1.1
      have hdeclared := hfuel.1.later hT
      obtain ⟨U, hU, hknown⟩ := (hx T .rfl).2 trivial
      have hu : A.Covers C T u := ⟨A.completed hU hA (shows_of_known hknown),
        (sameClass_of_node (hpeek T .rfl) (hdeclared.kind_eq (hpeek T .rfl))).declaredIn hdeclared⟩
      obtain ⟨d, hd⟩ := TypeNode.shape_of_declared (hdeclared.kind_eq (hpeek T .rfl))
      unfold asSuperNode
      rw [hd]
      refine (keeps_of_yields fun _ =>
        hdeclared.yields_elementOf (hpeek T .rfl)).bind fun W own hW hown => ?_
      have hTW := hT.trans hW
      obtain ⟨a, rfl, hC, ha⟩ := (hdeclared.later hW).isClass_of_elementOf (hpeek W hW)
        (hown W .rfl).1
      unfold asSuperDeclared
      dsimp only
      split
      · exact keeps_pure fun _ _ => trivial
      have hbelow : ∀ X, Later W X → ∀ q ∈ seen, C q → C a ∧ Relation.TransGen X.Extends q a :=
        fun X hX q hq hqC =>
          ⟨hC, (hclear q hq hqC).2 X (hTW.trans hX) a (ha.mono hX.le)⟩
      have hmem : a ∉ seen := fun hmem => (H.later hTW).acyclic .rfl hC (hbelow W .rfl a hmem hC).2
      rw [if_neg hmem]
      refine (keeps_searchAbove (H.later hTW) (hu.later hW) hC (ha.of_node (hpeek W hW))
        (Nat.le_of_lt_succ hfuel.lt) fun X k hX hk hkA => ?_).bind fun X found hX _ => ?_
      · have HX := H.later (hTW.trans hX)
        exact keeps_asSuperFrom HX (clear_cons HX.ranked (hbelow X hX) fun _ => hk) hkA
          (hfuel.cons hC hmem (hk.declaredIn HX.ranked hC))
      · cases found with
        | some found => exact keeps_pure fun _ _ => trivial
        | none => exact keeps_implicitObject

end Ends

end Session

end JavaTypes
