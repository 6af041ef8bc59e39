import JavaTypes.Proofs.StructuralEquality
import Mathlib.Data.Finset.Prod
import Mathlib.Order.Filter.AtTopBot.Basic

/-!
# Comparisons of equal handles end

A comparison that has found two handles equal has looked at all their parts: types are only finitely
deep then, while elements may still lead back to each other (`FinitelyEqual`). Relations of that sort are
kept by converses and composites. So the comparison in the other order comes to an end as well, and so
does that of the outer two of three handles, which meets pairs of elements that were never compared.

* `FinitelyEqual.eventually_known`: what is finitely equal is found equal with enough fuel, by induction
  on the pairs of elements that are not assumed yet;
* `eventually_types_symm`, `eventually_types_trans`: the comparisons in the other order, and of the outer
  two of three types.
-/

namespace JavaTypes

open Action

namespace Equality

section Depth

variable {q : Equality} {s : Store} {RE RE' : ElementId → ElementId → Prop} {depth depth' : Nat}
  {a b c : TypeId}

theorem TypesWithin.mono (hle : depth ≤ depth') (h : TypesWithin q s RE depth a b) :
    TypesWithin q s RE depth' a b := by
  induction depth generalizing a b depth' with
  | zero => cases h
  | succ depth ih =>
    obtain ⟨k, rfl⟩ : ∃ k, depth' = k + 1 := ⟨depth' - 1, by omega⟩
    obtain ⟨a', m, b', n, ha, hb, hnodes⟩ := h
    refine ⟨a', m, b', n, ha, hb, hnodes.imp_right fun h => ?_⟩
    exact h.imp (fun _ _ => ih (Nat.le_of_succ_le_succ hle)) fun _ _ => id

theorem TypesWithin.flip (h : TypesWithin q s RE depth a b) :
    TypesWithin q s (flip RE) depth b a := by
  induction depth generalizing a b with
  | zero => cases h
  | succ depth ih =>
    obtain ⟨a', m, b', n, ha, hb, hnodes⟩ := h
    refine ⟨b', n, a', m, hb, ha, hnodes.imp Eq.symm fun h => ?_⟩
    exact h.flip.imp (fun _ _ => ih) fun _ _ => id

/-- The depth of a composite is that of its parts. Where the middle type has the node of an outer one,
the relation of elements has to be contained in its composite with itself. -/
theorem TypesWithin.comp (hRE : ∀ d e, RE d e → Relation.Comp RE RE d e)
    (hab : TypesWithin q s RE depth a b) (hbc : TypesWithin q s RE depth b c) :
    TypesWithin q s (Relation.Comp RE RE) depth a c := by
  induction depth generalizing a b c with
  | zero => cases hab
  | succ depth ih =>
    refine exists_nodes_comp Store.peekType_node hab hbc
      (fun _ _ h => h.imp (fun _ _ h => h.imp hRE) hRE)
      fun _ _ _ h h' => (h.comp h').imp ?_ fun _ _ => id
    rintro x z ⟨y, hxy, hyz⟩
    exact ih hxy hyz

theorem FiniteTypes.flip (h : FiniteTypes q s RE a b) : FiniteTypes q s (flip RE) b a := by
  obtain ⟨depth, h⟩ := h
  exact ⟨depth, h.flip⟩

theorem FiniteTypes.comp (hRE : ∀ d e, RE d e → Relation.Comp RE RE d e)
    (hab : FiniteTypes q s RE a b) (hbc : FiniteTypes q s RE b c) :
    FiniteTypes q s (Relation.Comp RE RE) a c := by
  obtain ⟨i, hab⟩ := hab
  obtain ⟨j, hbc⟩ := hbc
  exact ⟨max i j, (hab.mono (Nat.le_max_left i j)).comp hRE (hbc.mono (Nat.le_max_right i j))⟩

end Depth

/-! ### Relations between elements -/

section Matching

variable {q : Equality} {s : Store} {d e : ElementId}

/-- Without assumptions, related elements denote the same node or nodes with related parts. -/
theorem FinitelyEqual.exists_nodes (h : FinitelyEqual q s [] d e) :
    ∃ d' x e' y, s.peekElement d = some (d', x) ∧ s.peekElement e = some (e', y) ∧ (d' = e' ∨
      ElementNodesAlike q s (FiniteTypes q s (FinitelyEqual q s [])) (FinitelyEqual q s []) x y) := by
  obtain ⟨d', x, e', y, hd, he, hnodes⟩ := finiteMatching_greatest h
  exact ⟨d', x, e', y, hd, he, hnodes.imp_right fun h => h.resolve_left List.not_mem_nil⟩

theorem finiteMatching_of_nodes {RE : ElementId → ElementId → Prop}
    (h : ∀ d e, RE d e → ∃ d' x e' y, s.peekElement d = some (d', x) ∧
      s.peekElement e = some (e', y) ∧ (d' = e' ∨ ElementNodesAlike q s (FiniteTypes q s RE) RE x y)) :
    FiniteMatching q s [] RE := by
  intro d e hde
  obtain ⟨d', x, e', y, hd, he, hnodes⟩ := h d e hde
  exact ⟨d', x, e', y, hd, he, hnodes.imp_right .inr⟩

theorem FinitelyEqual.symm (h : FinitelyEqual q s [] d e) : FinitelyEqual q s [] e d := by
  refine ⟨flip (FinitelyEqual q s []), finiteMatching_of_nodes fun i j hij => ?_, h⟩
  obtain ⟨j', w, i', v, hj, hi, hnodes⟩ := FinitelyEqual.exists_nodes hij
  refine ⟨i', v, j', w, hi, hj, hnodes.imp Eq.symm fun h => ?_⟩
  exact h.flip.imp (fun _ _ h => .flip h) fun _ _ => id

theorem FinitelyEqual.comp_self (h : FinitelyEqual q s [] d e) :
    Relation.Comp (FinitelyEqual q s []) (FinitelyEqual q s []) d e := by
  obtain ⟨d', x, e', y, hd, -⟩ := h.exists_nodes
  exact ⟨d, .of_nodes hd hd (.inl rfl), h⟩

theorem finiteMatching_comp : FiniteMatching q s []
    (Relation.Comp (FinitelyEqual q s []) (FinitelyEqual q s [])) := by
  have hle : ∀ d e, FinitelyEqual q s [] d e → _ := fun _ _ => FinitelyEqual.comp_self
  apply finiteMatching_of_nodes
  rintro i k ⟨j, hij, hjk⟩
  refine exists_nodes_comp Store.peekElement_node hij.exists_nodes hjk.exists_nodes
    (fun _ _ h => h.imp (fun _ _ h => h.imp hle) hle)
    fun _ _ _ h h' => (h.comp h').imp ?_ fun _ _ => id
  rintro a c ⟨b, hab, hbc⟩
  exact hab.comp hle hbc

theorem FinitelyEqual.trans {f : ElementId} (hde : FinitelyEqual q s [] d e)
    (hef : FinitelyEqual q s [] e f) : FinitelyEqual q s [] d f :=
  ⟨_, finiteMatching_comp, e, hde, hef⟩

end Matching

/-! ### Enough fuel -/

section Eventually

variable {α β : Type} {p : Nat → α → β → Prop}

open Filter

theorem eventually_atTop_of_succ {p : Nat → Prop} (h : ∀ᶠ n in atTop, p (n + 1)) :
    ∀ᶠ n in atTop, p n := by
  obtain ⟨k, hk⟩ := eventually_atTop.1 h
  refine eventually_atTop.2 ⟨k + 1, fun n hn => ?_⟩
  obtain ⟨m, rfl⟩ : ∃ m, n = m + 1 := ⟨n - 1, by omega⟩
  exact hk m (Nat.le_of_succ_le_succ hn)

theorem eventually_forall₂ {as : List α} {bs : List β}
    (h : List.Forall₂ (fun a b => ∀ᶠ n in atTop, p n a b) as bs) :
    ∀ᶠ n in atTop, List.Forall₂ (p n) as bs := by
  induction h with
  | nil => exact .of_forall fun _ => .nil
  | cons hab _ ih => exact (hab.and ih).mono fun _ h => List.Forall₂.cons h.1 h.2

theorem eventually_optionRel {a : Option α} {b : Option β}
    (h : Option.Rel (fun a b => ∀ᶠ n in atTop, p n a b) a b) :
    ∀ᶠ n in atTop, Option.Rel (p n) a b := by
  cases h with
  | some h => exact h.mono fun _ => Option.Rel.some
  | none => exact .of_forall fun _ => .none

variable {q : Equality} {s : Store} {RT : Nat → TypeId → TypeId → Prop}
  {RE : Nat → ElementId → ElementId → Prop}

theorem eventually_annotations {as bs : List AnnotationUse}
    (h : q.includeAnnotations = true → AnnotationsAlike (fun a b => ∀ᶠ n in atTop, RT n a b) as bs) :
    ∀ᶠ n in atTop, q.includeAnnotations = true → AnnotationsAlike (RT n) as bs := by
  refine eventually_imp_distrib_left.2 fun hq =>
    eventually_forall₂ (List.Forall₂.imp (fun a b hab => ?_) (h hq))
  exact hab.1.mono fun _ ht => ⟨ht, hab.2⟩

/-- Nodes have finitely many parts. -/
theorem eventually_typeNodesAlike {m n : TypeNode}
    (h : TypeNodesAlike q (fun a b => ∀ᶠ k in atTop, RT k a b)
      (fun d e => ∀ᶠ k in atTop, RE k d e) m n) :
    ∀ᶠ k in atTop, TypeNodesAlike q (RT k) (RE k) m n := by
  have helements := eventually_forall₂ (h.outlines.elements.imp fun _ _ => eventually_optionRel)
  have htypes := eventually_forall₂ (h.outlines.types.imp fun _ _ => eventually_forall₂)
  filter_upwards [eventually_annotations h.annotations, helements, htypes] with k ha he ht
  exact ⟨ha, h.outlines.isSome, h.outlines.kind, he, ht⟩

theorem eventually_elementNodesAlike {x y : ElementNode}
    (h : ElementNodesAlike q s (fun a b => ∀ᶠ k in atTop, RT k a b)
      (fun d e => ∀ᶠ k in atTop, RE k d e) x y) :
    ∀ᶠ k in atTop, ElementNodesAlike q s (RT k) (RE k) x y := by
  have henclosing : ∀ᶠ k in atTop, x.kind ≠ .package → x.kind ≠ .module →
      Option.Rel (RE k) x.enclosing y.enclosing :=
    eventually_imp_distrib_left.2 fun hp => eventually_imp_distrib_left.2 fun hm =>
      eventually_optionRel (h.enclosing hp hm)
  have hsignature : ∀ᶠ k in atTop, x.kind.isExecutable = true → SignaturesAlike s (RT k) x y := by
    refine eventually_imp_distrib_left.2 fun hx => ?_
    obtain ⟨ps, qs, hps, hqs, hrel⟩ := h.signature hx
    refine (eventually_optionRel (optionRel_imp (fun _ _ => eventually_forall₂) hrel)).mono ?_
    exact fun k hk => ⟨ps, qs, hps, hqs, hk⟩
  filter_upwards [eventually_annotations h.annotations, henclosing, hsignature] with k ha he hs
  exact ⟨h.kind, h.simpleName, ha, he, hs⟩

variable {assumed : List (ElementId × ElementId)} {a b : TypeId} {d e d' e' : ElementId}

theorem TypesWithin.eventually_known {depth : Nat} (helements : ∀ d e, FinitelyEqual q s [] d e →
      ∀ᶠ fuel in atTop, Known (q.elementsAssuming fuel assumed d e) s true)
    (h : TypesWithin q s (FinitelyEqual q s []) depth a b) :
    ∀ᶠ fuel in atTop, Known (q.typesAssuming fuel assumed a b) s true := by
  induction depth generalizing a b with
  | zero => cases h
  | succ depth ih =>
    obtain ⟨a', m, b', n, ha, hb, hnodes⟩ := h
    refine eventually_atTop_of_succ ?_
    simp only [known_typesAssuming_succ]
    rcases hnodes with rfl | halike
    · refine .of_forall fun fuel => ⟨a', m, a', n, ha, hb, ?_⟩
      rw [if_pos rfl]
      rfl
    · filter_upwards [eventually_typeNodesAlike (halike.imp (fun _ _ => ih) helements)] with fuel hfuel
      refine ⟨a', m, b', n, ha, hb, ?_⟩
      split
      · rfl
      rw [if_neg (not_not.2 halike.kind_eq)]
      exact known_typeContents_true.2 hfuel

/-- The pairs of elements of a store that are not assumed to be equal. -/
def openPairs (s : Store) (assumed : List (ElementId × ElementId)) : Finset (Nat × Nat) :=
  (.range s.elements.size ×ˢ Finset.range s.elements.size) \
    (assumed.map fun p => (p.1.index, p.2.index)).toFinset

theorem mem_openPairs {i j : Nat} : (i, j) ∈ openPairs s assumed ↔
    (i < s.elements.size ∧ j < s.elements.size) ∧ (⟨i⟩, ⟨j⟩) ∉ assumed := by
  simp only [openPairs, Finset.mem_sdiff, Finset.mem_product, Finset.mem_range, List.mem_toFinset,
    List.mem_map, Prod.mk.injEq, not_exists, not_and]
  refine and_congr_right fun _ => ⟨fun h hmem => h _ hmem rfl rfl, ?_⟩
  rintro h ⟨d, e⟩ hmem rfl rfl
  exact h hmem

theorem card_openPairs_lt (hd : d.index < s.elements.size) (he : e.index < s.elements.size)
    (hnew : (d, e) ∉ assumed) :
    (openPairs s ((d, e) :: assumed)).card < (openPairs s assumed).card := by
  refine Finset.card_lt_card (Finset.ssubset_iff_of_subset ?_ |>.2 ⟨(d.index, e.index), ?_, ?_⟩)
  · rintro ⟨i, j⟩ hp
    obtain ⟨hrange, hnot⟩ := mem_openPairs.1 hp
    exact mem_openPairs.2 ⟨hrange, fun hmem => hnot (List.mem_cons_of_mem _ hmem)⟩
  · exact mem_openPairs.2 ⟨⟨hd, he⟩, hnew⟩
  · intro hmem
    exact (mem_openPairs.1 hmem).2 List.mem_cons_self

/-- Elements that are finitely equal are found equal with enough fuel, whatever is assumed. While the
parts of a pair are compared the pair is assumed, so only finitely many pairs are opened inside one
another. -/
theorem FinitelyEqual.eventually_known (h : FinitelyEqual q s [] d e) :
    ∀ᶠ fuel in atTop, Known (q.elementsAssuming fuel assumed d e) s true := by
  induction hcard : (openPairs s assumed).card using Nat.strong_induction_on
    generalizing assumed d e with
  | _ card ih =>
    obtain ⟨d', x, e', y, hd, he, hnodes⟩ := h.exists_nodes
    refine eventually_atTop_of_succ ?_
    simp only [known_elementsAssuming_succ]
    rcases hnodes with rfl | halike
    · refine .of_forall fun fuel => ⟨d', x, d', y, hd, he, ?_⟩
      rw [if_pos rfl]
      rfl
    have hsame : ¬ (x.kind ≠ y.kind ∨ x.simpleName ≠ y.simpleName) :=
      not_or.2 ⟨not_not.2 halike.kind, not_not.2 halike.simpleName⟩
    by_cases hmem : (d', e') ∈ assumed
    · refine .of_forall fun fuel => ⟨d', x, e', y, hd, he, ?_⟩
      split <;> rfl
    have hlt := card_openPairs_lt (Store.index_lt_of_peekElement hd)
      (Store.index_lt_of_peekElement he) hmem
    have helements : ∀ i j, FinitelyEqual q s [] i j → ∀ᶠ fuel in atTop,
        Known (q.elementsAssuming fuel ((d', e') :: assumed) i j) s true :=
      fun i j hij => ih _ (hcard ▸ hlt) hij rfl
    have htypes : ∀ i j, FiniteTypes q s (FinitelyEqual q s []) i j → ∀ᶠ fuel in atTop,
        Known (q.typesAssuming fuel ((d', e') :: assumed) i j) s true := by
      rintro i j ⟨depth, hij⟩
      exact hij.eventually_known helements
    filter_upwards [eventually_elementNodesAlike (halike.imp htypes helements)] with fuel hfuel
    refine ⟨d', x, e', y, hd, he, ?_⟩
    split
    · rfl
    exact (known_elementContents_true halike.kind halike.simpleName).2 hfuel

/-! ### The other order, and composites -/

theorem FiniteTypes.eventually_known (h : FiniteTypes q s (FinitelyEqual q s []) a b) :
    ∀ᶠ fuel in atTop, Known (q.types fuel a b) s true := by
  obtain ⟨depth, h⟩ := h
  exact h.eventually_known fun _ _ => FinitelyEqual.eventually_known

variable {f g : Nat}

theorem finiteTypes_of_known (h : Known (q.types f a b) s true) :
    FiniteTypes q s (FinitelyEqual q s []) a b :=
  ⟨f, typesWithin_of_known h⟩

/-- Types that were found equal are found equal in the other order. -/
theorem eventually_types_symm (h : Known (q.types f a b) s true) :
    ∀ᶠ fuel in atTop, Known (q.types fuel b a) s true :=
  ((finiteTypes_of_known h).flip.imp fun _ _ => .symm).eventually_known

/-- The outer two of three types that were found equal in turn are found equal. -/
theorem eventually_types_trans {c : TypeId} (hab : Known (q.types f a b) s true)
    (hbc : Known (q.types g b c) s true) : ∀ᶠ fuel in atTop, Known (q.types fuel a c) s true := by
  have hac := (finiteTypes_of_known hab).comp (fun _ _ => FinitelyEqual.comp_self)
    (finiteTypes_of_known hbc)
  refine (hac.imp ?_).eventually_known
  rintro d f ⟨e, hde, hef⟩
  exact hde.trans hef

end Eventually

end Equality

end JavaTypes
