import JavaTypes.Proofs.AnnotationValues
import JavaTypes.Proofs.Outline

/-!
# Structural equality is an equivalence relation

A comparison that meets a pair of elements again takes it to be equal. What it computes is therefore
a greatest fixed point: types and elements are equal if some pair of relations contains them in which
related nodes have related parts.

* `Matching q s assumed`: pairs of relations of that sort, where the pairs in `assumed` need no reason;
* `EqualTypes`, `EqualElements`: what the greatest such relations contain;
* `FinitelyEqual`: what a relation contains in which related elements have related parts, and types among
  them that are equal at a finite depth (`TypesWithin`). A comparison that succeeds leads there
  (`finitelyEqual_of_known`), by accumulation: a pair may be assumed while its own parts are compared
  (`FinitelyEqual.of_nodes`);
* `known_types_iff`, `known_elements_iff`: a comparison that answers says whether the two are equal. That
  the test cannot fail on equal handles is by induction on the fuel;
* the greatest relations are symmetric and transitive, since the converse of a matching pair of
  relations and the composite of two are matching again.
-/

namespace JavaTypes

open Action

/-! ### Relations between options and lists -/

section Lifting

variable {α β γ : Type} {R R' : α → β → Prop} {a : Option α} {b : Option β} {S : β → γ → Prop}
  {as : List α} {bs : List β}

theorem optionRel_imp (h : ∀ a b, R a b → R' a b) (hab : Option.Rel R a b) : Option.Rel R' a b := by
  cases hab with
  | some hab => exact .some (h _ _ hab)
  | none => exact .none

theorem optionRel_flip (hab : Option.Rel R a b) : Option.Rel (flip R) b a := by
  cases hab with
  | some hab => exact .some hab
  | none => exact .none

theorem exists_of_optionRel_left {x : α} (hab : Option.Rel R a b) (ha : a = some x) :
    ∃ y, b = some y ∧ R x y := by
  subst ha
  cases hab with
  | some hab => exact ⟨_, rfl, hab⟩

theorem exists_of_optionRel_right {y : β} (hab : Option.Rel R a b) (hb : b = some y) :
    ∃ x, a = some x ∧ R x y :=
  exists_of_optionRel_left (optionRel_flip hab) hb

theorem optionRel_comp {c : Option γ} (hab : Option.Rel R a b) (hbc : Option.Rel S b c) :
    Option.Rel (Relation.Comp R S) a c := by
  cases hab with
  | some hab =>
    cases hbc with
    | some hbc => exact .some ⟨_, hab, hbc⟩
  | none =>
    cases hbc with
    | none => exact .none

theorem forall₂_flip (h : List.Forall₂ R as bs) : List.Forall₂ (flip R) bs as :=
  .flip h

theorem forall₂_comp {cs : List γ} (h₁ : List.Forall₂ R as bs) (h₂ : List.Forall₂ S bs cs) :
    List.Forall₂ (Relation.Comp R S) as cs := by
  induction h₁ generalizing cs with
  | nil =>
    cases h₂
    exact .nil
  | cons hab _ ih =>
    cases h₂ with
    | cons hbc h₂ => exact .cons ⟨_, hab, hbc⟩ (ih h₂)

theorem exists_of_forall₂_left
    (h : List.Forall₂ R as bs) {a : α} (ha : a ∈ as) : ∃ b ∈ bs, R a b := by
  induction h with
  | nil => cases ha
  | cons hab _ ih =>
    rcases List.mem_cons.1 ha with rfl | ha
    · exact ⟨_, List.mem_cons_self, hab⟩
    · obtain ⟨b, hb, hab⟩ := ih ha
      exact ⟨b, List.mem_cons_of_mem _ hb, hab⟩

theorem exists_of_forall₂_right
    (h : List.Forall₂ R as bs) {b : β} (hb : b ∈ bs) : ∃ a ∈ as, R a b :=
  exists_of_forall₂_left (forall₂_flip h) hb

theorem forall₂_imp_of_mem (himp : ∀ a ∈ as, ∀ b ∈ bs, R a b → R' a b) (h : List.Forall₂ R as bs) :
    List.Forall₂ R' as bs := by
  induction h with
  | nil => exact .nil
  | cons hab _ ih =>
    exact .cons (himp _ List.mem_cons_self _ List.mem_cons_self hab)
      (ih fun a ha b hb => himp a (List.mem_cons_of_mem _ ha) b (List.mem_cons_of_mem _ hb))

theorem optionRel_of_forall₂_toList : ∀ {a : Option α} {b : Option β},
    List.Forall₂ R a.toList b.toList → Option.Rel R a b
  | none, none, _ => .none
  | some _, some _, .cons h _ => .some h

end Lifting

namespace Equality

/-! ### Related nodes -/

/-- Related annotations stand in the same order and have the same members. -/
def AnnotationsAlike (RT : TypeId → TypeId → Prop) (as bs : List AnnotationUse) : Prop :=
  List.Forall₂ (fun a b => RT a.type b.type ∧ AnnotationValue.sameMembers a.members b.members = true)
    as bs

/-- Two outlines of the same kind have related parts. -/
structure OutlinesAlike (RT : TypeId → TypeId → Prop) (RE : ElementId → ElementId → Prop)
    (o p : Outline) : Prop where
  isSome : o.kind.isSome = true
  kind : o.kind = p.kind
  elements : List.Forall₂ (Option.Rel RE) o.elements p.elements
  types : List.Forall₂ (List.Forall₂ RT) o.types p.types

/-- Two type nodes have related parts. -/
structure TypeNodesAlike (q : Equality) (RT : TypeId → TypeId → Prop)
    (RE : ElementId → ElementId → Prop) (m n : TypeNode) : Prop where
  annotations : q.includeAnnotations = true → AnnotationsAlike RT m.annotations n.annotations
  outlines : OutlinesAlike RT RE m.outline n.outline

/-- The parameter types of two elements are known and related. -/
def SignaturesAlike (s : Store) (RT : TypeId → TypeId → Prop) (m n : ElementNode) : Prop :=
  ∃ ps qs, Known (signature m) s ps ∧ Known (signature n) s qs ∧ Option.Rel (List.Forall₂ RT) ps qs

/-- Two element nodes have related parts. -/
structure ElementNodesAlike (q : Equality) (s : Store) (RT : TypeId → TypeId → Prop)
    (RE : ElementId → ElementId → Prop) (m n : ElementNode) : Prop where
  kind : m.kind = n.kind
  simpleName : m.simpleName = n.simpleName
  annotations : q.includeAnnotations = true → AnnotationsAlike RT m.annotations n.annotations
  enclosing : m.kind ≠ .package → m.kind ≠ .module → Option.Rel RE m.enclosing n.enclosing
  signature : m.kind.isExecutable = true → SignaturesAlike s RT m n

/-- Two handles of types are the same, or denote the same node or nodes with related parts. -/
def TypesAlike (q : Equality) (s : Store) (RT : TypeId → TypeId → Prop)
    (RE : ElementId → ElementId → Prop) (a b : TypeId) : Prop :=
  a = b ∨ ∃ a' m b' n, s.peekType a = some (a', m) ∧ s.peekType b = some (b', n) ∧
    (a' = b' ∨ TypeNodesAlike q RT RE m n)

/-- Two handles of elements are the same, or denote the same node or nodes with related parts. -/
def ElementsAlike (q : Equality) (s : Store) (RT : TypeId → TypeId → Prop)
    (RE : ElementId → ElementId → Prop) (a b : ElementId) : Prop :=
  a = b ∨ ∃ a' m b' n, s.peekElement a = some (a', m) ∧ s.peekElement b = some (b', n) ∧
    (a' = b' ∨ ElementNodesAlike q s RT RE m n)

section Operations

variable {q : Equality} {s : Store} {RT RT' : TypeId → TypeId → Prop}
  {RE RE' : ElementId → ElementId → Prop}

variable {a b : TypeId} {as bs : List AnnotationUse} {m n : TypeNode}

theorem TypeNodesAlike.kind_eq (h : TypeNodesAlike q RT RE m n) : m.kind = n.kind := by
  obtain ⟨k, hk⟩ := Option.isSome_iff_exists.1 h.outlines.isSome
  rw [TypeNode.kind_of_outline hk, TypeNode.kind_of_outline (h.outlines.kind ▸ hk)]

theorem TypesAlike.of_peek {a' b' : TypeId} (h : TypesAlike q s RT RE a b)
    (ha : s.peekType a = some (a', m)) (hb : s.peekType b = some (b', n)) :
    a' = b' ∨ TypeNodesAlike q RT RE m n := by
  rcases h with rfl | ⟨_, _, _, _, ha', hb', h⟩
  · exact .inl (congrArg Prod.fst (Option.some.inj (ha.symm.trans hb)))
  · cases ha.symm.trans ha'
    cases hb.symm.trans hb'
    exact h

theorem ElementsAlike.of_peek {a b a' b' : ElementId} {m n : ElementNode}
    (h : ElementsAlike q s RT RE a b) (ha : s.peekElement a = some (a', m))
    (hb : s.peekElement b = some (b', n)) : a' = b' ∨ ElementNodesAlike q s RT RE m n := by
  rcases h with rfl | ⟨_, _, _, _, ha', hb', h⟩
  · exact .inl (congrArg Prod.fst (Option.some.inj (ha.symm.trans hb)))
  · cases ha.symm.trans ha'
    cases hb.symm.trans hb'
    exact h

/-! Larger relations relate more. -/

theorem AnnotationsAlike.imp (ht : ∀ a b, RT a b → RT' a b)
    (h : AnnotationsAlike RT as bs) : AnnotationsAlike RT' as bs :=
  List.Forall₂.imp (fun _ _ hab => ⟨ht _ _ hab.1, hab.2⟩) h

theorem TypeNodesAlike.imp (ht : ∀ a b, RT a b → RT' a b) (he : ∀ a b, RE a b → RE' a b)
    (h : TypeNodesAlike q RT RE m n) : TypeNodesAlike q RT' RE' m n where
  annotations hq := (h.annotations hq).imp ht
  outlines :=
    { isSome := h.outlines.isSome
      kind := h.outlines.kind
      elements := h.outlines.elements.imp fun _ _ => optionRel_imp he
      types := h.outlines.types.imp fun _ _ => .imp ht }

theorem ElementNodesAlike.imp (ht : ∀ a b, RT a b → RT' a b) (he : ∀ a b, RE a b → RE' a b)
    {m n : ElementNode} (h : ElementNodesAlike q s RT RE m n) :
    ElementNodesAlike q s RT' RE' m n where
  kind := h.kind
  simpleName := h.simpleName
  annotations hq := (h.annotations hq).imp ht
  enclosing hp hm := optionRel_imp he (h.enclosing hp hm)
  signature hx := by
    obtain ⟨ps, qs, hps, hqs, hrel⟩ := h.signature hx
    exact ⟨ps, qs, hps, hqs, optionRel_imp (fun _ _ => .imp ht) hrel⟩

theorem TypesAlike.imp (ht : ∀ a b, RT a b → RT' a b) (he : ∀ a b, RE a b → RE' a b)
    (h : TypesAlike q s RT RE a b) : TypesAlike q s RT' RE' a b := by
  rcases h with rfl | ⟨a', m, b', n, ha, hb, h⟩
  · exact .inl rfl
  · exact .inr ⟨a', m, b', n, ha, hb, h.imp_right fun h => h.imp ht he⟩

theorem ElementsAlike.imp (ht : ∀ a b, RT a b → RT' a b) (he : ∀ a b, RE a b → RE' a b)
    {a b : ElementId} (h : ElementsAlike q s RT RE a b) : ElementsAlike q s RT' RE' a b := by
  rcases h with rfl | ⟨a', m, b', n, ha, hb, h⟩
  · exact .inl rfl
  · exact .inr ⟨a', m, b', n, ha, hb, h.imp_right fun h => h.imp ht he⟩

/-! The converse relations. -/

theorem AnnotationsAlike.flip (h : AnnotationsAlike RT as bs) : AnnotationsAlike (flip RT) bs as :=
  (forall₂_flip h).imp fun _ _ hab => ⟨hab.1, AnnotationValue.sameMembers_symm hab.2⟩

theorem TypeNodesAlike.flip (h : TypeNodesAlike q RT RE m n) :
    TypeNodesAlike q (flip RT) (flip RE) n m where
  annotations hq := (h.annotations hq).flip
  outlines :=
    { isSome := h.outlines.kind ▸ h.outlines.isSome
      kind := h.outlines.kind.symm
      elements := (forall₂_flip h.outlines.elements).imp fun _ _ => optionRel_flip
      types := (forall₂_flip h.outlines.types).imp fun _ _ => forall₂_flip }

theorem ElementNodesAlike.flip {m n : ElementNode} (h : ElementNodesAlike q s RT RE m n) :
    ElementNodesAlike q s (flip RT) (flip RE) n m where
  kind := h.kind.symm
  simpleName := h.simpleName.symm
  annotations hq := (h.annotations hq).flip
  enclosing hp hm := optionRel_flip (h.enclosing (h.kind ▸ hp) (h.kind ▸ hm))
  signature hx := by
    obtain ⟨ps, qs, hps, hqs, hrel⟩ := h.signature (h.kind ▸ hx)
    exact ⟨qs, ps, hqs, hps, optionRel_imp (fun _ _ => forall₂_flip) (optionRel_flip hrel)⟩

theorem TypesAlike.flip (h : TypesAlike q s RT RE a b) : TypesAlike q s (flip RT) (flip RE) b a := by
  rcases h with rfl | ⟨a', m, b', n, ha, hb, h⟩
  · exact .inl rfl
  · exact .inr ⟨b', n, a', m, hb, ha, h.imp Eq.symm TypeNodesAlike.flip⟩

theorem ElementsAlike.flip {a b : ElementId} (h : ElementsAlike q s RT RE a b) :
    ElementsAlike q s (flip RT) (flip RE) b a := by
  rcases h with rfl | ⟨a', m, b', n, ha, hb, h⟩
  · exact .inl rfl
  · exact .inr ⟨b', n, a', m, hb, ha, h.imp Eq.symm ElementNodesAlike.flip⟩

/-! Composites. -/

theorem AnnotationsAlike.comp {cs : List AnnotationUse} (h₁ : AnnotationsAlike RT as bs)
    (h₂ : AnnotationsAlike RT' bs cs) : AnnotationsAlike (Relation.Comp RT RT') as cs := by
  refine (forall₂_comp h₁ h₂).imp ?_
  rintro a c ⟨b, hab, hbc⟩
  exact ⟨⟨b.type, hab.1, hbc.1⟩, AnnotationValue.sameMembers_trans hab.2 hbc.2⟩

theorem TypeNodesAlike.comp {o : TypeNode} (h₁ : TypeNodesAlike q RT RE m n)
    (h₂ : TypeNodesAlike q RT' RE' n o) :
    TypeNodesAlike q (Relation.Comp RT RT') (Relation.Comp RE RE') m o where
  annotations hq := (h₁.annotations hq).comp (h₂.annotations hq)
  outlines :=
    { isSome := h₁.outlines.isSome
      kind := h₁.outlines.kind.trans h₂.outlines.kind
      elements := (forall₂_comp h₁.outlines.elements h₂.outlines.elements).imp
        fun _ _ ⟨_, hab, hbc⟩ => optionRel_comp hab hbc
      types := (forall₂_comp h₁.outlines.types h₂.outlines.types).imp
        fun _ _ ⟨_, hab, hbc⟩ => forall₂_comp hab hbc }

theorem ElementNodesAlike.comp {m n o : ElementNode} (h₁ : ElementNodesAlike q s RT RE m n)
    (h₂ : ElementNodesAlike q s RT' RE' n o) :
    ElementNodesAlike q s (Relation.Comp RT RT') (Relation.Comp RE RE') m o where
  kind := h₁.kind.trans h₂.kind
  simpleName := h₁.simpleName.trans h₂.simpleName
  annotations hq := (h₁.annotations hq).comp (h₂.annotations hq)
  enclosing hp hm :=
    optionRel_comp (h₁.enclosing hp hm) (h₂.enclosing (h₁.kind ▸ hp) (h₁.kind ▸ hm))
  signature hx := by
    obtain ⟨ps, qs, hps, hqs, hrel⟩ := h₁.signature hx
    obtain ⟨qs', rs, hqs', hrs, hrel'⟩ := h₂.signature (h₁.kind ▸ hx)
    obtain rfl := hqs.unique hqs'
    refine ⟨ps, rs, hps, hrs, optionRel_imp ?_ (optionRel_comp hrel hrel')⟩
    rintro as cs ⟨bs, hab, hbc⟩
    exact forall₂_comp hab hbc

/-- Two pairs of handles compose whose nodes do. The node in the middle is the same for both. -/
theorem exists_nodes_comp {ι ν : Type} {peek : ι → Option (ι × ν)} {N N' : ν → ν → Prop} {a b c : ι}
    (hnode : ∀ {a b c : ι} {x y : ν}, peek a = some (c, x) → peek b = some (c, y) → x = y)
    (hab : ∃ a' x b' y, peek a = some (a', x) ∧ peek b = some (b', y) ∧ (a' = b' ∨ N x y))
    (hbc : ∃ b' y c' z, peek b = some (b', y) ∧ peek c = some (c', z) ∧ (b' = c' ∨ N y z))
    (himp : ∀ x y, N x y → N' x y) (hcomp : ∀ x y z, N x y → N y z → N' x z) :
    ∃ a' x c' z, peek a = some (a', x) ∧ peek c = some (c', z) ∧ (a' = c' ∨ N' x z) := by
  obtain ⟨a', x, b', y, ha, hb, hab⟩ := hab
  obtain ⟨b'', y', c', z, hb', hc, hbc⟩ := hbc
  obtain ⟨rfl, rfl⟩ := Prod.mk.inj (Option.some.inj (hb.symm.trans hb'))
  refine ⟨a', x, c', z, ha, hc, ?_⟩
  rcases hab with rfl | hab
  · obtain rfl := hnode ha hb
    exact hbc.imp_right (himp _ _)
  · rcases hbc with rfl | hbc
    · obtain rfl := hnode hb hc
      exact .inr (himp _ _ hab)
    · exact .inr (hcomp _ _ _ hab hbc)

theorem TypesAlike.comp (ht : ∀ a, RT a a) (he : ∀ a, RE a a) {c : TypeId}
    (hab : TypesAlike q s RT RE a b) (hbc : TypesAlike q s RT RE b c) :
    TypesAlike q s (Relation.Comp RT RT) (Relation.Comp RE RE) a c := by
  have ht' : ∀ x y, RT x y → Relation.Comp RT RT x y := fun x _ h => ⟨x, ht x, h⟩
  have he' : ∀ x y, RE x y → Relation.Comp RE RE x y := fun x _ h => ⟨x, he x, h⟩
  rcases hab with rfl | hab
  · exact hbc.imp ht' he'
  rcases hbc with rfl | hbc
  · exact TypesAlike.imp ht' he' (.inr hab)
  exact .inr (exists_nodes_comp Store.peekType_node hab hbc (fun _ _ h => h.imp ht' he')
    fun _ _ _ h h' => h.comp h')

theorem ElementsAlike.comp (ht : ∀ a, RT a a) (he : ∀ a, RE a a) {a b c : ElementId}
    (hab : ElementsAlike q s RT RE a b) (hbc : ElementsAlike q s RT RE b c) :
    ElementsAlike q s (Relation.Comp RT RT) (Relation.Comp RE RE) a c := by
  have ht' : ∀ x y, RT x y → Relation.Comp RT RT x y := fun x _ h => ⟨x, ht x, h⟩
  have he' : ∀ x y, RE x y → Relation.Comp RE RE x y := fun x _ h => ⟨x, he x, h⟩
  rcases hab with rfl | hab
  · exact hbc.imp ht' he'
  rcases hbc with rfl | hbc
  · exact ElementsAlike.imp ht' he' (.inr hab)
  exact .inr (exists_nodes_comp Store.peekElement_node hab hbc (fun _ _ h => h.imp ht' he')
    fun _ _ _ h h' => h.comp h')

end Operations

/-! ### Matching relations -/

/-- Two relations in which related handles are alike. Elements may also be related because they
denote a pair of nodes in `assumed`. -/
structure Matching (q : Equality) (s : Store) (assumed : List (ElementId × ElementId))
    (RT : TypeId → TypeId → Prop) (RE : ElementId → ElementId → Prop) : Prop where
  types : ∀ {a b}, RT a b → TypesAlike q s RT RE a b
  elements : ∀ {a b}, RE a b → ElementsAlike q s RT RE a b ∨
    ∃ a' m b' n, s.peekElement a = some (a', m) ∧ s.peekElement b = some (b', n) ∧
      (a', b') ∈ assumed

/-- Two types are related by matching relations. -/
def EqualTypes (q : Equality) (s : Store) (assumed : List (ElementId × ElementId))
    (a b : TypeId) : Prop :=
  ∃ RT RE, Matching q s assumed RT RE ∧ RT a b

/-- Two elements are related by matching relations. -/
def EqualElements (q : Equality) (s : Store) (assumed : List (ElementId × ElementId))
    (a b : ElementId) : Prop :=
  ∃ RT RE, Matching q s assumed RT RE ∧ RE a b

section Greatest

variable {q : Equality} {s : Store} {assumed : List (ElementId × ElementId)}
  {RT : TypeId → TypeId → Prop} {RE : ElementId → ElementId → Prop}

variable {a a' b b' : ElementId} {m n : ElementNode}

theorem Matching.le_types (h : Matching q s assumed RT RE) (a b : TypeId) (hab : RT a b) :
    EqualTypes q s assumed a b :=
  ⟨RT, RE, h, hab⟩

theorem Matching.le_elements (h : Matching q s assumed RT RE) (a b : ElementId) (hab : RE a b) :
    EqualElements q s assumed a b :=
  ⟨RT, RE, h, hab⟩

/-- The greatest relations match. -/
theorem matching_greatest :
    Matching q s assumed (EqualTypes q s assumed) (EqualElements q s assumed) where
  types := by
    rintro a b ⟨RT, RE, h, hab⟩
    exact (h.types hab).imp h.le_types h.le_elements
  elements := by
    rintro a b ⟨RT, RE, h, hab⟩
    exact (h.elements hab).imp_left fun hab => hab.imp h.le_types h.le_elements

/-- What is alike by the greatest relations is in them. -/
theorem EqualTypes.of_alike {a b : TypeId}
    (h : TypesAlike q s (EqualTypes q s assumed) (EqualElements q s assumed) a b) :
    EqualTypes q s assumed a b := by
  -- The greatest relations with the pair added are matching again.
  have hle : ∀ x y, EqualTypes q s assumed x y →
      (x = a ∧ y = b) ∨ EqualTypes q s assumed x y := fun _ _ hxy => .inr hxy
  refine ⟨fun x y => (x = a ∧ y = b) ∨ EqualTypes q s assumed x y, EqualElements q s assumed,
    ⟨?_, ?_⟩, .inl ⟨rfl, rfl⟩⟩
  · rintro x y (⟨rfl, rfl⟩ | hxy)
    · exact h.imp hle fun _ _ => id
    · exact (matching_greatest.types hxy).imp hle fun _ _ => id
  · intro x y hxy
    exact (matching_greatest.elements hxy).imp_left fun hxy => hxy.imp hle fun _ _ => id

theorem EqualElements.of_alike
    (h : ElementsAlike q s (EqualTypes q s assumed) (EqualElements q s assumed) a b) :
    EqualElements q s assumed a b := by
  have hle : ∀ x y, EqualElements q s assumed x y →
      (x = a ∧ y = b) ∨ EqualElements q s assumed x y := fun _ _ hxy => .inr hxy
  refine ⟨EqualTypes q s assumed, fun x y => (x = a ∧ y = b) ∨ EqualElements q s assumed x y,
    ⟨?_, ?_⟩, .inl ⟨rfl, rfl⟩⟩
  · intro x y hxy
    exact (matching_greatest.types hxy).imp (fun _ _ => id) hle
  · rintro x y (⟨rfl, rfl⟩ | hxy)
    · exact .inl (h.imp (fun _ _ => id) hle)
    · exact (matching_greatest.elements hxy).imp_left fun hxy => hxy.imp (fun _ _ => id) hle

/-- Without assumptions, related elements are alike. -/
theorem EqualElements.alike (h : EqualElements q s [] a b) :
    ElementsAlike q s (EqualTypes q s []) (EqualElements q s []) a b := by
  rcases matching_greatest.elements h with h | ⟨_, _, _, _, _, _, hmem⟩
  · exact h
  · cases hmem

theorem EqualTypes.refl (a : TypeId) : EqualTypes q s assumed a a :=
  .of_alike (.inl rfl)

theorem EqualElements.refl (a : ElementId) : EqualElements q s assumed a a :=
  .of_alike (.inl rfl)

end Greatest

/-! ### Symmetry and transitivity -/

section Laws

variable {q : Equality} {s : Store}

theorem matching_flip :
    Matching q s [] (flip (EqualTypes q s [])) (flip (EqualElements q s [])) where
  types h := (matching_greatest.types h).flip
  elements h := .inl (EqualElements.alike h).flip

theorem EqualTypes.symm {a b : TypeId} (h : EqualTypes q s [] a b) : EqualTypes q s [] b a :=
  matching_flip.le_types b a h

theorem EqualElements.symm {a b : ElementId} (h : EqualElements q s [] a b) :
    EqualElements q s [] b a :=
  matching_flip.le_elements b a h

theorem matching_comp : Matching q s [] (Relation.Comp (EqualTypes q s []) (EqualTypes q s []))
      (Relation.Comp (EqualElements q s []) (EqualElements q s [])) where
  types := by
    rintro a c ⟨b, hab, hbc⟩
    exact (matching_greatest.types hab).comp EqualTypes.refl EqualElements.refl
      (matching_greatest.types hbc)
  elements := by
    rintro a c ⟨b, hab, hbc⟩
    exact .inl (hab.alike.comp EqualTypes.refl EqualElements.refl hbc.alike)

theorem EqualTypes.trans {a b c : TypeId} (h₁ : EqualTypes q s [] a b)
    (h₂ : EqualTypes q s [] b c) : EqualTypes q s [] a c :=
  matching_comp.le_types a c ⟨b, h₁, h₂⟩

theorem EqualElements.trans {a b c : ElementId} (h₁ : EqualElements q s [] a b)
    (h₂ : EqualElements q s [] b c) : EqualElements q s [] a c :=
  matching_comp.le_elements a c ⟨b, h₁, h₂⟩

end Laws

/-! ### Nodes of equal handles -/

section Nodes

variable {q : Equality} {s t : Store} {a b a' b' : TypeId} {m n : TypeNode}
  {assumed : List (ElementId × ElementId)}

/-- A handle equals the handle of its node. -/
theorem EqualTypes.of_node (h : s.peekType a = some (a', m)) : EqualTypes q s assumed a a' :=
  .of_alike (.inr ⟨a', m, a', m, h, Store.peekType_self h, .inl rfl⟩)

theorem EqualElements.of_node {d e : ElementId}
    {x : ElementNode} (h : s.peekElement d = some (e, x)) : EqualElements q s assumed d e :=
  .of_alike (.inr ⟨e, x, e, x, h, Store.peekElement_self h, .inl rfl⟩)

/-- What equals a completed type is completed, and has the same node or a node of alike parts. -/
theorem EqualTypes.exists_peek (h : EqualTypes q s [] a b) (ha : s.peekType a = some (a', m)) :
    ∃ b' n, s.peekType b = some (b', n) ∧
      (a' = b' ∧ m = n ∨ TypeNodesAlike q (EqualTypes q s []) (EqualElements q s []) m n) := by
  rcases matching_greatest.types h with rfl | ⟨a'', m', b', n, ha', hb, hnodes⟩
  · exact ⟨a', m, ha, .inl ⟨rfl, rfl⟩⟩
  · cases ha.symm.trans ha'
    refine ⟨b', n, hb, hnodes.imp_left ?_⟩
    rintro rfl
    exact ⟨rfl, Store.peekType_node ha hb⟩

theorem EqualTypes.kind_eq (h : EqualTypes q s [] a b) (ha : s.peekType a = some (a', m))
    (hb : s.peekType b = some (b', n)) : m.kind = n.kind := by
  obtain ⟨b'', n', hb', hnodes⟩ := h.exists_peek ha
  cases hb.symm.trans hb'
  rcases hnodes with ⟨-, rfl⟩ | hnodes
  · rfl
  · exact hnodes.kind_eq

/-- The greatest relations of a store match in every store that knows more. -/
theorem matching_mono (hle : s ≤ t) :
    Matching q t [] (EqualTypes q s []) (EqualElements q s []) where
  types h := by
    refine (matching_greatest.types h).imp_right ?_
    rintro ⟨a', m, b', n, ha, hb, hnodes⟩
    exact ⟨a', m, b', n, peekType_mono hle ha, peekType_mono hle hb, hnodes⟩
  elements h := by
    refine .inl (h.alike.imp_right ?_)
    rintro ⟨a', m, b', n, ha, hb, hnodes⟩
    refine ⟨a', m, b', n, peekElement_mono hle ha, peekElement_mono hle hb, hnodes.imp_right ?_⟩
    intro hnodes
    refine { hnodes with signature := fun hx => ?_ }
    obtain ⟨ps, qs, hps, hqs, hrel⟩ := hnodes.signature hx
    exact ⟨ps, qs, hps.mono hle, hqs.mono hle, hrel⟩

theorem EqualTypes.mono (h : EqualTypes q s [] a b) (hle : s ≤ t) : EqualTypes q t [] a b :=
  (matching_mono hle).le_types a b h

end Nodes

/-! ### Relations of finite depth -/

/-- Two types are equal as far as so many levels of parts show, and no part is deeper than that. -/
def TypesWithin (q : Equality) (s : Store) (RE : ElementId → ElementId → Prop) :
    Nat → TypeId → TypeId → Prop
  | 0, _, _ => False
  | depth + 1, a, b => ∃ a' m b' n, s.peekType a = some (a', m) ∧ s.peekType b = some (b', n) ∧
      (a' = b' ∨ TypeNodesAlike q (TypesWithin q s RE depth) RE m n)

/-- Two types are equal at some finite depth. -/
def FiniteTypes (q : Equality) (s : Store) (RE : ElementId → ElementId → Prop) (a b : TypeId) : Prop :=
  ∃ depth, TypesWithin q s RE depth a b

/-- A relation in which related elements denote the same node, a pair of nodes in `assumed`, or nodes
with related parts, the types among them of finite depth. -/
def FiniteMatching (q : Equality) (s : Store) (assumed : List (ElementId × ElementId))
    (RE : ElementId → ElementId → Prop) : Prop :=
  ∀ {d e}, RE d e → ∃ d' x e' y, s.peekElement d = some (d', x) ∧ s.peekElement e = some (e', y) ∧
    (d' = e' ∨ (d', e') ∈ assumed ∨ ElementNodesAlike q s (FiniteTypes q s RE) RE x y)

/-- Two elements are related by such a relation. -/
def FinitelyEqual (q : Equality) (s : Store) (assumed : List (ElementId × ElementId))
    (d e : ElementId) : Prop :=
  ∃ RE, FiniteMatching q s assumed RE ∧ RE d e

section Finite

variable {q : Equality} {s : Store} {assumed : List (ElementId × ElementId)}
  {RE RE' : ElementId → ElementId → Prop} {a b : TypeId} {d e d' e' : ElementId} {x y : ElementNode}

theorem TypesWithin.imp (he : ∀ d e, RE d e → RE' d e) {depth : Nat} (h : TypesWithin q s RE depth a b) :
    TypesWithin q s RE' depth a b := by
  induction depth generalizing a b with
  | zero => cases h
  | succ depth ih =>
    obtain ⟨a', m, b', n, ha, hb, hnodes⟩ := h
    exact ⟨a', m, b', n, ha, hb, hnodes.imp_right fun h => h.imp (fun _ _ => ih) he⟩

theorem FiniteTypes.imp (he : ∀ d e, RE d e → RE' d e) (h : FiniteTypes q s RE a b) :
    FiniteTypes q s RE' a b := by
  obtain ⟨depth, h⟩ := h
  exact ⟨depth, h.imp he⟩

theorem finiteMatching_greatest : FiniteMatching q s assumed (FinitelyEqual q s assumed) := by
  rintro d e ⟨RE, hmatching, hde⟩
  have hle : ∀ d e, RE d e → FinitelyEqual q s assumed d e := fun _ _ h => ⟨RE, hmatching, h⟩
  obtain ⟨d', x, e', y, hd, he, hnodes⟩ := hmatching hde
  refine ⟨d', x, e', y, hd, he, hnodes.imp_right fun h => h.imp_right fun h => ?_⟩
  exact h.imp (fun _ _ h => h.imp hle) hle

/-- What two elements need to be related: the same node, an assumption, or related parts, where the pair
itself may be assumed while its parts are compared. -/
theorem FinitelyEqual.of_nodes (hd : s.peekElement d = some (d', x))
    (he : s.peekElement e = some (e', y))
    (h : d' = e' ∨ (d', e') ∈ assumed ∨
      ElementNodesAlike q s (FiniteTypes q s (FinitelyEqual q s ((d', e') :: assumed)))
        (FinitelyEqual q s ((d', e') :: assumed)) x y) :
    FinitelyEqual q s assumed d e := by
  -- The greatest relation that may assume the pair, with the pair added.
  let RE := fun i j => (i = d ∧ j = e) ∨ FinitelyEqual q s ((d', e') :: assumed) i j
  have hle : ∀ i j, FinitelyEqual q s ((d', e') :: assumed) i j → RE i j := fun _ _ => .inr
  have hpair : d' = e' ∨ (d', e') ∈ assumed ∨ ElementNodesAlike q s (FiniteTypes q s RE) RE x y :=
    h.imp_right fun h => h.imp_right fun h => h.imp (fun _ _ h => h.imp hle) hle
  refine ⟨RE, ?_, .inl ⟨rfl, rfl⟩⟩
  rintro i j (⟨rfl, rfl⟩ | hij)
  · exact ⟨d', x, e', y, hd, he, hpair⟩
  obtain ⟨i', v, j', w, hi, hj, hnodes⟩ := finiteMatching_greatest hij
  refine ⟨i', v, j', w, hi, hj, ?_⟩
  rcases hnodes with heq | hmem | hnodes
  · exact .inl heq
  · rcases List.mem_cons.1 hmem with heq | hmem
    · obtain ⟨rfl, rfl⟩ := Prod.mk.inj heq
      obtain rfl := Store.peekElement_node hi hd
      obtain rfl := Store.peekElement_node hj he
      exact hpair
    · exact .inr (.inl hmem)
  · exact .inr (.inr (hnodes.imp (fun _ _ h => h.imp hle) hle))

/-- Such a relation and the types that are equal by it match. -/
theorem FiniteMatching.matching (h : FiniteMatching q s assumed RE) :
    Matching q s assumed (FiniteTypes q s RE) RE where
  types := by
    rintro a b ⟨_ | depth, hab⟩
    · cases hab
    · obtain ⟨a', m, b', n, ha, hb, hnodes⟩ := hab
      refine .inr ⟨a', m, b', n, ha, hb, hnodes.imp_right fun h => ?_⟩
      exact h.imp (fun _ _ h => ⟨depth, h⟩) fun _ _ => id
  elements := by
    intro d e hde
    obtain ⟨d', x, e', y, hd, he, heq | hmem | hnodes⟩ := h hde
    · exact .inl (.inr ⟨d', x, e', y, hd, he, .inl heq⟩)
    · exact .inr ⟨d', x, e', y, hd, he, hmem⟩
    · exact .inl (.inr ⟨d', x, e', y, hd, he, .inr hnodes⟩)

end Finite

/-! ### What the comparisons compute -/

theorem certain_annotations {σ : Type} [Evolving σ] {s : σ} {types : TypeId → TypeId → Action σ Bool}
    [st : ∀ a b, Settles (types a b) (types a b)] {as bs : List AnnotationUse}
    (h : AnnotationsAlike (fun a b => Certain (types a b) s) as bs) :
    Certain (sameAnnotations types as bs) s := by
  refine certain_sameLists (List.Forall₂.imp (fun a b hab => ?_) h)
  refine Certain.both hab.1 ?_
  rw [hab.2]
  exact certain_true

section Contents

variable {q : Equality} {s : Store} {types : TypeId → TypeId → Build Bool}
  {elements : ElementId → ElementId → Build Bool}
  [st : ∀ a b, Settles (types a b) (types a b)]
  [se : ∀ a b, Settles (elements a b) (elements a b)]

include st

theorem known_annotations_true {as bs : List AnnotationUse} :
    Known (sameAnnotations types as bs) s true ↔
      AnnotationsAlike (fun a b => Known (types a b) s true) as bs := by
  simp only [sameAnnotations, known_sameLists_true, known_both_true, known_pure, AnnotationsAlike,
    eq_comm]

theorem known_annotationParts_true {as bs : List AnnotationUse} :
    Known (if q.includeAnnotations then sameAnnotations types as bs else pure true) s true ↔
      (q.includeAnnotations = true → AnnotationsAlike (fun a b => Known (types a b) s true) as bs) := by
  split
  · next hq => exact known_annotations_true.trans ⟨fun h _ => h, fun h => h hq⟩
  · next hq => exact ⟨fun _ h => absurd h hq, fun _ => known_pure.2 rfl⟩

include se

theorem known_typeContents_true {m n : TypeNode} :
    Known (q.typeContents types elements m n) s true ↔
      TypeNodesAlike q (fun a b => Known (types a b) s true)
        (fun a b => Known (elements a b) s true) m n := by
  rw [typeContents, known_both_true, known_annotationParts_true, sameTypeParts_eq, sameOutlines]
  constructor
  · rintro ⟨ha, hp⟩
    split at hp
    · next hk =>
      obtain ⟨he, ht⟩ := known_both_true.1 hp
      exact ⟨ha, hk.1, hk.2, (known_allPairs_true.1 he).imp fun _ _ => known_sameOptions_true.1,
        (known_allPairs_true.1 ht).imp fun _ _ => known_sameLists_true.1⟩
    · exact absurd (known_pure.1 hp) (by decide)
  · rintro ⟨ha, hsome, hkind, he, ht⟩
    rw [if_pos ⟨hsome, hkind⟩]
    exact ⟨ha, known_both_true.2
      ⟨known_allPairs_true.2 (he.imp fun _ _ => known_sameOptions_true.2),
        known_allPairs_true.2 (ht.imp fun _ _ => known_sameLists_true.2)⟩⟩

theorem certain_typeContents {m n : TypeNode}
    (h : TypeNodesAlike q (fun a b => Certain (types a b) s)
      (fun a b => Certain (elements a b) s) m n) :
    Certain (q.typeContents types elements m n) s := by
  refine .both ?_ ?_
  · split
    · next hq => exact certain_annotations (h.annotations hq)
    · exact certain_true
  · rw [sameTypeParts_eq, sameOutlines, if_pos ⟨h.outlines.isSome, h.outlines.kind⟩]
    exact .both (certain_allPairs (h.outlines.elements.imp fun _ _ => certain_sameOptions))
      (certain_allPairs (h.outlines.types.imp fun _ _ => certain_sameLists))

theorem known_elementContents_true {m n : ElementNode} (hk : m.kind = n.kind)
    (hn : m.simpleName = n.simpleName) :
    Known (q.elementContents types elements m n) s true ↔
      ElementNodesAlike q s (fun a b => Known (types a b) s true)
        (fun a b => Known (elements a b) s true) m n := by
  rw [elementContents, known_both_true, known_annotationParts_true, sameElementParts]
  constructor
  · rintro ⟨ha, hp⟩
    split at hp
    · next hpkg => exact ⟨hk, hn, ha, fun h => absurd hpkg h, fun h => by rw [hpkg] at h; cases h⟩
    · next hmod => exact ⟨hk, hn, ha, fun _ h => absurd hmod h, fun h => by rw [hmod] at h; cases h⟩
    · obtain ⟨he, hs⟩ := known_both_true.1 hp
      obtain ⟨ps, hps, hs⟩ := known_bind.1 hs
      obtain ⟨qs, hqs, hs⟩ := known_bind.1 hs
      exact ⟨hk, hn, ha, fun _ _ => known_sameOptions_true.1 he, fun _ => ⟨ps, qs, hps, hqs,
        optionRel_imp (fun _ _ => known_sameLists_true.1) (known_sameOptions_true.1 hs)⟩⟩
    · next hx =>
      refine ⟨hk, hn, ha, fun _ _ => known_sameOptions_true.1 hp, fun h => ?_⟩
      cases hm : m.kind with
      | executable k => exact absurd hm (hx k)
      | _ => rw [hm] at h; cases h
  · intro h
    refine ⟨h.annotations, ?_⟩
    split
    · rfl
    · rfl
    · next k hx =>
      have henclosing := h.enclosing (by rw [hx]; simp) (by rw [hx]; simp)
      obtain ⟨ps, qs, hps, hqs, hrel⟩ := h.signature (by rw [hx]; rfl)
      refine known_both_true.2 ⟨known_sameOptions_true.2 henclosing, hps.bind (hqs.bind ?_)⟩
      exact known_sameOptions_true.2 (optionRel_imp (fun _ _ => known_sameLists_true.2) hrel)
    · next hp hm _ => exact known_sameOptions_true.2 (h.enclosing hp hm)

theorem certain_elementContents {m n : ElementNode}
    (h : ElementNodesAlike q s (fun a b => Certain (types a b) s)
      (fun a b => Certain (elements a b) s) m n) :
    Certain (q.elementContents types elements m n) s := by
  refine .both ?_ ?_
  · split
    · next hq => exact certain_annotations (h.annotations hq)
    · exact certain_true
  · unfold sameElementParts
    split
    · exact certain_true
    · exact certain_true
    · next k hk =>
      have he := h.enclosing (by rw [hk]; simp) (by rw [hk]; simp)
      obtain ⟨ps, qs, hps, hqs, hrel⟩ := h.signature (by rw [hk]; rfl)
      refine .both (certain_sameOptions he) ?_
      intro b hb
      obtain ⟨ps', hps', hb⟩ := known_bind.1 hb
      obtain ⟨qs', hqs', hb⟩ := known_bind.1 hb
      obtain rfl := hps.unique hps'
      obtain rfl := hqs.unique hqs'
      exact certain_sameOptions (optionRel_imp (fun _ _ => certain_sameLists) hrel) b hb
    · next hp hm _ => exact certain_sameOptions (h.enclosing hp hm)

end Contents

section Comparisons

variable {q : Equality} {s : Store}

variable {a b : TypeId} {fuel : Nat} {r : Bool} {assumed : List (ElementId × ElementId)}

/-- A comparison of types that answers has found both nodes. -/
theorem known_typesAssuming_succ : Known (q.typesAssuming (fuel + 1) assumed a b) s r ↔
      ∃ a' m b' n, s.peekType a = some (a', m) ∧ s.peekType b = some (b', n) ∧
        Known (if a' = b' then pure true else if m.kind ≠ n.kind then pure false else
          q.typeContents (q.typesAssuming fuel assumed) (q.elementsAssuming fuel assumed) m n) s r := by
  rw [typesAssuming_succ]
  simp only [known_bind, known_viewType, Prod.exists, exists_and_left]

/-- A comparison of elements that answers has found both nodes. -/
theorem known_elementsAssuming_succ {a b : ElementId} :
    Known (q.elementsAssuming (fuel + 1) assumed a b) s r ↔
      ∃ a' m b' n, s.peekElement a = some (a', m) ∧ s.peekElement b = some (b', n) ∧
        Known (if a' = b' then pure true
          else if m.kind ≠ n.kind ∨ m.simpleName ≠ n.simpleName then pure false
          else if (a', b') ∈ assumed then pure true
          else q.elementContents (q.typesAssuming fuel ((a', b') :: assumed))
            (q.elementsAssuming fuel ((a', b') :: assumed)) m n) s r := by
  rw [elementsAssuming_succ]
  simp only [known_bind, known_viewElement, Prod.exists, exists_and_left]

mutual

/-- Types that a comparison finds equal are equal at a depth that its fuel bounds. -/
theorem typesWithin_of_known : ∀ {fuel : Nat} {assumed : List (ElementId × ElementId)}
    {a b : TypeId}, Known (q.typesAssuming fuel assumed a b) s true →
      TypesWithin q s (FinitelyEqual q s assumed) fuel a b
  | 0, _, _, _, h => by
      cases h
  | fuel + 1, assumed, a, b, h => by
      obtain ⟨a', m, b', n, ha, hb, h⟩ := known_typesAssuming_succ.1 h
      refine ⟨a', m, b', n, ha, hb, ?_⟩
      by_cases heq : a' = b'
      · exact .inl heq
      rw [if_neg heq] at h
      by_cases hk : m.kind ≠ n.kind
      · rw [if_pos hk] at h
        exact absurd (known_pure.1 h) (by decide)
      rw [if_neg hk] at h
      have halike := known_typeContents_true.1 h
      exact .inr (halike.imp (fun _ _ => typesWithin_of_known) fun _ _ => finitelyEqual_of_known)

theorem finitelyEqual_of_known : ∀ {fuel : Nat} {assumed : List (ElementId × ElementId)}
    {d e : ElementId}, Known (q.elementsAssuming fuel assumed d e) s true →
      FinitelyEqual q s assumed d e
  | 0, _, _, _, h => by
      cases h
  | fuel + 1, assumed, d, e, h => by
      obtain ⟨d', x, e', y, hd, he, h⟩ := known_elementsAssuming_succ.1 h
      refine .of_nodes hd he ?_
      by_cases heq : d' = e'
      · exact .inl heq
      rw [if_neg heq] at h
      by_cases hk : x.kind ≠ y.kind ∨ x.simpleName ≠ y.simpleName
      · rw [if_pos hk] at h
        exact absurd (known_pure.1 h) (by decide)
      rw [if_neg hk] at h
      obtain ⟨hkind, hname⟩ := not_or.1 hk
      by_cases hmem : (d', e') ∈ assumed
      · exact .inr (.inl hmem)
      rw [if_neg hmem] at h
      have halike := (known_elementContents_true (not_not.1 hkind) (not_not.1 hname)).1 h
      exact .inr (.inr (halike.imp (fun _ _ h => ⟨fuel, typesWithin_of_known h⟩)
        fun _ _ => finitelyEqual_of_known))

end

mutual

/-- A comparison cannot tell types apart that matching relations relate. -/
theorem EqualTypes.certain : ∀ {fuel : Nat} {assumed : List (ElementId × ElementId)}
    {a b : TypeId}, EqualTypes q s [] a b → Certain (q.typesAssuming fuel assumed a b) s
  | 0, _, _, _, _ => by
      rintro _ ⟨⟩
  | fuel + 1, assumed, a, b, hab => by
      intro r h
      obtain ⟨a', m, b', n, ha, hb, h⟩ := known_typesAssuming_succ.1 h
      rcases (matching_greatest.types hab).of_peek ha hb with rfl | halike
      · rw [if_pos rfl] at h
        exact known_pure.1 h
      split at h
      · exact known_pure.1 h
      rw [if_neg (not_not.2 halike.kind_eq)] at h
      exact certain_typeContents
        (halike.imp (fun _ _ => EqualTypes.certain) fun _ _ => EqualElements.certain) r h

/-- A comparison cannot tell elements apart that matching relations relate. -/
theorem EqualElements.certain : ∀ {fuel : Nat} {assumed : List (ElementId × ElementId)}
    {a b : ElementId}, EqualElements q s [] a b → Certain (q.elementsAssuming fuel assumed a b) s
  | 0, _, _, _, _ => by
      rintro _ ⟨⟩
  | fuel + 1, assumed, a, b, hab => by
      intro r h
      obtain ⟨a', m, b', n, ha, hb, h⟩ := known_elementsAssuming_succ.1 h
      rcases hab.alike.of_peek ha hb with rfl | halike
      · rw [if_pos rfl] at h
        exact known_pure.1 h
      split at h
      · exact known_pure.1 h
      rw [if_neg (not_or.2 ⟨not_not.2 halike.kind, not_not.2 halike.simpleName⟩)] at h
      split at h
      · exact known_pure.1 h
      exact certain_elementContents
        (halike.imp (fun _ _ => EqualTypes.certain) fun _ _ => EqualElements.certain) r h

end

/-- A comparison of types that answers says whether they are equal. -/
theorem known_types_iff (h : Known (q.types fuel a b) s r) : r = true ↔ EqualTypes q s [] a b :=
  ⟨fun hr => finiteMatching_greatest.matching.le_types a b ⟨fuel, typesWithin_of_known (hr ▸ h)⟩,
    fun hab => hab.certain r h⟩

/-- A comparison of elements that answers says whether they are equal. -/
theorem known_elements_iff {a b : ElementId}
    (h : Known (q.elements fuel a b) s r) : r = true ↔ EqualElements q s [] a b :=
  ⟨fun hr => finiteMatching_greatest.matching.le_elements a b (finitelyEqual_of_known (hr ▸ h)),
    fun hab => hab.certain r h⟩

end Comparisons

/-! ### The laws of the comparisons -/

/-- A test of pairs of handles that obeys the laws of an equivalence relation wherever it answers.
The questions of a law are asked one after the other, each with fuel of its own, and the store may
grow between them. -/
structure EquivalenceTest {ι : Type} (test : Nat → ι → ι → Build Bool) : Prop where
  refl : ∀ {fuel : Nat} {a : ι} {s s' : Store} {r : Bool}, test fuel a a s = (.ok r, s') → r = true
  symm : ∀ {f g : Nat} {a b : ι} {s s' t t' : Store} {r r' : Bool},
    test f a b s = (.ok r, s') → s' ≤ t → test g b a t = (.ok r', t') → r = r'
  trans : ∀ {f g h : Nat} {a b c : ι} {s s' t t' u u' : Store} {r : Bool},
    test f a b s = (.ok true, s') → s' ≤ t → test g b c t = (.ok true, t') → t' ≤ u →
      test h a c u = (.ok r, u') → r = true

/-- A test whose answers last, and that decides an equivalence relation in every store. -/
theorem equivalenceTest_of_iff {ι : Type} {test : Nat → ι → ι → Build Bool}
    {R : Store → ι → ι → Prop} [settles : ∀ fuel a b, Settles (test fuel a b) (test fuel a b)]
    (iff : ∀ {fuel a b s r}, Known (test fuel a b) s r → (r = true ↔ R s a b))
    (equiv : ∀ s, Equivalence (R s)) : EquivalenceTest test where
  refl := by
    intro fuel a s s' r h
    exact (iff (known_of_ok h le_rfl)).2 ((equiv s').refl a)
  symm := by
    intro f g a b s s' t t' r r' h ht h'
    -- Both answers are known in the last store.
    have hab := iff (known_of_ok h (le_trans ht (le_of_ok h')))
    have hba := iff (known_of_ok h' le_rfl)
    exact Bool.eq_iff_iff.2 ⟨fun hr => hba.2 ((equiv t').symm (hab.1 hr)),
      fun hr => hab.2 ((equiv t').symm (hba.1 hr))⟩
  trans := by
    intro f g k a b c s s' t t' u u' r h ht h' hu h''
    have hle : t' ≤ u' := le_trans hu (le_of_ok h'')
    have hab := iff (known_of_ok h (le_trans ht (le_trans (le_of_ok h') hle)))
    have hbc := iff (known_of_ok h' hle)
    have hac := iff (known_of_ok h'' le_rfl)
    exact hac.2 ((equiv u').trans (hab.1 rfl) (hbc.1 rfl))

/-- Structural equality of types and of elements is an equivalence relation, whether annotations
count or not. -/
theorem types_elements_equivalence (q : Equality) :
    EquivalenceTest q.types ∧ EquivalenceTest q.elements :=
  ⟨equivalenceTest_of_iff known_types_iff
      fun _ => ⟨EqualTypes.refl, EqualTypes.symm, EqualTypes.trans⟩,
    equivalenceTest_of_iff known_elements_iff
      fun _ => ⟨EqualElements.refl, EqualElements.symm, EqualElements.trans⟩⟩

/-- A class with two methods that both read `<T> void f(T)`: the type parameters and the methods are
parts of one another. -/
def twinMethods : Store :=
  let method (type : Nat) : ElementNode :=
    { name := some "f", type := some ⟨type⟩, enclosing := some ⟨0⟩,
      detail := .executable .method {} }
  let parameter (method : Nat) : ElementNode :=
    { name := some "T", enclosing := some ⟨method⟩, detail := .typeParameter }
  { Store.empty with
    types := Store.empty.types
      |>.push (.node { shape := .typeVar { element := some ⟨2⟩ } })
      |>.push (.node { shape := .executable { parameters := [⟨14⟩] } })
      |>.push (.node { shape := .typeVar { element := some ⟨4⟩ } })
      |>.push (.node { shape := .executable { parameters := [⟨16⟩] } })
    elements := #[.node { name := some "C", detail := .type .plain {} },
      .node (method 15), .node (parameter 1), .node (method 17), .node (parameter 3)] }

/-- The comparison of the twin methods comes back to itself, and answers alike both ways. -/
theorem types_elements_equivalence_twinMethods :
    Equality.elements ⟨true⟩ 4 ⟨1⟩ ⟨3⟩ twinMethods = (.ok true, twinMethods) ∧
      ∀ r s, Equality.elements ⟨true⟩ 9 ⟨3⟩ ⟨1⟩ twinMethods = (.ok r, s) → r = true := by
  have h : Equality.elements ⟨true⟩ 4 ⟨1⟩ ⟨3⟩ twinMethods = (.ok true, twinMethods) := rfl
  refine ⟨h, fun r s h' => ?_⟩
  exact ((types_elements_equivalence ⟨true⟩).2.symm h le_rfl h').symm

end Equality

end JavaTypes
