import JavaTypes.Proofs.TypesAbove

/-!
# Searching a hierarchy with cycles

The classes of a hierarchy name declared types of the hierarchy as their supertypes. A class may be
generic, and it may be above itself. The search for the supertype that an element declares ends on each
such hierarchy with finitely many classes, and finds the element if it is reached.

* `Session.Hierarchy S C`: what the classes in `C` name are declared types of classes in `C`;
* `Hierarchy.ladder`: what is above an instance is of the classes that its class names, so a search that
  answered is right;
* `Action.Ends`: with enough fuel, a question ends;
* `Session.Climbable`: the superclass and the interfaces are found for all that is met on the way up;
* `Hierarchy.ends_asSuperFrom`: the search ends. The classes on the way to the current type are
  different classes of the hierarchy, so there are not more of them than classes.
-/

namespace JavaTypes

open Action

/-! ### Questions that end -/

namespace Action

open Session

section Ends

variable {α β : Type} {S T U : Session} {a : α} {b : β} {x y : Nat → Query α} {c : Prop} [Decidable c]

/-- With enough fuel, the question answers `a` in the session `S` and leaves the session `T`. -/
def Ends (x : Nat → Query α) (S : Session) (a : α) (T : Session) : Prop :=
  Later S T ∧ ∃ enough, ∀ fuel, enough ≤ fuel → x fuel S = (.ok a, T)

theorem ends_pure (a : α) (S : Session) : Ends (fun _ => pure a) S a S :=
  ⟨.rfl, 0, fun _ _ => rfl⟩

theorem Ends.bind {f : Nat → α → Query β} (hx : Ends x S a T)
    (hf : Ends (fun fuel => f fuel a) T b U) : Ends (fun fuel => x fuel >>= f fuel) S b U := by
  obtain ⟨hT, m, hx⟩ := hx
  obtain ⟨hU, n, hf⟩ := hf
  refine ⟨hT.trans hU, max m n, fun fuel hfuel => ?_⟩
  exact (bind_of_ok (hx fuel (le_of_max_le_left hfuel))).trans (hf fuel (le_of_max_le_right hfuel))

theorem Ends.succ (h : Ends (fun fuel => x (fuel + 1)) S a T) : Ends x S a T := by
  obtain ⟨hT, enough, h⟩ := h
  refine ⟨hT, enough + 1, fun fuel hfuel => ?_⟩
  cases fuel with
  | zero => omega
  | succ fuel => exact h fuel (Nat.le_of_succ_le_succ hfuel)

theorem Ends.ite_pos (hc : c) (h : Ends x S a T) :
    Ends (fun fuel => if c then x fuel else y fuel) S a T := by
  simpa only [if_pos hc] using h

theorem Ends.ite_neg (hc : ¬ c) (h : Ends y S a T) :
    Ends (fun fuel => if c then x fuel else y fuel) S a T := by
  simpa only [if_neg hc] using h

/-- An answer that was given once is given with more fuel. -/
theorem ends_of_settles (hs : ∀ {m n : Nat} [Fact (m ≤ n)], Settles (x m) (x n)) {fuel : Nat}
    (h : x fuel S = (.ok a, T)) : Ends x S a T :=
  ⟨.of_leads ((hs (n := fuel)).leads_of_eq h), fuel, fun _ hle => have := Fact.mk hle
    hs.repeats S a T h⟩

theorem Ends.exists_known (h : Ends x S a T) [hs : ∀ fuel, Settles (x fuel) (x fuel)] :
    ∃ fuel, ∀ V, Later T V → Known (x fuel) V a := by
  obtain ⟨-, enough, h⟩ := h
  exact ⟨enough, fun V hV => known_of_ok (h enough le_rfl) hV.le⟩

theorem Ends.eq_of_answer (h : Ends x S a T) (hs : ∀ {m n : Nat} [Fact (m ≤ n)], Settles (x m) (x n))
    {fuel : Nat} {a' : α} (h' : (x fuel S).1 = .ok a') : a = a' := by
  obtain ⟨-, enough, h⟩ := h
  have hmax := (hs (n := max enough fuel)).repeats S a' _ (Prod.ext h' rfl)
  cases (h _ (le_max_left enough fuel)).symm.trans hmax
  rfl

theorem Yields.ends {x : Query α} {Q : Session → α → Prop} (h : Yields S x Q) :
    ∃ a T, Ends (fun _ => x) S a T ∧ ∀ V, Later T V → Q V a := by
  obtain ⟨a, T, hx, hT, hQ⟩ := h S .rfl
  exact ⟨a, T, ⟨hT, 0, fun _ _ => hx⟩, hQ⟩

end Ends

theorem ends_firstFound {search : Nat → TypeId → Query (Option TypeId)} : ∀ {ks : List TypeId}
    {S : Session}, (∀ T k, Later S T → k ∈ ks → ∃ r U, Ends (fun fuel => search fuel k) T r U) →
      ∃ r T, Ends (fun fuel => firstFound (search fuel) ks) S r T
  | [], S, _ => ⟨none, S, ends_pure none S⟩
  | k :: ks, S, h => by
      obtain ⟨found, T, hk⟩ := h S k .rfl List.mem_cons_self
      cases found with
      | some x => exact ⟨some x, T, hk.bind (ends_pure (some x) T)⟩
      | none =>
        obtain ⟨r, U, hks⟩ := ends_firstFound fun U j hU hj =>
          h U j (hk.1.trans hU) (List.mem_cons_of_mem k hj)
        exact ⟨r, U, hk.bind hks⟩

end Action

namespace Session

variable {S T U : Session} {C : ElementId → Prop} {a b e o : ElementId} {k t u x : TypeId}
  {n : TypeNode} {fuel : Nat} {seen : List ElementId} {ks : List TypeId} {q r : Option TypeId}

/-! ### Hierarchies -/

/-- A declaration whose superclass and interfaces turn out to be declared by elements in `C`. The
superclass of an interface does not count. A declaration that is not an interface and names no
superclass has `Object` above it. -/
structure HierarchyClass (T : Session) (C : ElementId → Prop) (m : ElementNode) : Prop where
  superclass : m.kind.isInterface = false → ∀ k, m.superclass = some k → T.DeclaredIn C k
  implicit : m.kind.isInterface = false → m.superclass = none → ∀ o, T.IsObject o → C o
  interfaces : ∀ k ∈ m.interfaces, T.DeclaredIn C k

/-- The elements in `C`, as soon as they are known, name declared types of elements in `C`. They may be
above themselves. -/
structure Hierarchy (S : Session) (C : ElementId → Prop) : Prop where
  derived : S.DerivesClasses
  absent : ∃ n, S.store.peekType TypeId.none = some (TypeId.none, n) ∧ n.kind = .noType .none
  language : Yields S wellKnown fun T known => T.DeclaredBy known.object known.objectType
  classes : ∀ {T}, Later S T → ∀ {a m}, C a → T.store.peekElement a = some (a, m) →
    T.HierarchyClass C m

theorem Hierarchy.later (H : S.Hierarchy C) (hT : Later S T) : T.Hierarchy C where
  derived := H.derived.later hT
  absent := by
    obtain ⟨n, hn, hk⟩ := H.absent
    exact ⟨n, peekType_mono hT.le.store hn, hk⟩
  language := H.language.later hT
  classes hU := H.classes (hT.trans hU)

theorem Hierarchy.declaredBy_object (H : T.Hierarchy C) (ho : T.IsObject o)
    (hx : Known objectType T x) : T.DeclaredBy o x := by
  obtain ⟨known, hknown, rfl⟩ := ho
  obtain ⟨known', hknown', rfl⟩ := known_map.1 hx
  obtain rfl := hknown.unique hknown'
  exact H.language.of_known .rfl hknown

/-- Going up in a hierarchy, all types are declared types of the hierarchy. -/
theorem Hierarchy.ladder (H : T.Hierarchy C) : T.Ladder C (T.DeclaredIn C) := by
  refine ladder_of_declaredIn H.derived H.absent (fun {a t k} hC ha hk => ?_) fun {a t ks} hC ha hks => ?_
  · obtain ⟨m, hm⟩ := ha.exists_node
    have hclass := H.classes .rfl hC hm
    obtain ⟨hi, known, hknown, -, ⟨hsome, -⟩ | ⟨hnone, rfl⟩⟩ := cases_of_known_superclassNamed hm hk
    · exact hclass.superclass hi k hsome
    · have hobject : T.IsObject known.object := ⟨known, hknown, rfl⟩
      have hin := hclass.implicit hi hnone _ hobject
      exact (H.declaredBy_object hobject (hknown.bind rfl)).imp fun _ he => he ▸ hin
  · obtain ⟨m, hm⟩ := ha.exists_node
    obtain rfl := hks.unique (known_onStore_declaredInterfaces hm)
    exact (H.classes .rfl hC hm).interfaces

/-! ### The search ends -/

/-- A step of the search: from a type to the type that it stands for, to its superclass, or to one of
its interfaces. -/
inductive Climbs (T : Session) : TypeId → TypeId → Prop
  | node {t u : TypeId} {n : TypeNode} (h : T.store.peekType t = some (u, n)) : Climbs T t u
  | superclass {t k : TypeId} {fuel : Nat} (h : Known (supertype fuel t) T k) : Climbs T t k
  | interface {t k : TypeId} {fuel : Nat} {ks : List TypeId} (h : Known (interfaces fuel t) T ks)
      (hk : k ∈ ks) : Climbs T t k

/-- The superclass and the interfaces are found for each declared type that is met on the way up. -/
def Climbable (S : Session) (t : TypeId) : Prop :=
  ∀ T, Later S T → ∀ x a, Relation.ReflTransGen T.Climbs t x → T.IsClass x a →
    (∃ k U, Ends (fun fuel => supertype fuel x) T k U) ∧
      ∃ ks U, Ends (fun fuel => interfaces fuel x) T ks U

theorem Climbable.up (h : S.Climbable t) (hT : Later S T)
    (hstep : ∀ U, Later T U → U.Climbs t k) : T.Climbable k :=
  fun U hU x a hx ha => h U (hT.trans hU) x a (.head (hstep U hU) hx) ha

section Ending

variable {search : Nat → TypeId → Query (Option TypeId)} (H : S.Hierarchy C)

include H

theorem Hierarchy.ends_implicitObject (e : ElementId) :
    ∃ r T, Ends (fun _ => implicitObject e) S r T := by
  have hobject : Yields S objectElement fun _ _ => True := H.language.map fun _ _ _ _ => trivial
  obtain ⟨o, T, ho, -⟩ := hobject.ends
  by_cases heq : e = o
  · have htype : Yields T objectType fun _ _ => True :=
      (H.language.later ho.1).map fun _ _ _ _ => trivial
    obtain ⟨k, U, hk, -⟩ := htype.ends
    exact ⟨some k, U, ho.bind ((hk.bind (ends_pure (some k) U)).ite_pos heq)⟩
  · exact ⟨none, T, ho.bind ((ends_pure none T).ite_neg heq)⟩

variable (hC : C a) (ha : S.IsClass t a) (hclimb : S.Climbable t)
  (hsearch : ∀ T k, Later S T → T.DeclaredIn C k → T.Climbable k →
    ∃ r U, Ends (fun fuel => search fuel k) T r U)

include hC ha hclimb hsearch

theorem Hierarchy.ends_searchInterfaces (hT : Later S T) :
    ∃ r U, Ends (fun fuel => interfaces fuel t >>= firstFound (search fuel)) T r U := by
  obtain ⟨-, ks, U, hks⟩ := hclimb T hT t a .refl (ha.mono hT.le)
  obtain ⟨fuel, hknown⟩ := hks.exists_known
  have hSU := hT.trans hks.1
  have haU := ha.mono hSU.le
  obtain ⟨named, -, hsame⟩ := (H.later hSU).ladder.forall₂_of_known_interfaces hC haU
    (haU.declaredIn hC) (hknown U .rfl)
  have habove : ∀ V k, Later U V → k ∈ ks → ∃ r W, Ends (fun fuel => search fuel k) V r W := by
    intro V k hV hk
    obtain ⟨s, -, -, hdeclared⟩ := exists_of_forall₂_left hsame hk
    exact hsearch V k (hSU.trans hV) (hdeclared.later hV)
      (hclimb.up (hSU.trans hV) fun W hW => .interface (hknown W (hV.trans hW)) hk)
  obtain ⟨r, V, hfirst⟩ := ends_firstFound habove
  exact ⟨r, V, hks.bind hfirst⟩

theorem Hierarchy.ends_searchAbove :
    ∃ r T, Ends (fun fuel => searchAbove fuel (search fuel) t) S r T := by
  obtain ⟨⟨above, T, habove⟩, -⟩ := hclimb S .rfl t a .refl ha
  obtain ⟨fuel, hknown⟩ := habove.exists_known
  have hT := habove.1
  have hHT := H.later hT
  have haT := ha.mono hT.le
  rcases hHT.ladder.superclassSeen hC haT (haT.declaredIn hC) (hknown T .rfl) with
    ⟨rfl, -⟩ | ⟨k, -, -, hdeclared⟩
  · -- There is no superclass, so the interfaces are all there is.
    obtain ⟨m, hm, hkind⟩ := hHT.absent
    obtain ⟨kind, U, hU, hnone⟩ := (Yields.typeKind (Q := fun _ k => k = .noType .none)
      ((yields_viewType_of_peek hm).imp fun _ _ _ hx => by rw [hx]; exact hkind)).ends
    obtain ⟨r, V, hbeside⟩ := H.ends_searchInterfaces hC ha hclimb hsearch (hT.trans hU.1)
    exact ⟨r, V, habove.bind (hU.bind (((ends_pure none U).bind hbeside).ite_pos (hnone U .rfl)))⟩
  · obtain ⟨kind, U, hU, hsome⟩ := (Yields.typeKind (Q := fun _ k => k = .declared)
      hdeclared.yields_kind).ends
    have hne : kind ≠ .noType .none := by
      rw [hsome U .rfl]
      decide
    obtain ⟨found, V, hfound⟩ := hsearch U above (hT.trans hU.1) (hdeclared.later hU.1)
      (hclimb.up (hT.trans hU.1) fun W hW => .superclass (hknown W (hU.1.trans hW)))
    cases found with
    | some x =>
      exact ⟨some x, V, habove.bind (hU.bind (.ite_neg hne (hfound.bind (ends_pure (some x) V))))⟩
    | none =>
      obtain ⟨r, W, hbeside⟩ := H.ends_searchInterfaces hC ha hclimb hsearch
        (hT.trans (hU.1.trans hfound.1))
      exact ⟨r, W, habove.bind (hU.bind ((hfound.bind hbeside).ite_neg hne))⟩

end Ending

/-- The search from an instance of a class ends if the search above it does. -/
theorem Hierarchy.ends_asSuperDeclared (H : S.Hierarchy C) (h : a ∉ seen →
      ∃ r T, Ends (fun fuel => searchAbove fuel (asSuperFrom e fuel (a :: seen)) u) S r T) :
    ∃ r T, Ends (fun fuel => asSuperDeclared e fuel (asSuperFrom e fuel) seen u (some a)) S r T := by
  by_cases heq : a = e
  · exact ⟨some u, S, (ends_pure (some u) S).ite_pos heq⟩
  by_cases hmem : a ∈ seen
  · obtain ⟨r, T, himplicit⟩ := H.ends_implicitObject e
    exact ⟨r, T, .ite_neg heq (.ite_pos hmem ((ends_pure none S).bind himplicit))⟩
  obtain ⟨found, T, hfound⟩ := h hmem
  cases found with
  | some x =>
    exact ⟨some x, T, .ite_neg heq (.ite_neg hmem (hfound.bind (ends_pure (some x) T)))⟩
  | none =>
    obtain ⟨r, U, himplicit⟩ := (H.later hfound.1).ends_implicitObject e
    exact ⟨r, U, .ite_neg heq (.ite_neg hmem (hfound.bind himplicit))⟩

/-- One step of the search: it ends if the searches from the types above do. -/
theorem Hierarchy.ends_asSuperFrom_of_above (H : S.Hierarchy C) (ht : S.DeclaredIn C t)
    (hclimb : S.Climbable t) (hsearch : ∀ a, C a → a ∉ seen → ∀ T k, Later S T → T.DeclaredIn C k →
      T.Climbable k → ∃ r U, Ends (fun fuel => asSuperFrom e fuel (a :: seen) k) T r U) :
    ∃ r T, Ends (fun fuel => asSuperFrom e fuel seen t) S r T := by
  obtain ⟨⟨u, n⟩, T, hview, hu⟩ := ht.yields_kind.peekType.ends
  obtain ⟨hpeek, hkind⟩ := hu T .rfl
  obtain ⟨own, U, hown, helement⟩ := ((ht.later hview.1).yields_elementOf hpeek).ends
  obtain ⟨a, rfl, hC, ha⟩ := helement U .rfl
  have hU := hview.1.trans hown.1
  have hpeekU := peekType_mono hown.1.le.store hpeek
  have habove : a ∉ seen →
      ∃ r V, Ends (fun fuel => searchAbove fuel (asSuperFrom e fuel (a :: seen)) u) U r V :=
    fun hmem => (H.later hU).ends_searchAbove hC (ha.of_node hpeekU)
      (hclimb.up hU fun W hW => .node (peekType_mono hW.le.store hpeekU))
      fun W k hW => hsearch a hC hmem W k (hU.trans hW)
  obtain ⟨r, V, hsearched⟩ := (H.later hU).ends_asSuperDeclared habove
  refine ⟨r, V, .succ ?_⟩
  simp only [asSuperFrom]
  refine hview.bind ?_
  simp only [asSuperNode_of_declared hkind]
  exact hown.bind hsearched

/-- The search ends. What is left of the classes, without those in `seen`, bounds its depth. -/
theorem Hierarchy.ends_asSuperFrom {bound : Nat} (hbound : ∀ a, C a → a.index < bound) (left : Nat)
    (H : S.Hierarchy C) (hseen : Trail C seen) (hleft : bound ≤ left + seen.length)
    (ht : S.DeclaredIn C t) (hclimb : S.Climbable t) :
    ∃ r T, Ends (fun fuel => asSuperFrom e fuel seen t) S r T := by
  induction left generalizing S seen t with
  | zero =>
    refine H.ends_asSuperFrom_of_above ht hclimb fun a ha hmem => ?_
    -- All classes are in `seen`.
    have hlength := (hseen.cons ha hmem).length_le hbound
    rw [List.length_cons] at hlength
    omega
  | succ left ih =>
    refine H.ends_asSuperFrom_of_above ht hclimb fun a ha hmem T k hT hk hclimb' => ?_
    exact ih (H.later hT) (hseen.cons ha hmem) (by rw [List.length_cons]; omega) hk hclimb'

/-- In a hierarchy with finitely many classes, cycles or not, the search for the supertype that an
element declares ends. It finds a type that the element declares if the element is reached or is
`Object`, and nothing otherwise. -/
theorem asSuper_iff_reaches {bound : Nat} {m : ElementNode} (H : S.Hierarchy C)
    (hbound : ∀ a, C a → a.index < bound) (ho : C o) (ht : S.DeclaredBy o t)
    (hclimb : S.Climbable t) (he : S.store.peekElement e = some (e, m)) :
    ∃ r T, Ends (fun fuel => asSuper fuel t e) S r T ∧ ∀ V, Later T V →
      (r.isSome = true ↔ V.Reaches o e ∨ V.IsObject e) ∧ ∀ k, r = some k → V.DeclaredBy e k := by
  have hdeclared : S.DeclaredIn C t := ht.imp fun _ heq => heq ▸ ho
  obtain ⟨r, T, hends⟩ : ∃ r T, Ends (fun fuel => asSuperFrom e fuel [] t) S r T :=
    H.ends_asSuperFrom hbound bound ⟨.nil, fun _ h => by cases h⟩ le_rfl hdeclared hclimb
  obtain ⟨fuel, hknown⟩ := hends.exists_known
  have hresolve : Ends (fun _ => onStore (resolveElement e)) S e S :=
    ⟨.rfl, 0, fun _ _ => known_onStore.2 (known_resolveElement.2 ⟨m, he⟩)⟩
  refine ⟨r, T, hresolve.bind hends, fun V hV => ?_⟩
  have hSV := hends.1.trans hV
  obtain ⟨a, ha, hfinds⟩ := (H.later hSV).ladder.finds_of_known_asSuperFrom (hdeclared.later hSV)
    (hknown V hV)
  obtain rfl := (DeclaredIn.later ht hSV).mem ha
  refine ⟨hfinds.some_iff, ?_⟩
  rintro k rfl
  exact hfinds.elim (fun h => h.2.declaredIn rfl) fun h => (H.later hSV).declaredBy_object h.1 h.2

/-! ### Examples -/

/-- An interface `I` names a superclass `D`. The class `Box` has no type of its own, and there is a type
`Box<Cloneable>`, at 19. -/
def oddClasses : Session :=
  ofNodes
    [.ofClass 3 [], .ofClass 4 [], .ofClass 5 [15]]
    [.ofType "D" 17 .plain {}, .ofType "I" 18 .interface { superclass := some ⟨17⟩ },
     { name := some "Box", detail := .type .plain {} }]

/-- All that is named is a type of a class. But the superclass of an interface is not found, and nothing
is found above an instance of a class without a type of its own. -/
theorem asSuper_fails_oddClasses :
    (∀ i ∈ List.range oddClasses.store.elements.size,
      (oddClasses.store.peekElement ⟨i⟩).all (fun x => (x.2.superclass.toList ++ x.2.interfaces).all
        fun k => (oddClasses.store.classOf k).isSome) = true) ∧
      (oddClasses.IsClass ⟨18⟩ ⟨4⟩ ∧ oddClasses.IsClass ⟨17⟩ ⟨3⟩ ∧
        (declaredSuperclass ⟨4⟩ oddClasses.store).1 = .ok (some ⟨17⟩) ∧
          (asSuper 10 ⟨18⟩ ⟨3⟩ oddClasses).1 = .ok none) ∧
        oddClasses.IsClass ⟨19⟩ ⟨5⟩ ∧ oddClasses.IsObject ⟨0⟩ ∧
          (asSuper 10 ⟨19⟩ ⟨0⟩ oddClasses).1 = .error (.missingElement "Box") := by
  refine ⟨by decide +kernel, ⟨isClass_of_classOf (by decide +kernel),
    isClass_of_classOf (by decide +kernel), by decide +kernel, by decide +kernel⟩,
    isClass_of_classOf (by decide +kernel), ⟨languageClasses, rfl, rfl⟩, by decide +kernel⟩

/-- The listed classes name types of listed classes. A class that is not an interface names a
superclass. -/
def listsNamed (S : Session) (classes : List ElementId) : Bool :=
  classes.all fun a => (S.store.peekElement a).any fun x =>
    decide (x.1 = a) && (x.2.kind.isInterface || x.2.superclass.isSome) &&
      (x.2.superclass.toList ++ x.2.interfaces).all fun k =>
        (S.store.classOf k).any fun b => decide (b ∈ classes)

theorem hierarchy_of_listsNamed {classes : List ElementId} (hderived : S.DerivesClasses)
    (habsent : ∃ n, S.Shows TypeId.none TypeId.none n ∧ n.kind = .noType .none)
    {known : WellKnown} (hknown : Known wellKnown S known)
    (hobject : S.IsClass known.objectType known.object) (h : S.listsNamed classes = true) :
    S.Hierarchy (· ∈ classes) where
  derived := hderived
  absent := habsent
  language := (yields_of_known hknown).imp fun T known' hT heq => by
    subst heq
    exact (hobject.mono hT.le).declaredIn rfl
  classes {T} hT {a m} ha hm := by
    have hclass := List.all_eq_true.1 h a ha
    simp only [Option.any_eq_true, Bool.and_eq_true, Bool.or_eq_true, decide_eq_true_eq,
      List.all_eq_true, List.mem_append, Option.mem_toList] at hclass
    obtain ⟨⟨_, m'⟩, hm', ⟨rfl, hsuper⟩, hnamed⟩ := hclass
    cases hm.symm.trans (peekElement_mono hT.le.store hm')
    have hdeclared : ∀ k, m.superclass = some k ∨ k ∈ m.interfaces →
        T.DeclaredIn (· ∈ classes) k := by
      intro k hk
      obtain ⟨b, hb, hmem⟩ := hnamed k hk
      exact ((isClass_of_classOf hb).mono hT.le).declaredIn hmem
    refine ⟨fun _ k hk => hdeclared k (.inl hk), fun hi hnone => ?_,
      fun k hk => hdeclared k (.inr hk)⟩
    rw [hi, hnone] at hsuper
    simp at hsuper

/-- The way up from a type stays in a list of types whose superclasses and interfaces are known and in
the list. -/
theorem climbable_of_known (fuel : Nat) (types : List TypeId) (ht : t ∈ types)
    (h : ∀ x ∈ types, ∃ n k ks, S.Shows x x n ∧
      Known (supertype fuel x) S k ∧ Known (interfaces fuel x) S ks ∧ ∀ j ∈ k :: ks, j ∈ types) :
    S.Climbable t := by
  intro T hT x a hx _
  have hknown : ∀ x ∈ types, ∃ k ks, Known (supertype fuel x) T k ∧ Known (interfaces fuel x) T ks ∧
      ∀ y, T.Climbs x y → y ∈ types := by
    intro x hx
    obtain ⟨n, k, ks, hn, hk, hks, hmem⟩ := h x hx
    have hk := hk.mono hT.le
    have hks := hks.mono hT.le
    refine ⟨k, ks, hk, hks, fun y hy => ?_⟩
    cases hy with
    | node hy =>
      cases hy.symm.trans (hn.mono hT.le)
      exact hx
    | superclass hy =>
      obtain rfl := known_supertype_unique hk hy
      exact hmem k List.mem_cons_self
    | interface hy hmem' =>
      obtain rfl := known_interfaces_unique hks hy
      exact hmem y (List.mem_cons_of_mem k hmem')
  have hmem : ∀ y, Relation.ReflTransGen T.Climbs t y → y ∈ types := by
    intro y hy
    induction hy with
    | refl => exact ht
    | tail _ hstep ih =>
      obtain ⟨-, -, -, -, hclosed⟩ := hknown _ ih
      exact hclosed _ hstep
  obtain ⟨k, ks, hk, hks, -⟩ := hknown x (hmem x hx)
  exact ⟨⟨k, T, ends_of_settles inferInstance hk⟩, ks, T, ends_of_settles inferInstance hks⟩

/-- A generic class `A<T>` extends `B` and implements `I`, `B` extends `A<Object>`, and `I` extends
itself. There is a type `A<Cloneable>`, at 21. -/
def cyclicClasses : Session :=
  ofNodes
    [.ofClass 3 [18], .variableOf 6, .ofClass 4 [], .ofClass 3 [14], .ofClass 3 [15], .ofClass 5 []]
    [.ofType "A" 17 .plain { superclass := some ⟨19⟩, interfaces := [⟨22⟩], typeParameters := [⟨6⟩] },
     .ofType "B" 19 .plain { superclass := some ⟨20⟩ },
     .ofType "I" 22 .interface { interfaces := [⟨22⟩] }, .parameter "T" 18 3]

theorem climbable_cyclicClasses : cyclicClasses.Climbable ⟨21⟩ := by
  refine climbable_of_known 10 [⟨21⟩, ⟨19⟩, ⟨20⟩, ⟨22⟩, TypeId.none] (by simp) ?_
  simp only [List.forall_mem_cons]
  refine ⟨⟨_, ⟨19⟩, [⟨22⟩], rfl, rfl, rfl, by simp⟩, ⟨_, ⟨20⟩, [], rfl, rfl, rfl, by simp⟩,
    ⟨_, ⟨19⟩, [⟨22⟩], rfl, rfl, rfl, by simp⟩, ⟨_, TypeId.none, [⟨22⟩], rfl, rfl, rfl, by simp⟩,
    ⟨_, TypeId.none, [], rfl, rfl, rfl, by simp⟩, by simp⟩

/-- `Cloneable` is an argument and is not found. `I` and `Object` are found, though `A` and `B` are
above each other and `Object` is not above them. -/
theorem asSuper_iff_reaches_cyclicClasses :
    cyclicClasses.Extends ⟨3⟩ ⟨4⟩ ∧ cyclicClasses.Extends ⟨4⟩ ⟨3⟩ ∧
      ∀ e ∈ [⟨1⟩, ⟨5⟩, ⟨0⟩], ∃ r T, Ends (fun fuel => asSuper fuel ⟨21⟩ e) cyclicClasses r T ∧
        (r.isSome = true ↔ e ≠ ⟨1⟩) ∧ (r.isSome = true ↔ T.Reaches ⟨3⟩ e ∨ T.IsObject e) ∧
          ∀ k, r = some k → T.DeclaredBy e k := by
  have hfound : ∀ e ∈ [(⟨1⟩ : ElementId), ⟨5⟩, ⟨0⟩], (∃ m,
      cyclicClasses.store.peekElement e = some (e, m)) ∧
        ∃ r, (asSuper 20 ⟨21⟩ e cyclicClasses).1 = .ok r ∧ (r.isSome = true ↔ e ≠ ⟨1⟩) := by
    simp only [List.forall_mem_cons]
    exact ⟨⟨⟨_, rfl⟩, none, by decide +kernel, by decide⟩,
      ⟨⟨_, rfl⟩, some ⟨22⟩, by decide +kernel, by decide⟩,
      ⟨⟨_, rfl⟩, some ⟨14⟩, by decide +kernel, by decide⟩, by simp⟩
  have hknown : Known wellKnown cyclicClasses languageClasses := rfl
  have hhierarchy : cyclicClasses.Hierarchy (· ∈ [⟨3⟩, ⟨4⟩, ⟨5⟩]) :=
    hierarchy_of_listsNamed (fun _ _ h => by cases h) ⟨_, rfl, rfl⟩ hknown
      (isClass_of_classOf rfl) (by decide +kernel)
  have hbound : ∀ a : ElementId, a ∈ [⟨3⟩, ⟨4⟩, ⟨5⟩] → a.index < 6 := by decide
  have ht : cyclicClasses.IsClass ⟨21⟩ ⟨3⟩ := isClass_of_classOf rfl
  have hclimb := climbable_cyclicClasses
  refine ⟨⟨[⟨19⟩, ⟨22⟩], ⟨19⟩, rfl, by simp, isClass_of_classOf rfl⟩,
    ⟨[⟨20⟩], ⟨20⟩, rfl, by simp, isClass_of_classOf rfl⟩, fun e he => ?_⟩
  obtain ⟨⟨m, hm⟩, r', hr', hiff⟩ := hfound e he
  -- what follows holds of any session, and must not evaluate this one
  generalize cyclicClasses = S at *
  obtain ⟨r, T, hends, hfinds⟩ := asSuper_iff_reaches hhierarchy hbound (by simp)
    (ht.declaredIn rfl) hclimb hm
  obtain rfl := hends.eq_of_answer inferInstance hr'
  exact ⟨r, T, hends, hiff, hfinds T .rfl⟩

end Session

end JavaTypes
