import JavaTypes.Proofs.DerivedTypes
import JavaTypes.Proofs.StructuralEquality

/-!
# Tables of classes

A table of classes is a set of type elements such that all that their declarations name is declared
by elements of the set again, without a cycle. The classes may be generic, and what they name may
still be deferred.

* `Session.ClassTable S C`: the classes in `C` make up such a table. `Session.RankedClasses S C` leaves
  out that the classes are told apart by their names and by equality;
* `RankedClasses.declaredIn`, `RankedClasses.mem_of_extends`: the table is closed under going up;
* `Session.Sees T t a k x`: the instance `t` of `a` sees the type `k` as `x`. The superclass and the
  interfaces of an instance are what its class names, seen from it (`cases_of_known_supertype`,
  `exists_of_known_interfaces`);
* `Session.Ladder T C P`: the types in `P` are instances of classes in `C`, and going up stays in `P`.
  What is above such a type is of the classes that its class names (`Ladder.superclassSeen`,
  `Ladder.forall₂_of_known_interfaces`).
-/

namespace JavaTypes

open Action

/-! ### The declarations that the language names -/

theorem node_of_known_requireTypeElement {T : Session} {name : String} {e : ElementId} {t : TypeId}
    (h : Known (requireTypeElement name) T (e, t)) :
    ∃ n, T.store.peekElement e = some (e, n) ∧ n.type = some t := by
  obtain ⟨found, U, -, h⟩ := bind_eq_ok h
  cases found with
  | none => cases h
  | some d =>
    obtain ⟨⟨e', n⟩, V, hview, h⟩ := bind_eq_ok h
    dsimp only at h
    cases htype : n.type with
    | none =>
      rw [htype] at h
      cases h
    | some t' =>
      rw [htype] at h
      cases h
      have hknown := known_of_ok hview le_rfl
      exact ⟨n, Store.peekElement_self (known_viewElement.1 (known_onStore.1 hknown)), htype⟩

theorem node_of_known_wellKnown {T : Session} {known : WellKnown} (h : Known wellKnown T known) :
    ∃ n, T.store.peekElement known.object = some (known.object, n) ∧
      n.type = some known.objectType := by
  obtain ⟨⟨object, objectType⟩, hobject, h⟩ := known_bind.1 h
  obtain ⟨_, -, h⟩ := known_bind.1 h
  obtain ⟨_, -, h⟩ := known_bind.1 h
  cases known_pure.1 h
  exact node_of_known_requireTypeElement hobject

/-- The superclass of an element, unless it is the absent type. -/
def superclassPresent (e : ElementId) : Query (Option TypeId) := do
  match ← superclassNamed e with
  | some named => unlessNone named
  | none => return none

instance settles_superclassPresent (e : ElementId) :
    Settles (superclassPresent e) (superclassPresent e) := by
  refine settles_bind_of fun named => ?_
  cases named <;> infer_instance

namespace Session

/-! ### Tables -/

/-- A type that turns out to be the absent type. -/
def IsAbsent (S : Session) (t : TypeId) : Prop :=
  Yields S (onStore (viewType t)) fun _ x => x.2.kind = .noType .none

/-- A type element of a table: its own type is declared by it, and what it names is declared by
elements of the table. The superclass of an interface does not count, and a class can say that it has
none. -/
structure TableClass (S : Session) (C : ElementId → Prop) (e : ElementId) (n : ElementNode) :
    Prop where
  kind : ∃ k, n.kind = .type k
  own : ∃ t, n.type = some t ∧ S.DeclaredBy e t
  superclass : n.kind.isInterface = false → ∀ t, n.superclass = some t →
    S.IsAbsent t ∨ S.DeclaredIn C t
  implicit : n.kind.isInterface = false → n.superclass = none →
    ∀ T, Later S T → ∀ o, T.IsObject o → C o
  interfaces : ∀ t ∈ n.interfaces, S.DeclaredIn C t

/-- Two types are equal in the way that the session compares them. -/
def TypesEqual (T : Session) (t s : TypeId) : Prop :=
  Equality.EqualTypes T.config.equality T.store [] t s

/-- Two elements are equal in the way that the session compares them. -/
def ElementsEqual (T : Session) (d e : ElementId) : Prop :=
  Equality.EqualElements T.config.equality T.store [] d e

/-- What classes need to have ranks and an order: all that those in `C` name is in `C` again, nothing is
above itself, and `Object` has nothing above it. -/
structure RankedClasses (S : Session) (C : ElementId → Prop) : Prop where
  derived : S.DerivesShapes
  absent : ∃ n, S.store.peekType TypeId.none = some (TypeId.none, n) ∧ n.kind = .noType .none
  classes : ∀ {e}, C e → ∃ n, S.store.peekElement e = some (e, n) ∧ S.TableClass C e n
  object : ∀ {T}, Later S T → ∀ {o n}, T.IsObject o → T.store.peekElement o = some (o, n) →
    n.interfaces = []
  acyclic : ∀ {T}, Later S T → ∀ {e}, C e → ¬ Relation.TransGen T.Extends e e
  named : ∀ {e}, C e → ∃ name, Known (onStore (qualifiedName e)) S name

/-- Ranked classes that have different qualified names, and none of which equals another element. -/
structure ClassTable (S : Session) (C : ElementId → Prop) : Prop extends
    ranked : S.RankedClasses C where
  names : ∀ {a b name}, C a → C b → Known (onStore (qualifiedName a)) S name →
    Known (onStore (qualifiedName b)) S name → a = b
  separate : ∀ {T}, Later S T → ∀ {d d' a b m n}, C a → T.store.peekElement d = some (a, m) →
    T.store.peekElement d' = some (b, n) → T.ElementsEqual d d' → a = b

/-- No other type element has, now or later, the qualified name of an element in `C`. -/
def NamesApart (S : Session) (C : ElementId → Prop) : Prop :=
  ∀ {T}, Later S T → ∀ {a b n name}, C a → T.store.peekElement b = some (b, n) →
    (∃ k, n.kind = .type k) → Known (onStore (qualifiedName a)) T name →
      Known (onStore (qualifiedName b)) T name → a = b

variable {S T : Session} {C : ElementId → Prop} {a b e : ElementId} {t u k : TypeId} {n : TypeNode}
  {m : ElementNode} {r q : Option TypeId}

theorem DeclaredIn.later (h : S.DeclaredIn C t) (hT : Later S T) : T.DeclaredIn C t :=
  Yields.later h hT

theorem DeclaredIn.imp {D : ElementId → Prop} (h : S.DeclaredIn C t) (hCD : ∀ e, C e → D e) :
    S.DeclaredIn D t := by
  refine Yields.imp h fun T x _ hx => ?_
  obtain ⟨hk, d, hd, hdeclared⟩ := hx
  exact ⟨hk, d, hd, hdeclared.imp fun _ y _ hy => hCD y.1 hy⟩

theorem IsClass.declaredIn (ha : S.IsClass t a) (hC : C a) : S.DeclaredIn C t := by
  obtain ⟨u, n, d, m, ht, hk, hd, hm⟩ := ha
  refine (yields_viewType_of_peek ht).imp fun T x hT hx => ?_
  subst hx
  refine ⟨hk, d, hd, .imp (yields_viewElement_of_peek (peekElement_mono hT.le.store hm))
    fun _ y _ hy => ?_⟩
  rw [hy]
  exact hC

theorem DeclaredIn.yields_kind (h : S.DeclaredIn C t) :
    Yields S (onStore (viewType t)) fun _ x => x.2.kind = .declared :=
  .imp h fun _ _ _ hx => hx.1

theorem TableClass.later (h : S.TableClass C e m) (hT : Later S T) : T.TableClass C e m where
  kind := h.kind
  own := by
    obtain ⟨t, ht, hdeclared⟩ := h.own
    exact ⟨t, ht, .later hdeclared hT⟩
  superclass hi t ht := (h.superclass hi t ht).imp (fun ha => .later ha hT) fun hd => hd.later hT
  implicit hi hnone U hU := h.implicit hi hnone U (hT.trans hU)
  interfaces t ht := (h.interfaces t ht).later hT

theorem RankedClasses.later (H : S.RankedClasses C) (hT : Later S T) : T.RankedClasses C where
  derived := H.derived.later hT
  absent := by
    obtain ⟨m, hm, hk⟩ := H.absent
    exact ⟨m, peekType_mono hT.le.store hm, hk⟩
  classes he := by
    obtain ⟨m, hm, hclass⟩ := H.classes he
    exact ⟨m, peekElement_mono hT.le.store hm, hclass.later hT⟩
  object hU := H.object (hT.trans hU)
  acyclic hU := H.acyclic (hT.trans hU)
  named he := by
    obtain ⟨name, hname⟩ := H.named he
    exact ⟨name, hname.mono hT.le⟩

theorem ClassTable.later (H : S.ClassTable C) (hT : Later S T) : T.ClassTable C := by
  refine { H.ranked.later hT with
    names := fun {a b name} ha hb hx hy => ?_
    separate := fun hU => H.separate (hT.trans hU) }
  obtain ⟨x, hx'⟩ := H.named ha
  obtain ⟨y, hy'⟩ := H.named hb
  obtain rfl := (hx'.mono hT.le).unique hx
  obtain rfl := (hy'.mono hT.le).unique hy
  exact H.names ha hb hx' hy'

/-! ### What is above a class -/

/-- A type that turns out to be absent names nothing. -/
theorem IsAbsent.eq_none (h : S.IsAbsent t)
    (hr : Known (onStore (unlessNone t)) S r) : r = none := by
  obtain ⟨u, n, ht, rfl⟩ := known_unlessNone.1 hr
  exact if_pos (Yields.of_known h .rfl ht.known)

theorem DeclaredIn.eq_some (h : S.DeclaredIn C t)
    (hr : Known (onStore (unlessNone t)) S r) : r = some t := by
  obtain ⟨u, n, ht, rfl⟩ := known_unlessNone.1 hr
  have hk := h.yields_kind.of_known .rfl ht.known
  exact if_neg (by rw [hk]; decide)

section Classes

variable (hclasses : ∀ e, C e → ∃ n, S.store.peekElement e = some (e, n) ∧ S.TableClass C e n)

include hclasses

/-- The type `Object` is declared by the element `Object`. -/
theorem declaredBy_object_of_classes {known : WellKnown} (hknown : Known wellKnown S known)
    (hobject : C known.object) : S.DeclaredBy known.object known.objectType := by
  obtain ⟨m, hm, htype⟩ := node_of_known_wellKnown hknown
  obtain ⟨m', hm', hclass⟩ := hclasses known.object hobject
  cases hm.symm.trans hm'
  obtain ⟨t, ht, hdeclared⟩ := hclass.own
  cases htype.symm.trans ht
  exact hdeclared

/-- The superclass of one of the classes is declared by one of them. -/
theorem declaredIn_of_superclassNamed (ha : C a) (ht : Known (superclassNamed a) S (some t)) :
    S.DeclaredIn C t := by
  obtain ⟨m, hm, hclass⟩ := hclasses a ha
  obtain ⟨hi, known, hknown, -, hcases⟩ := cases_of_known_superclassNamed hm ht
  rcases hcases with ⟨hsome, hunless⟩ | ⟨hnone, rfl⟩
  · refine (hclass.superclass hi t hsome).resolve_left fun habsent => ?_
    cases habsent.eq_none hunless
  · have hobject := hclass.implicit hi hnone S .rfl _ ⟨known, hknown, rfl⟩
    exact .imp (declaredBy_object_of_classes hclasses hknown hobject) fun _ he => he ▸ hobject

theorem declaredIn_of_declaredInterfaces (ha : C a) {ts : List TypeId}
    (hts : Known (onStore (declaredInterfaces a)) S ts) (ht : t ∈ ts) : S.DeclaredIn C t := by
  obtain ⟨m, hm, hclass⟩ := hclasses a ha
  obtain rfl := hts.unique (known_onStore_declaredInterfaces hm)
  exact hclass.interfaces t ht

end Classes

/-- What a class of the table names is declared by classes of the table. -/
theorem RankedClasses.declaredIn (H : S.RankedClasses C) (ha : C a) {named : List TypeId}
    (hnamed : Known (supertypesNamed a) S named) (ht : t ∈ named) : S.DeclaredIn C t := by
  obtain ⟨superclass, interfaces, hsuperclass, hinterfaces, rfl⟩ := known_supertypesNamed.1 hnamed
  rcases List.mem_append.1 ht with ht | ht
  · obtain rfl := Option.mem_toList.1 ht
    exact declaredIn_of_superclassNamed (fun _ => H.classes) ha hsuperclass
  · exact declaredIn_of_declaredInterfaces (fun _ => H.classes) ha hinterfaces ht

theorem RankedClasses.mem_of_extends (H : S.RankedClasses C) (ha : C a) (hab : S.Extends a b) :
    C b := by
  obtain ⟨named, t, hnamed, ht, hb⟩ := hab
  exact (H.declaredIn ha hnamed ht).mem hb

theorem RankedClasses.mem_of_reaches (H : S.RankedClasses C) (ha : C a) (hab : S.Reaches a b) :
    C b := by
  induction hab with
  | refl => exact ha
  | tail _ hbc ih => exact H.mem_of_extends ih hbc

/-- Nothing is above `Object`. -/
theorem RankedClasses.not_extends_object (H : S.RankedClasses C) (ha : S.IsObject a) :
    ¬ S.Extends a b := by
  rintro ⟨named, t, hnamed, ht, hb⟩
  obtain ⟨superclass, interfaces, hsuperclass, hinterfaces, rfl⟩ := known_supertypesNamed.1 hnamed
  obtain ⟨known, hknown, rfl⟩ := ha
  obtain ⟨m, hm, -⟩ := node_of_known_wellKnown hknown
  obtain rfl := hinterfaces.unique (known_onStore_declaredInterfaces hm)
  rw [H.object .rfl ⟨known, hknown, rfl⟩ hm, List.append_nil] at ht
  obtain rfl := Option.mem_toList.1 ht
  obtain ⟨-, known', hknown', hne, -⟩ := cases_of_known_superclassNamed hm hsuperclass
  exact hne (by rw [hknown.unique hknown'])

/-! ### Equal types and elements -/

theorem TypesEqual.mono (h : S.TypesEqual t u) (hle : S ≤ T) : T.TypesEqual t u := by
  unfold TypesEqual
  rw [hle.config]
  exact .mono h hle.store

section Equal

open Equality

/-- What equals a completed element is completed, and has the same node or a node of alike parts. -/
theorem exists_peek_of_equalElements {q : Equality} {s : Store} {d d' p : ElementId}
    {m : ElementNode} (h : EqualElements q s [] d d') (hp : s.peekElement d = some (p, m)) :
    ∃ p' n, s.peekElement d' = some (p', n) ∧
      (p = p' ∧ m = n ∨ ElementNodesAlike q s (EqualTypes q s []) (EqualElements q s []) m n) := by
  rcases h.alike with rfl | ⟨a, m', b, n, ha, hb, hnodes⟩
  · exact ⟨p, m, hp, .inl ⟨rfl, rfl⟩⟩
  · cases hp.symm.trans ha
    refine ⟨b, n, hb, hnodes.imp_left ?_⟩
    rintro rfl
    exact ⟨rfl, Store.peekElement_node ha hb⟩

/-- Elements of alike parts have the same qualified name: so have the elements that they are in. -/
theorem qualifiedNameWithin_of_alike {q : Equality} {s : Store} {fuel : Nat} {m n : ElementNode}
    {name : String}
    (h : m = n ∨ ElementNodesAlike q s (EqualTypes q s []) (EqualElements q s []) m n)
    (hname : s.qualifiedNameWithin fuel m = .ok name) : s.qualifiedNameWithin fuel n = .ok name := by
  induction fuel generalizing m n name with
  | zero => cases hname
  | succ fuel ih =>
    rcases h with rfl | h
    · exact hname
    have hrel : ∀ k, m.kind = .type k →
        Option.Rel (EqualElements q s []) m.enclosing n.enclosing := fun k hk =>
      h.enclosing (by rw [hk]; nofun) (by rw [hk]; nofun)
    have hparents : ∀ {d d' p x}, EqualElements q s [] d d' → s.peekElement d = some (p, x) →
        ∃ p' y, s.peekElement d' = some (p', y) ∧ y.kind = x.kind ∧ (x = y ∨
          ElementNodesAlike q s (EqualTypes q s []) (EqualElements q s []) x y) := by
      intro d d' p x hequal hp
      obtain ⟨p', y, hp', ⟨-, rfl⟩ | halike⟩ := exists_peek_of_equalElements hequal hp
      · exact ⟨p', x, hp', rfl, .inl rfl⟩
      · exact ⟨p', y, hp', halike.kind.symm, .inr halike⟩
    rw [Store.qualifiedNameWithin_succ] at hname ⊢
    rw [← h.simpleName, ← h.kind]
    rcases hname with ⟨rfl, hnot⟩ | ⟨k, d, p, x, outer, hk, hd, hp, hx, houter, rfl⟩
    · refine .inl ⟨rfl, fun k d' hk hd' => ?_⟩
      obtain ⟨d, hd, hequal⟩ := exists_of_optionRel_right (hrel k hk) hd'
      obtain ⟨p, x, hp, hx⟩ := hnot k d hk hd
      obtain ⟨p', y, hp', hkind, -⟩ := hparents hequal hp
      exact ⟨p', y, hp', hkind ▸ hx⟩
    · obtain ⟨d', hd', hequal⟩ := exists_of_optionRel_left (hrel k hk) hd
      obtain ⟨p', y, hp', hkind, halike⟩ := hparents hequal hp
      exact .inr ⟨k, d', p', y, outer, hk, hd', hp', hkind ▸ hx, ih halike houter, rfl⟩

/-- Ranked classes whose names no other types have are a table: what equals one of them has its name. -/
theorem RankedClasses.classTable (H : S.RankedClasses C) (h : S.NamesApart C) : S.ClassTable C where
  ranked := H
  names ha hb hx hy := by
    obtain ⟨n, hn, hclass⟩ := H.classes hb
    exact h .rfl ha hn hclass.kind hx hy
  separate := by
    intro T hT d d' a b m n ha hd hd' hequal
    obtain ⟨b', n', hn', ⟨rfl, -⟩ | halike⟩ := exists_peek_of_equalElements hequal hd
    · cases hn'.symm.trans hd'
      rfl
    cases hn'.symm.trans hd'
    obtain ⟨m', hm', hclass⟩ := (H.later hT).classes ha
    obtain ⟨name, hname⟩ := (H.later hT).named ha
    obtain ⟨a', m'', hm'', hname'⟩ := known_qualifiedName.1 (known_onStore.1 hname)
    cases hm''.symm.trans hm'
    cases (Store.peekElement_self hd).symm.trans hm'
    refine h hT ha (Store.peekElement_self hd') (halike.kind ▸ hclass.kind) hname ?_
    exact known_onStore.2 (known_qualifiedName.2
      ⟨b, n, Store.peekElement_self hd', qualifiedNameWithin_of_alike (.inr halike) hname'⟩)

theorem outline_elements_of_declared (h : n.kind = .declared) : n.outline.elements = [n.element] := by
  obtain ⟨d, hd⟩ := TypeNode.shape_of_declared h
  rw [TypeNode.outline, TypeNode.element, hd]

/-- Types that equal a type of a class of the table are of the same class. -/
theorem ClassTable.isClass_of_equalTypes (H : S.ClassTable C) (ha : C a) (ht : S.IsClass t a)
    (h : S.TypesEqual t k) : S.IsClass k a := by
  obtain ⟨u, n, d, m, hpeek, hkind, hd, hm⟩ := ht
  rcases matching_greatest.types h with rfl | ⟨u', n', v, n'', hu, hv, hnodes⟩
  · exact ⟨u, n, d, m, hpeek, hkind, hd, hm⟩
  cases hpeek.symm.trans hu
  rcases hnodes with rfl | hnodes
  · cases Store.peekType_node hu hv
    exact ⟨u, n, d, m, hv, hkind, hd, hm⟩
  · have hkind' := hnodes.kind_eq.symm.trans hkind
    have helements := hnodes.outlines.elements
    rw [outline_elements_of_declared hkind, outline_elements_of_declared hkind'] at helements
    obtain ⟨hrel, -⟩ := List.forall₂_cons.1 helements
    obtain ⟨d', hd', hequal⟩ := exists_of_optionRel_left hrel hd
    obtain ⟨b, x, hx, -⟩ := exists_peek_of_equalElements hequal hm
    obtain rfl := H.separate .rfl ha hm hx hequal
    exact ⟨v, n'', d', x, hv, hkind', hd', hx⟩

end Equal

/-! ### Direct supertypes of an instance -/

theorem IsClass.known_elementOf (ha : T.IsClass t a) (ht : T.Shows t u n) :
    Known (onStore n.elementOf) T (some a) := by
  obtain ⟨u', n', d, m, ht', -, hd, hm⟩ := ha
  cases ht.symm.trans ht'
  exact known_elementOf_some.2 ⟨d, m, hd, hm⟩

theorem isClass_of_known_elementOf (ht : T.Shows t u n) (hn : n.kind = .declared)
    (he : Known (onStore n.elementOf) T (some e)) : T.IsClass t e := by
  obtain ⟨d, m, hd, hm⟩ := known_elementOf_some.1 he
  exact ⟨u, n, d, m, ht, hn, hd, hm⟩

theorem eq_of_known_isObject (ha : T.IsClass t a) {r : Bool} (h : Known (isObject t) T r) :
    ∃ o, Known objectElement T o ∧ r = decide (a = o) := by
  obtain ⟨u, n, d, m, ht, hk, hd, hm⟩ := ha
  have hnode : Known (onStore (typeNode t)) T n := known_onStore.2 (known_typeNode.2 ⟨u, ht⟩)
  have h := hnode.of_bind h
  rw [if_neg (not_not.2 hk)] at h
  have helement := IsClass.known_elementOf ⟨u, n, d, m, ht, hk, hd, hm⟩ ht
  exact known_map.1 (helement.of_bind h)

/-- Interfaces and `Object` have no superclass. -/
theorem superclassNamed_of_known_rootless (ha : T.IsClass t a)
    (hm : T.store.peekElement a = some (a, m)) {r : Bool}
    (h : Known (Action.either (do return (← elementKind a).isInterface : Query Bool) (isObject t))
      T r) : (r = true → Known (superclassNamed a) T none) ∧
      (r = false → m.kind.isInterface = false ∧ ∃ o, Known objectElement T o ∧ a ≠ o) := by
  have hkind : Known (do return (← elementKind a).isInterface : Query Bool) T m.kind.isInterface :=
    (known_onStore_elementKind hm).bind rfl
  rcases known_either.1 h with ⟨hi, rfl⟩ | ⟨hi, hobject⟩
  · exact ⟨fun _ => known_superclassNamed_interface hm (hkind.unique hi), nofun⟩
  · have hi := hkind.unique hi
    obtain ⟨o, ho, rfl⟩ := eq_of_known_isObject ha hobject
    refine ⟨fun htrue => ?_, fun hfalse => ⟨hi, o, ho, of_decide_eq_false hfalse⟩⟩
    obtain rfl := of_decide_eq_true htrue
    exact known_superclassNamed_object hm hi ho

/-- A superclass seen from an instance of a class; there is none if the absent type is named. -/
def superclassSeen (fuel : Nat) (t : TypeId) (e : ElementId) (k : TypeId) : Query TypeId := do
  if (← typeKind k) = .noType .none then return TypeId.none else seenFrom fuel t e k

variable {fuel : Nat} {v x : TypeId} {m : TypeNode} {xs : List TypeId}

theorem node_of_known_substitute {σ : Substitution} (h : Known (substitute σ fuel t) T k) :
    ∃ f u n, fuel = f + 1 ∧ T.Shows t u n ∧ Known (substituteNode σ f (u, n)) T k :=
  exists_node_of_known (x := (substitute σ · t)) rfl (substitute_succ σ · t) h

theorem node_of_known_erase (h : Known (erase fuel t) T k) :
    ∃ f u n, fuel = f + 1 ∧ T.Shows t u n ∧ Known (eraseNode f (u, n)) T k :=
  exists_node_of_known (x := (erase · t)) rfl (erase_succ · t) h

/-- The session knows what a type that the class `a` names is, seen from the instance `t`. -/
def Sees (T : Session) (t : TypeId) (a : ElementId) (k x : TypeId) : Prop :=
  ∃ fuel, Known (seenFrom fuel t a k) T x

theorem Sees.cases (h : T.Sees t a k x) :
    (∃ fuel, Known (erase fuel k) T x) ∨ (∃ σ fuel, Known (substitute σ fuel k) T x) ∨ x = k := by
  obtain ⟨fuel, h⟩ := h
  obtain ⟨raw, -, h⟩ := known_bind.1 h
  split at h
  · exact .inl ⟨fuel, h⟩
  obtain ⟨p, -, h⟩ := known_bind.1 h
  split at h
  · obtain ⟨own, -, h⟩ := known_bind.1 h
    obtain ⟨vars, -, h⟩ := known_bind.1 h
    obtain ⟨vals, -, h⟩ := known_bind.1 h
    exact .inr (.inl ⟨_, fuel, h⟩)
  · exact .inr (.inr (known_pure.1 h))

theorem Sees.shows (h : T.Sees t a k x) : x = k ∨ ∃ v m, T.Shows k v m := by
  rcases h.cases with ⟨fuel, h⟩ | ⟨σ, fuel, h⟩ | h
  · obtain ⟨-, v, m, -, hk, -⟩ := node_of_known_erase h
    exact .inr ⟨v, m, hk⟩
  · obtain ⟨-, v, m, -, hk, -⟩ := node_of_known_substitute h
    exact .inr ⟨v, m, hk⟩
  · exact .inl h

/-- A type that is neither declared nor made of types is seen as it is. -/
theorem Sees.eq_of_stays (h : T.Sees t a k x) (hk : T.Shows k v m)
    (hm : m.kind = .error ∨ m.kind = .noType .none) : x = v ∨ x = k := by
  have hstays : ∀ f σ, eraseNode f (v, m) = pure v ∧ substituteNode σ f (v, m) = pure v := by
    rcases hm with hm | hm
    · obtain ⟨d, hd⟩ := TypeNode.shape_of_error hm
      simp [eraseNode, substituteNode, hd]
    · simp [eraseNode, substituteNode, TypeNode.shape_of_noType hm]
  rcases h.cases with ⟨fuel, h⟩ | ⟨σ, fuel, h⟩ | h
  · obtain ⟨f, _, _, -, hk', h⟩ := node_of_known_erase h
    cases hk.symm.trans hk'
    exact .inl (known_pure.1 ((hstays f ⟨[], []⟩).1 ▸ h))
  · obtain ⟨f, _, _, -, hk', h⟩ := node_of_known_substitute h
    cases hk.symm.trans hk'
    exact .inl (known_pure.1 ((hstays f σ).2 ▸ h))
  · exact .inr h

/-- A declared type is seen as a type of the same class. -/
theorem Sees.sameClass (hT : T.DerivesClasses) (h : T.Sees t a k x)
    (hk : Yields T (onStore (viewType k)) fun _ y => y.2.kind = .declared) : T.SameClass x k := by
  obtain ⟨fuel, h⟩ := h
  exact (ensures_seenFrom hT hk t a).of_known h

theorem exists_of_known_superclassPresent (h : Known (superclassPresent a) T q) :
    ∃ named, Known (superclassNamed a) T named ∧
      (named = none ∧ q = none ∨ ∃ k, named = some k ∧ Known (onStore (unlessNone k)) T q) := by
  obtain ⟨named, hnamed, h⟩ := (known_bind_of fun s => by cases s <;> infer_instance).1 h
  cases named with
  | none => exact ⟨none, hnamed, .inl ⟨rfl, known_pure.1 h⟩⟩
  | some k => exact ⟨some k, hnamed, .inr ⟨k, rfl, h⟩⟩

theorem known_superclassPresent_some : Known (superclassPresent a) T (some k) ↔
    Known (superclassNamed a) T (some k) ∧ Known (onStore (unlessNone k)) T (some k) := by
  constructor
  · intro h
    obtain ⟨named, hnamed, ⟨-, hk⟩ | ⟨k', rfl, hk⟩⟩ := exists_of_known_superclassPresent h
    · cases hk
    · obtain ⟨v, m, -, hsome⟩ := known_unlessNone.1 hk
      split at hsome
      · cases hsome
      · cases hsome
        exact ⟨hnamed, hk⟩
  · rintro ⟨hnamed, hunless⟩
    exact hnamed.bind hunless

/-- The superclass of an instance: absent for interfaces and for `Object`, and otherwise what the
declaration names, or `Object`, seen from the instance. -/
theorem cases_of_known_superclassOf {x : ElementNode} (ha : T.IsClass t a)
    (ht : T.Shows t t n) (hx : T.store.peekElement a = some (a, x))
    (h : Known (superclassOf fuel t n) T k) :
    ∃ r, Known (Action.either (do return (← elementKind a).isInterface : Query Bool) (isObject t)) T r ∧
      (r = true ∧ k = TypeId.none ∨ r = false ∧ ∃ s, (x.superclass = some s ∨
        x.superclass = none ∧ Known objectType T s) ∧ Known (superclassSeen fuel t a s) T k) := by
  have h := (ha.known_elementOf ht).of_bind h
  obtain ⟨r, hr, h⟩ := (known_bind_of fun r => by
    cases r with
    | true => exact settles_pure _
    | false => exact settles_bind_of fun s => by cases s <;> infer_instance).1 h
  refine ⟨r, hr, ?_⟩
  cases r with
  | true => exact .inl ⟨rfl, known_pure.1 h⟩
  | false =>
    refine .inr ⟨rfl, ?_⟩
    have h := (known_onStore_declaredSuperclass hx).of_bind h
    cases hs : x.superclass with
    | some s =>
      rw [hs] at h
      exact ⟨s, .inl rfl, h⟩
    | none =>
      rw [hs] at h
      obtain ⟨s, hs', h⟩ := known_bind.1 h
      exact ⟨s, .inr ⟨rfl, hs'⟩, h⟩

theorem forall₂_of_known_mapTypes {change : TypeId → Query TypeId}
    [hc : ∀ t, Settles (change t) (change t)] : ∀ {ts ks : List TypeId},
      Known (mapTypes change ts) T ks → List.Forall₂ (fun t k => Known (change t) T k) ts ks
  | [], ks, h => by
      cases known_pure.1 h
      exact .nil
  | t :: ts, ks, h => by
      obtain ⟨k, hk, h⟩ := known_bind.1 h
      obtain ⟨ks, hks, rfl⟩ := known_map.1 h
      exact .cons hk (forall₂_of_known_mapTypes hks)

theorem node_of_known_supertype (h : Known (supertype fuel t) T x) :
    ∃ u n, T.Shows t u n ∧ (n.kind = .error → x = TypeId.none) ∧
      (n.kind = .declared → n.element = none ∧ x = TypeId.none ∨ ∃ a, T.IsClass t a) := by
  cases fuel with
  | zero => cases h
  | succ fuel =>
    obtain ⟨⟨u, n⟩, hn, h⟩ := (known_bind_of fun x => by
      dsimp only
      cases x.2.shape with
      | typeVar v =>
        refine settles_bind_of fun _ => settles_bind_of fun kind => ?_
        cases kind <;> infer_instance
      | array component => cases component <;> infer_instance
      | _ => infer_instance).1 h
    have hn := shows_of_known hn
    dsimp only at h
    refine ⟨u, n, hn, fun hk => ?_, fun hk => ?_⟩
    · obtain ⟨d, hd⟩ := TypeNode.shape_of_error hk
      rw [hd] at h
      exact known_pure.1 h
    · obtain ⟨d, hd⟩ := TypeNode.shape_of_declared hk
      rw [hd] at h
      obtain ⟨r, hr, h⟩ := (known_bind_of fun r => by
        cases r with
        | none => infer_instance
        | some e =>
          refine settles_bind_of fun _ => ?_
          split
          · infer_instance
          · exact settles_bind_of fun s => by cases s <;> infer_instance).1 h
      cases r with
      | none => exact .inl ⟨known_elementOf_none.1 hr, known_pure.1 h⟩
      | some a => exact .inr ⟨a, isClass_of_known_elementOf hn hk hr⟩

theorem node_of_known_interfaces (h : Known (interfaces fuel t) T xs) :
    ∃ u n, T.Shows t u n ∧ (n.kind = .error → xs = []) ∧
      (n.kind = .declared → n.element = none ∧ xs = [] ∨ ∃ a, T.IsClass t a) := by
  cases fuel with
  | zero => cases h
  | succ fuel =>
    obtain ⟨⟨u, n⟩, hn, h⟩ := (known_bind_of fun x => by
      dsimp only
      cases x.2.shape with
      | declared d => exact settles_bind_of fun r => by cases r <;> infer_instance
      | _ => infer_instance).1 h
    have hn := shows_of_known hn
    dsimp only at h
    refine ⟨u, n, hn, fun hk => ?_, fun hk => ?_⟩
    · obtain ⟨d, hd⟩ := TypeNode.shape_of_error hk
      rw [hd] at h
      exact known_pure.1 h
    · obtain ⟨d, hd⟩ := TypeNode.shape_of_declared hk
      rw [hd] at h
      obtain ⟨r, hr, h⟩ := (known_bind_of fun r => by cases r <;> infer_instance).1 h
      cases r with
      | none => exact .inl ⟨known_elementOf_none.1 hr, known_pure.1 h⟩
      | some a => exact .inr ⟨a, isClass_of_known_elementOf hn hk hr⟩

section Instance

variable (ha : T.IsClass t a) (ht : T.Shows t u n)

include ha ht

/-- The interfaces of an instance: what its class names, seen from the instance. -/
theorem exists_of_known_interfaces (h : Known (interfaces fuel t) T xs) :
    ∃ ks, Known (onStore (declaredInterfaces a)) T ks ∧ List.Forall₂ (T.Sees u a) ks xs := by
  cases fuel with
  | zero => cases h
  | succ fuel =>
    have helement := ha.known_elementOf ht
    obtain ⟨u', n', d, y, ht', hn, -, hy⟩ := ha
    cases ht.symm.trans ht'
    obtain ⟨d, hd⟩ := TypeNode.shape_of_declared hn
    have h := ht.known.of_bind h
    dsimp only at h
    rw [hd] at h
    have hnamed := known_onStore_declaredInterfaces (Store.peekElement_self hy)
    have hseen := forall₂_of_known_mapTypes (hnamed.of_bind (helement.of_bind h))
    exact ⟨_, hnamed, hseen.imp fun _ _ h => ⟨fuel, h⟩⟩

/-- The superclass of an instance: absent, or what its class names, seen from the instance. -/
theorem cases_of_known_supertype (h : Known (supertype fuel t) T x) :
    Known (superclassPresent a) T none ∧ x = TypeId.none ∨
      ∃ k, Known (superclassPresent a) T (some k) ∧ T.Sees u a k x := by
  cases fuel with
  | zero => cases h
  | succ fuel =>
    have hau := ha.of_node ht
    obtain ⟨u', n', d, y, ht', hn, -, hy⟩ := ha
    cases ht.symm.trans ht'
    obtain ⟨d, hd⟩ := TypeNode.shape_of_declared hn
    have h := ht.known.of_bind h
    dsimp only at h
    rw [hd] at h
    have hself := Store.peekElement_self hy
    obtain ⟨r, hr, hcases⟩ := cases_of_known_superclassOf hau ht.self hself h
    have hroot := superclassNamed_of_known_rootless hau hself hr
    rcases hcases with ⟨rfl, rfl⟩ | ⟨rfl, k, hk, h⟩
    · exact .inl ⟨(hroot.1 rfl).bind rfl, rfl⟩
    obtain ⟨hi, o, ho, hne⟩ := hroot.2 rfl
    obtain ⟨kind, hkind, h⟩ := known_bind.1 h
    have hunless : Known (onStore (unlessNone k)) T (if kind = .noType .none then none else some k) :=
      known_onStore.2 ((known_onStore.1 hkind).bind rfl)
    split at h
    · next hnone =>
      rw [if_pos hnone] at hunless
      refine .inl ⟨?_, known_pure.1 h⟩
      rcases hk with hk | ⟨hk, hobject⟩
      · exact (known_superclassNamed_some hself hi ho hne hk hunless).bind rfl
      · exact (known_superclassNamed_none hself hi ho hne hk hobject).bind hunless
    · next hsome =>
      rw [if_neg hsome] at hunless
      refine .inr ⟨k, known_superclassPresent_some.2 ⟨?_, hunless⟩, fuel, h⟩
      rcases hk with hk | ⟨hk, hobject⟩
      · exact known_superclassNamed_some hself hi ho hne hk hunless
      · exact known_superclassNamed_none hself hi ho hne hk hobject

end Instance

theorem DeclaredIn.kind_eq (h : S.DeclaredIn C t) (ht : S.Shows t u n) : n.kind = .declared :=
  h.yields_kind.of_known .rfl ht.known

theorem DeclaredIn.isClass_of_elementOf (h : S.DeclaredIn C t)
    (ht : S.Shows t u n) {r : Option ElementId}
    (hr : Known (onStore n.elementOf) S r) : ∃ a, r = some a ∧ C a ∧ S.IsClass t a :=
  (h.yields_elementOf ht).of_known .rfl hr

theorem DeclaredIn.element_ne (h : S.DeclaredIn C t) (ht : S.Shows t u n) : n.element ≠ none := by
  obtain ⟨-, d, hd, -⟩ := Yields.of_known h .rfl ht.known
  rw [hd]
  exact Option.some_ne_none d

/-- A type that turns out to be declared by `a` is of the class `a`, if it is known at all. -/
theorem DeclaredBy.isClass {Q : Prop} (ht : T.DeclaredBy a t) (hn : T.Shows t u n)
    (h : n.kind = .declared → n.element = none ∧ Q ∨ ∃ b, T.IsClass t b) : T.IsClass t a := by
  obtain ⟨b, hb⟩ := (h (DeclaredIn.kind_eq ht hn)).resolve_left fun h =>
    DeclaredIn.element_ne ht hn h.1
  rwa [ht.isClass_unique hb] at hb

/-! ### Going up -/

/-- The types in `P` are instances of classes in `C`. What these classes name is in `P` again, and is seen
from a type in `P` as a type in `P` of the same class. -/
structure Ladder (T : Session) (C : ElementId → Prop) (P : TypeId → Prop) : Prop where
  absent : ∃ n, T.store.peekType TypeId.none = some (TypeId.none, n) ∧ n.kind = .noType .none
  declaredIn : ∀ {t}, P t → T.DeclaredIn C t
  node : ∀ {t u n}, P t → T.store.peekType t = some (u, n) → P u
  superclass : ∀ {a t k}, C a → T.IsClass t a → Known (superclassNamed a) T (some k) → P k
  interfaces : ∀ {a t ks}, C a → T.IsClass t a → Known (onStore (declaredInterfaces a)) T ks →
    ∀ k ∈ ks, P k
  sees : ∀ {t a k x}, P t → T.IsClass t a → T.Sees t a k x → P k → T.SameClass x k ∧ P x

/-- The superclass of an instance: of the class that its declaration names and in `P`, or absent. -/
def SuperclassSeen (T : Session) (P : TypeId → Prop) (a : ElementId) (k : TypeId) : Prop :=
  (k = TypeId.none ∧ Known (superclassNamed a) T none) ∨
    ∃ s, Known (superclassNamed a) T (some s) ∧ T.SameClass k s ∧ P k

/-- Classes whose declarations name declared types of these classes are climbed through such types. -/
theorem ladder_of_declaredIn (hderived : T.DerivesClasses)
    (habsent : ∃ n, T.Shows TypeId.none TypeId.none n ∧ n.kind = .noType .none)
    (hsuperclass : ∀ {a t k}, C a → T.IsClass t a → Known (superclassNamed a) T (some k) →
      T.DeclaredIn C k)
    (hinterfaces : ∀ {a t ks}, C a → T.IsClass t a → Known (onStore (declaredInterfaces a)) T ks →
      ∀ k ∈ ks, T.DeclaredIn C k) : T.Ladder C (T.DeclaredIn C) where
  absent := habsent
  declaredIn h := h
  node h ht := (sameClass_of_node ht (h.kind_eq ht)).declaredIn h
  superclass := hsuperclass
  interfaces := hinterfaces
  sees _ _ h hk :=
    have hsame := h.sameClass hderived hk.yields_kind
    ⟨hsame, hsame.declaredIn hk⟩

theorem RankedClasses.ladder (H : T.RankedClasses C) : T.Ladder C (T.DeclaredIn C) :=
  ladder_of_declaredIn H.derived.classes H.absent
    (fun ha _ hk => declaredIn_of_superclassNamed (fun _ => H.classes) ha hk)
    fun ha _ hks _ hk => declaredIn_of_declaredInterfaces (fun _ => H.classes) ha hks hk

section Ladder

variable {P : TypeId → Prop} (L : T.Ladder C P)

include L

/-- The superclass of an instance can be looked at. -/
theorem SuperclassSeen.responds_view (h : T.SuperclassSeen P a k) : Responds T (onStore (viewType k)) := by
  rcases h with ⟨rfl, -⟩ | ⟨s, -, -, hk⟩
  · obtain ⟨n, hn, -⟩ := L.absent
    exact (yields_viewType_of_peek hn).responds
  · exact .responds (L.declaredIn hk)

/-- The superclass of an instance, if there is one, is of the class that the declaration names. -/
theorem SuperclassSeen.forall₂ (h : T.SuperclassSeen P a k) {r : Option TypeId}
    (hr : Known (onStore (unlessNone k)) T r) : ∃ named, Known (superclassNamed a) T named ∧
      List.Forall₂ (fun x k => T.SameClass x k ∧ P x) r.toList named.toList := by
  rcases h with ⟨rfl, hnone⟩ | ⟨s, hs, hsame, hP⟩
  · obtain ⟨n, hn, hk⟩ := L.absent
    obtain ⟨u, n', hn', rfl⟩ := known_unlessNone.1 hr
    cases hn.symm.trans hn'
    rw [if_pos hk]
    exact ⟨none, hnone, .nil⟩
  · obtain rfl := (L.declaredIn hP).eq_some hr
    exact ⟨some s, hs, .cons ⟨hsame, hP⟩ .nil⟩

/-- The superclass of an instance is absent or declared, as the declaration says. -/
theorem SuperclassSeen.cases_kind (h : T.SuperclassSeen P a k) {kind : TypeKind}
    (hkind : Known (onStore (typeKind k)) T kind) :
    (kind = .noType .none ∧ Known (superclassNamed a) T none) ∨
      (kind = .declared ∧ ∃ s, Known (superclassNamed a) T (some s) ∧ T.SameClass k s ∧ P k) := by
  obtain ⟨u, n, hn, rfl⟩ := known_typeKind.1 (known_onStore.1 hkind)
  rcases h with ⟨rfl, hnone⟩ | ⟨s, hs, hsame, hP⟩
  · obtain ⟨n', hn', hk⟩ := L.absent
    cases hn.symm.trans hn'
    exact .inl ⟨hk, hnone⟩
  · exact .inr ⟨(L.declaredIn hP).kind_eq hn, s, hs, hsame, hP⟩

variable (hC : C a) (ha : T.IsClass t a) (ht : P t)

include hC ha ht

/-- The superclass of an instance is of the class that its declaration names. -/
theorem Ladder.superclassSeen (h : Known (supertype fuel t) T x) : T.SuperclassSeen P a x := by
  obtain ⟨u, n, -, -, hn, -⟩ := id ha
  rcases cases_of_known_supertype ha hn h with ⟨hnone, rfl⟩ | ⟨k, hk, hsees⟩
  · obtain ⟨named, hnamed, ⟨rfl, -⟩ | ⟨k, rfl, hk⟩⟩ := exists_of_known_superclassPresent hnone
    · exact .inl ⟨rfl, hnamed⟩
    · cases (L.declaredIn (L.superclass hC ha hnamed)).eq_some hk
  · have hnamed := (known_superclassPresent_some.1 hk).1
    exact .inr ⟨k, hnamed, L.sees (L.node ht hn) (ha.of_node hn) hsees (L.superclass hC ha hnamed)⟩

/-- The interfaces of an instance are of the classes that its declaration names. -/
theorem Ladder.forall₂_of_known_interfaces (h : Known (JavaTypes.interfaces fuel t) T xs) :
    ∃ named, Known (onStore (declaredInterfaces a)) T named ∧
      List.Forall₂ (fun x k => T.SameClass x k ∧ P x) xs named := by
  obtain ⟨u, n, -, -, hn, -⟩ := id ha
  obtain ⟨named, hnamed, hsees⟩ := exists_of_known_interfaces ha hn h
  refine ⟨named, hnamed, forall₂_flip (forall₂_imp_of_mem (fun k hk x _ hsees => ?_) hsees)⟩
  exact L.sees (L.node ht hn) (ha.of_node hn) hsees (L.interfaces hC ha hnamed k hk)

end Ladder

end Session

end JavaTypes
