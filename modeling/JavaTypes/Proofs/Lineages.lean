import JavaTypes.Proofs.Precedence

/-!
# Lineages

A lineage is a set of elements that holds all that is named above its members. Nothing else is asked of
them: they may be generic, declared in cycles, without a type of their own, and share their names. What
they name may be missing (an error type), or a type that no element belongs to.

* `Session.OwnedBy T t o`: what the type `t` stands for in a closure, as far as `T` knows;
* `Session.Belongs S C t`: whatever `t` turns out to be, it is declared or missing, and an element that
  it has is in `C`;
* `Session.Lineage S C`: all that the elements in `C` name belongs to `C`, and none of them equals
  another element;
* `Lineage.belongs_supertype`, `Lineage.belongs_interfaces`: what is above a type that belongs to a
  lineage belongs to it.
-/

namespace JavaTypes

open Action

/-! ### What a type stands for -/

/-- What an entry of a closure stands for: an element, or a type that has none. -/
inductive Owner
  | element (e : ElementId)
  | node (t : TypeId)

namespace Session

variable {S T V : Session} {C : ElementId → Prop} {e : ElementId} {k t u v : TypeId} {n : TypeNode}
  {o o' : Owner} {fuel : Nat}

/-- The type is declared or missing, and stands for its element, or for itself if it has none. -/
def OwnedBy (T : Session) (t : TypeId) (o : Owner) : Prop :=
  ∃ u n r, T.store.peekType t = some (u, n) ∧ n.kind.isDeclaredLike = true ∧
    Known (onStore n.elementOf) T r ∧ o = r.elim (.node u) .element

theorem OwnedBy.mono (h : S.OwnedBy t o) (hle : S ≤ T) : T.OwnedBy t o := by
  obtain ⟨u, n, r, ht, hk, hr, rfl⟩ := h
  exact ⟨u, n, r, peekType_mono hle.store ht, hk, hr.mono hle, rfl⟩

theorem OwnedBy.unique (h : T.OwnedBy t o) (h' : T.OwnedBy t o') : o = o' := by
  obtain ⟨u, n, r, ht, -, hr, rfl⟩ := h
  obtain ⟨u', n', r', ht', -, hr', rfl⟩ := h'
  cases ht.symm.trans ht'
  rw [hr.unique hr']

theorem ownedBy_node_iff (ht : T.Shows t u n) : T.OwnedBy u o ↔ T.OwnedBy t o := by
  constructor
  · rintro ⟨u', n', r, hu, hk, hr, rfl⟩
    cases ht.self.symm.trans hu
    exact ⟨u, n, r, ht, hk, hr, rfl⟩
  · rintro ⟨u', n', r, ht', hk, hr, rfl⟩
    cases ht.symm.trans ht'
    exact ⟨u, n, r, ht.self, hk, hr, rfl⟩

theorem OwnedBy.known_elementOf (h : T.OwnedBy t (.element e))
    (ht : T.Shows t u n) : Known (onStore n.elementOf) T (some e) := by
  obtain ⟨u', n', r, ht', -, hr, heq⟩ := h
  cases ht.symm.trans ht'
  cases r with
  | none => cases heq
  | some e' =>
    cases heq
    exact hr

/-! ### Types that belong to a set of elements -/

/-- However the session goes on, the type turns out to be declared or missing, and its element, if it
has one, is in `C`. -/
def Belongs (S : Session) (C : ElementId → Prop) (t : TypeId) : Prop :=
  ∀ T, Later S T → ∀ u n, T.store.peekType t = some (u, n) → n.kind.isDeclaredLike = true ∧
    ∀ e, Known (onStore n.elementOf) T (some e) → C e

theorem Belongs.later (h : S.Belongs C t) (hT : Later S T) : T.Belongs C t :=
  fun V hV => h V (hT.trans hV)

theorem Belongs.of_node (h : S.Belongs C t) (ht : S.Shows t u n) : S.Belongs C u := by
  intro T hT v m hv
  cases (peekType_mono hT.le.store ht.self).symm.trans hv
  exact h T hT u n (ht.mono hT.le)

/-- It is known what the type stands for, and an element that it has is in `C`. -/
def OwnedIn (T : Session) (C : ElementId → Prop) (t : TypeId) : Prop :=
  ∃ o, T.OwnedBy t o ∧ ∀ e, o = .element e → C e

/-- What a type stands for never changes, so it decides what the type belongs to. -/
theorem OwnedIn.belongs (h : S.OwnedIn C t) : S.Belongs C t := by
  obtain ⟨o, h, hC⟩ := h
  intro T hT u n ht
  obtain ⟨u', n', r, ht', hk, -⟩ := h.mono hT.le
  cases ht.symm.trans ht'
  exact ⟨hk, fun e he => hC e ((h.mono hT.le).unique ⟨u, n, some e, ht, hk, he, rfl⟩)⟩

theorem SameClass.belongs (h : S.SameClass k t) (ht : S.Belongs C t) : S.Belongs C k := by
  intro T hT u m hk
  rcases h.mono hT.le with rfl | ⟨u', m', v, n, hk', ht', hm, hn, helement⟩
  · exact ht T hT u m hk
  cases hk.symm.trans hk'
  refine ⟨by rw [hm]; rfl, fun e he => (ht T hT v n ht').2 e ?_⟩
  obtain ⟨d, x, hd, hx⟩ := known_elementOf_some.1 he
  rcases helement with helement | ⟨d', e', x', hd', he', hm'⟩
  · exact known_elementOf_some.2 ⟨d, x, helement.symm.trans hd, hx⟩
  · cases hd.symm.trans hm'
    cases hx.symm.trans (Store.peekElement_self he')
    exact known_elementOf_some.2 ⟨d', x, hd', he'⟩

/-- What is seen of a type that belongs to a set of elements belongs to it. -/
theorem Sees.belongs (h : T.Sees t e k v) (hT : T.DerivesShapes) (hk : T.Belongs C k) : T.Belongs C v := by
  rcases h.shows with rfl | ⟨u, n, hu⟩
  · exact hk
  rcases TypeKind.isDeclaredLike_iff.1 (hk T .rfl u n hu).1 with hn | hn
  · refine (h.sameClass hT.classes ((yields_viewType_of_peek hu).imp fun _ _ _ hy => ?_)).belongs hk
    rw [hy]
    exact hn
  · rcases h.eq_of_stays hu (.inl hn) with rfl | rfl
    · exact hk.of_node hu
    · exact hk

/-! ### Lineages -/

/-- All that the elements in `C` name as their superclass and interfaces belongs to `C`, and none of
the elements in `C` equals another element. -/
structure Lineage (S : Session) (C : ElementId → Prop) : Prop where
  derived : S.DerivesShapes
  absent : ∃ n, S.store.peekType TypeId.none = some (TypeId.none, n) ∧ n.kind = .noType .none
  superclass : ∀ {T}, Later S T → ∀ {a}, C a → ∀ {t}, Known (superclassNamed a) T (some t) →
    T.Belongs C t
  interfaces : ∀ {T}, Later S T → ∀ {a}, C a → ∀ {ts}, Known (onStore (declaredInterfaces a)) T ts →
    ∀ t ∈ ts, T.Belongs C t
  separate : ∀ {T}, Later S T → ∀ {d d' a b m n}, C a → T.store.peekElement d = some (a, m) →
    T.store.peekElement d' = some (b, n) → T.ElementsEqual d d' → a = b

theorem Lineage.later (H : S.Lineage C) (hT : Later S T) : T.Lineage C where
  derived := H.derived.later hT
  absent := by
    obtain ⟨n, hn, hk⟩ := H.absent
    exact ⟨n, peekType_mono hT.le.store hn, hk⟩
  superclass hV := H.superclass (hT.trans hV)
  interfaces hV := H.interfaces (hT.trans hV)
  separate hV := H.separate (hT.trans hV)

theorem IsClass.ownedBy (h : T.IsClass t e) : T.OwnedBy t (.element e) := by
  obtain ⟨u, n, d, x, ht, hk, hd, hx⟩ := h
  exact ⟨u, n, some e, ht, by rw [hk]; rfl, known_elementOf_some.2 ⟨d, x, hd, hx⟩, rfl⟩

theorem DeclaredIn.belongs (h : S.DeclaredIn C t) : S.Belongs C t := by
  intro T hT u n ht
  have hk := (h.later hT).kind_eq ht
  refine ⟨by rw [hk]; rfl, fun e he => ?_⟩
  obtain ⟨a, ha, hC, -⟩ := (h.later hT).isClass_of_elementOf ht he
  cases ha
  exact hC

/-- Classes whose declarations name only types of them are a lineage, if they are told apart. -/
theorem lineage_of_classes (hderived : S.DerivesShapes)
    (habsent : ∃ n, S.Shows TypeId.none TypeId.none n ∧ n.kind = .noType .none)
    (hclasses : ∀ e, C e → ∃ n, S.store.peekElement e = some (e, n) ∧ S.TableClass C e n)
    (hseparate : ∀ T, Later S T → ∀ d d' a b m n, C a → T.store.peekElement d = some (a, m) →
      T.store.peekElement d' = some (b, n) → T.ElementsEqual d d' → a = b) : S.Lineage C := by
  have hlater : ∀ T, Later S T → ∀ e, C e →
      ∃ n, T.store.peekElement e = some (e, n) ∧ T.TableClass C e n := by
    intro T hT e he
    obtain ⟨n, hn, hclass⟩ := hclasses e he
    exact ⟨n, peekElement_mono hT.le.store hn, hclass.later hT⟩
  refine ⟨hderived, habsent, fun {T} hT {a} ha {t} ht => ?_, fun {T} hT {a} ha {ts} hts t ht => ?_,
    fun {T} hT {d d' a b m n} => hseparate T hT d d' a b m n⟩
  · exact (declaredIn_of_superclassNamed (hlater T hT) ha ht).belongs
  · exact (declaredIn_of_declaredInterfaces (hlater T hT) ha hts ht).belongs

section Above

variable (H : T.Lineage C) (ht : T.Belongs C t)

include H ht

/-- The superclass of a type that belongs to the lineage, if there is one, belongs to it. -/
theorem Lineage.belongs_supertype (h : Known (supertype fuel t) T k) : k = TypeId.none ∨ T.Belongs C k := by
  obtain ⟨u, n, hn, herror, hdeclared⟩ := node_of_known_supertype h
  obtain ⟨hk, hC⟩ := ht T .rfl u n hn
  rcases TypeKind.isDeclaredLike_iff.1 hk with hk | hk
  · rcases hdeclared hk with ⟨-, rfl⟩ | ⟨a, ha⟩
    · exact .inl rfl
    rcases cases_of_known_supertype ha hn h with ⟨-, rfl⟩ | ⟨s, hs, hsees⟩
    · exact .inl rfl
    · exact .inr (hsees.belongs H.derived (H.superclass .rfl (hC a (ha.known_elementOf hn))
        (known_superclassPresent_some.1 hs).1))
  · exact .inl (herror hk)

/-- The interfaces of a type that belongs to the lineage belong to it. -/
theorem Lineage.belongs_interfaces {ks : List TypeId} (h : Known (JavaTypes.interfaces fuel t) T ks) :
    ∀ k ∈ ks, T.Belongs C k := by
  obtain ⟨u, n, hn, herror, hdeclared⟩ := node_of_known_interfaces h
  obtain ⟨hk, hC⟩ := ht T .rfl u n hn
  rcases TypeKind.isDeclaredLike_iff.1 hk with hk | hk
  · rcases hdeclared hk with ⟨-, rfl⟩ | ⟨a, ha⟩
    · exact List.forall_mem_nil _
    obtain ⟨names, hnames, hsees⟩ := exists_of_known_interfaces ha hn h
    intro k hk
    obtain ⟨s, hs, hsees⟩ := exists_of_forall₂_right hsees hk
    exact hsees.belongs H.derived (H.interfaces .rfl (hC a (ha.known_elementOf hn)) hnames s hs)
  · rw [herror hk]
    exact List.forall_mem_nil _

end Above

/-! ### Equal types -/

section Equal

open Equality

theorem outline_elements_of_declaredLike (h : n.kind.isDeclaredLike = true) :
    n.outline.elements = [n.element] := by
  rcases TypeKind.isDeclaredLike_iff.1 h with h | h
  · exact outline_elements_of_declared h
  · obtain ⟨d, hd⟩ := TypeNode.shape_of_error h
    rw [TypeNode.outline, TypeNode.element, hd]

/-- Equal types of which one is declared or missing are of one kind, and have equal elements. -/
theorem exists_peek_of_typesEqual (h : T.TypesEqual k t) (hk : T.Shows k u n) :
    ∃ v m, T.Shows t v m ∧ n.kind = m.kind ∧
      (n.kind.isDeclaredLike = true → Option.Rel T.ElementsEqual n.element m.element) := by
  have hrefl : ∀ d, Option.Rel T.ElementsEqual d d := by
    intro d
    cases d with
    | none => exact .none
    | some d => exact .some (.refl d)
  rcases matching_greatest.types h with rfl | ⟨u', n', v, m, hu, hv, hnodes⟩
  · exact ⟨u, n, hk, rfl, fun _ => hrefl n.element⟩
  cases hk.symm.trans hu
  rcases hnodes with rfl | hnodes
  · cases Store.peekType_node hu hv
    exact ⟨u, n, hv, rfl, fun _ => hrefl n.element⟩
  · refine ⟨v, m, hv, hnodes.kind_eq, fun hlike => ?_⟩
    have helements := hnodes.outlines.elements
    rw [outline_elements_of_declaredLike hlike,
      outline_elements_of_declaredLike (hnodes.kind_eq ▸ hlike)] at helements
    exact (List.forall₂_cons.1 helements).1

/-- An element of the lineage is the only one that equal types have. -/
theorem Lineage.ownedBy_of_equalTypes (H : T.Lineage C) (hC : C e) (ht : T.OwnedBy t (.element e))
    (h : T.TypesEqual t k) : T.OwnedBy k (.element e) := by
  obtain ⟨u, n, r, hpeek, hk, hr, heq⟩ := ht
  obtain ⟨v, m, hv, hkind, hrel⟩ := exists_peek_of_typesEqual h hpeek
  have he := OwnedBy.known_elementOf ⟨u, n, r, hpeek, hk, hr, heq⟩ hpeek
  obtain ⟨d, x, hd, hx⟩ := known_elementOf_some.1 he
  obtain ⟨d', hd', hequal⟩ := exists_of_optionRel_left (hrel hk) hd
  obtain ⟨b, y, hy, -⟩ := exists_peek_of_equalElements hequal hx
  obtain rfl := H.separate .rfl hC hx hy hequal
  exact ⟨v, m, some e, hv, hkind ▸ hk, known_elementOf_some.2 ⟨d', y, hd', hy⟩, rfl⟩

theorem Lineage.ownedIn_of_equalTypes (H : T.Lineage C) (ht : T.OwnedIn C t) (h : T.TypesEqual t k) :
    T.OwnedIn C k := by
  obtain ⟨o, hto, hC⟩ := ht
  cases o with
  | element e =>
    exact ⟨.element e, H.ownedBy_of_equalTypes (hC e rfl) hto h, hC⟩
  | node u' =>
    obtain ⟨u, n, r, hpeek, hk, hr, heq⟩ := hto
    obtain ⟨v, m, hv, hkind, hrel⟩ := exists_peek_of_typesEqual h hpeek
    cases r with
    | some e => cases heq
    | none =>
      have hm : m.element = none := by
        refine Option.eq_none_iff_forall_not_mem.2 fun d hd => ?_
        obtain ⟨d', hd', -⟩ := exists_of_optionRel_right (hrel hk) hd
        cases (known_elementOf_none.1 hr).symm.trans hd'
      exact ⟨.node v, ⟨v, m, none, hv, hkind ▸ hk, known_elementOf_none.2 hm, rfl⟩, nofun⟩

end Equal

end Session

end JavaTypes
