import JavaTypes.Proofs.Answering
import Mathlib.Data.List.Nodup
import Mathlib.Data.List.Perm.Subperm

/-!
# The graph of classes

Every class has the classes above it that its declaration names. This module says what these are
without regard to how the relations of the language search them.

* `supertypesNamed e`: the types that the declaration of `e` names as its superclass and interfaces.
  A class that names no superclass is below `Object`;
* `Session.IsClass T t e`: the type `t` is declared by the element `e`, as far as `T` knows;
* `Session.Extends T a b`: the class `a` names `b` as a supertype; `Session.Reaches T` is its closure;
* `Session.PlainClasses S C`: the classes in `C` are not generic, and so are all classes above them.
-/

namespace JavaTypes

open Action

/-! ### Named supertypes -/

variable {S : Session} {n : TypeNode}

/-- The superclass that an element names, or else `Object`. -/
def namedOrObject (e : ElementId) : Query (Option TypeId) := do
  match ← declaredSuperclass e with
  | some named => unlessNone named
  | none => return some (← objectType)

/-- The superclass of an element. Interfaces have none, and neither has `Object`. -/
def superclassNamed (e : ElementId) : Query (Option TypeId) := do
  if (← elementKind e).isInterface then
    return none
  else if e = (← objectElement) then
    return none
  else
    namedOrObject e

/-- The supertypes of an element: its superclass and the interfaces that it names. -/
def supertypesNamed (e : ElementId) : Query (List TypeId) := do
  let superclass ← superclassNamed e
  return superclass.toList ++ (← declaredInterfaces e)

instance settles_namedOrObject (e : ElementId) : Settles (namedOrObject e) (namedOrObject e) := by
  refine settles_bind_of fun named => ?_
  cases named <;> infer_instance

instance settles_superclassNamed (e : ElementId) :
    Settles (superclassNamed e) (superclassNamed e) :=
  settles_bind

instance settles_supertypesNamed (e : ElementId) :
    Settles (supertypesNamed e) (supertypesNamed e) :=
  settles_bind

theorem known_supertypesNamed {e : ElementId} {ts : List TypeId} :
    Known (supertypesNamed e) S ts ↔ ∃ superclass interfaces, Known (superclassNamed e) S superclass ∧
      Known (onStore (declaredInterfaces e)) S interfaces ∧ ts = superclass.toList ++ interfaces := by
  constructor
  · intro h
    obtain ⟨superclass, hsuperclass, hrest⟩ := known_bind.1 h
    obtain ⟨interfaces, hknown, rfl⟩ := known_map.1 hrest
    exact ⟨superclass, interfaces, hsuperclass, hknown, rfl⟩
  · rintro ⟨superclass, interfaces, hsuperclass, hknown, rfl⟩
    exact hsuperclass.bind (hknown.bind rfl)

theorem TypeNode.shape_of_declared (h : n.kind = .declared) : ∃ d, n.shape = .declared d := by
  obtain ⟨shape, as⟩ := n
  cases shape with
  | declared d => exact ⟨d, rfl⟩
  | _ => cases h

theorem TypeKind.isDeclaredLike_iff {k : TypeKind} :
    k.isDeclaredLike = true ↔ k = .declared ∨ k = .error := by
  cases k <;> simp [isDeclaredLike]

theorem TypeNode.shape_of_error (h : n.kind = .error) : ∃ e, n.shape = .error e := by
  obtain ⟨shape, as⟩ := n
  cases shape with
  | error e => exact ⟨e, rfl⟩
  | _ => cases h

theorem TypeNode.shape_of_primitive {p : Primitive} (h : n.kind = .primitive p) :
    n.shape = .primitive p := by
  obtain ⟨shape, as⟩ := n
  cases shape with
  | primitive q =>
    cases h
    rfl
  | _ => cases h

theorem TypeNode.shape_of_noType {k : NoType} (h : n.kind = .noType k) : n.shape = .noType k := by
  obtain ⟨shape, as⟩ := n
  cases shape with
  | noType k =>
    cases h
    rfl
  | _ => cases h

theorem TypeNode.shape_of_null (h : n.kind = .null) : n.shape = .null := by
  obtain ⟨shape, as⟩ := n
  cases shape with
  | null => rfl
  | _ => cases h

theorem known_unlessNone {t : TypeId} {r : Option TypeId} :
    Known (onStore (unlessNone t)) S r ↔ ∃ u n, S.Shows t u n ∧
      r = if n.kind = .noType .none then none else some t := by
  rw [known_onStore, unlessNone, known_map]
  simp only [known_typeKind]
  constructor
  · rintro ⟨_, ⟨u, n, ht, rfl⟩, rfl⟩
    exact ⟨u, n, ht, rfl⟩
  · rintro ⟨u, n, ht, rfl⟩
    exact ⟨n.kind, ⟨u, n, ht, rfl⟩, rfl⟩

section Known

variable {S : Session} {e o : ElementId} {m : ElementNode}
  (he : S.store.peekElement e = some (e, m)) {t : TypeId}

include he

theorem known_onStore_elementKind : Known (onStore (elementKind e)) S m.kind :=
  known_onStore.2 ((known_elementNode.2 ⟨e, he⟩).bind rfl)

theorem known_onStore_elementType : Known (onStore (elementType e)) S m.type :=
  known_onStore.2 ((known_elementNode.2 ⟨e, he⟩).bind rfl)

theorem known_onStore_declaredSuperclass : Known (onStore (declaredSuperclass e)) S m.superclass :=
  known_onStore.2 ((known_elementNode.2 ⟨e, he⟩).bind rfl)

theorem known_onStore_declaredInterfaces : Known (onStore (declaredInterfaces e)) S m.interfaces :=
  known_onStore.2 ((known_elementNode.2 ⟨e, he⟩).bind rfl)

theorem known_superclassNamed_interface (hi : m.kind.isInterface = true) :
    Known (superclassNamed e) S none := by
  refine (known_onStore_elementKind he).bind ?_
  rw [if_pos hi]
  rfl

theorem known_superclassNamed_object (hi : m.kind.isInterface = false)
    (ho : Known objectElement S e) : Known (superclassNamed e) S none := by
  refine (known_onStore_elementKind he).bind ?_
  rw [if_neg (by rw [hi]; decide)]
  refine ho.bind ?_
  rw [if_pos rfl]
  rfl

/-- An element with a superclass is neither an interface nor `Object`, and names it or has `Object`. -/
theorem cases_of_known_superclassNamed (h : Known (superclassNamed e) S (some t)) :
    m.kind.isInterface = false ∧ ∃ known, Known wellKnown S known ∧ e ≠ known.object ∧
      (m.superclass = some t ∧ Known (onStore (unlessNone t)) S (some t) ∨
        m.superclass = none ∧ t = known.objectType) := by
  have h := (known_onStore_elementKind he).of_bind h
  split at h
  · cases known_pure.1 h
  next hi =>
  obtain ⟨o, ho, h⟩ := known_bind.1 h
  obtain ⟨known, hknown, rfl⟩ := known_map.1 ho
  split at h
  · cases known_pure.1 h
  next hne =>
  refine ⟨Bool.eq_false_iff.2 hi, known, hknown, hne, ?_⟩
  have h := (known_onStore_declaredSuperclass he).of_bind h
  cases hm : m.superclass with
  | some named =>
    rw [hm] at h
    obtain ⟨u, n, -, hkind⟩ := known_unlessNone.1 h
    split at hkind
    · cases hkind
    · cases hkind
      exact .inl ⟨rfl, h⟩
  | none =>
    rw [hm] at h
    obtain ⟨t', ht', hsome⟩ := known_map.1 h
    cases hsome
    exact .inr ⟨rfl, ht'.unique (hknown.bind rfl)⟩

variable (hi : m.kind.isInterface = false) (ho : Known objectElement S o) (hne : e ≠ o)

include hi ho hne

theorem known_superclassNamed_some {r : Option TypeId} (ht : m.superclass = some t)
    (hr : Known (onStore (unlessNone t)) S r) : Known (superclassNamed e) S r := by
  refine (known_onStore_elementKind he).bind ?_
  rw [if_neg (by rw [hi]; decide)]
  refine ho.bind ?_
  rw [if_neg hne]
  refine (known_onStore_declaredSuperclass he).bind ?_
  rw [ht]
  exact hr

theorem known_superclassNamed_none (hm : m.superclass = none)
    (ht : Known objectType S t) : Known (superclassNamed e) S (some t) := by
  refine (known_onStore_elementKind he).bind ?_
  rw [if_neg (by rw [hi]; decide)]
  refine ho.bind ?_
  rw [if_neg hne]
  refine (known_onStore_declaredSuperclass he).bind ?_
  rw [hm]
  exact ht.bind rfl

end Known

namespace Session

/-! ### Classes and edges -/

/-- A declared type belongs to a class. -/
def IsClass (T : Session) (t : TypeId) (e : ElementId) : Prop :=
  ∃ t' n d m, T.store.peekType t = some (t', n) ∧ n.kind = .declared ∧ n.element = some d ∧
    T.store.peekElement d = some (e, m)

/-- The element is the one that the session knows as `Object`. -/
def IsObject (T : Session) (e : ElementId) : Prop :=
  ∃ known, Known wellKnown T known ∧ e = known.object

/-- The first class names the second as a supertype. -/
def Extends (T : Session) (a b : ElementId) : Prop :=
  ∃ named t, Known (supertypesNamed a) T named ∧ t ∈ named ∧ T.IsClass t b

/-- The second class is found by going from a class to those above it. -/
def Reaches (T : Session) : ElementId → ElementId → Prop :=
  Relation.ReflTransGen T.Extends

variable {S T : Session} {t u : TypeId} {a b e : ElementId}

theorem IsClass.mono (h : S.IsClass t e) (hle : S ≤ T) : T.IsClass t e := by
  obtain ⟨t', n, d, m, ht, hk, hd, he⟩ := h
  exact ⟨t', n, d, m, peekType_mono hle.store ht, hk, hd, peekElement_mono hle.store he⟩

theorem IsClass.unique (ha : T.IsClass t a) (hb : T.IsClass t b) : a = b := by
  obtain ⟨t', n, d, m, ht, -, hd, ha⟩ := ha
  obtain ⟨t'', n', d', m', ht', -, hd', hb⟩ := hb
  cases ht.symm.trans ht'
  cases hd.symm.trans hd'
  cases ha.symm.trans hb
  rfl

theorem IsClass.of_peek (hclass : S.IsClass u e) (ht : S.Shows t u n) : S.IsClass t e := by
  obtain ⟨u', n', d, m, hu, hrest⟩ := hclass
  cases hu.symm.trans ht.self
  exact ⟨u, n, d, m, ht, hrest⟩

theorem IsClass.of_node (hclass : S.IsClass t e) (ht : S.Shows t u n) : S.IsClass u e := by
  obtain ⟨u', n', d, m, hu, hrest⟩ := hclass
  cases hu.symm.trans ht
  exact ⟨u, n, d, m, ht.self, hrest⟩

theorem IsClass.exists_node (h : T.IsClass t a) : ∃ m, T.store.peekElement a = some (a, m) := by
  obtain ⟨-, -, d, m, -, -, -, hm⟩ := h
  exact ⟨m, Store.peekElement_self hm⟩

/-- Nothing is above itself if every class comes after those above it. -/
theorem not_above_self {C : ElementId → Prop}
    (h : ∀ a b, C a → T.Extends a b → C b ∧ b.index < a.index) (ha : C a) :
    ¬ Relation.TransGen T.Extends a a := by
  have hlt : ∀ b, Relation.TransGen T.Extends a b → C b ∧ b.index < a.index := by
    intro b hab
    induction hab with
    | single hab => exact h a _ ha hab
    | tail _ hbc ih =>
      obtain ⟨hb, hlt⟩ := ih
      obtain ⟨hc, hlt'⟩ := h _ _ hb hbc
      exact ⟨hc, lt_trans hlt' hlt⟩
  exact fun haa => lt_irrefl _ (hlt a haa).2

theorem IsObject.mono (h : S.IsObject e) (hle : S ≤ T) : T.IsObject e := by
  obtain ⟨known, hk, rfl⟩ := h
  exact ⟨known, hk.mono hle, rfl⟩

theorem IsObject.of_known (h : Known objectElement S e) : S.IsObject e :=
  known_map.1 h

theorem IsObject.unique (ha : T.IsObject a) (hb : T.IsObject b) : a = b := by
  obtain ⟨known, hk, rfl⟩ := ha
  obtain ⟨known', hk', rfl⟩ := hb
  rw [hk.unique hk']

theorem Extends.mono (h : S.Extends a b) (hle : S ≤ T) : T.Extends a b := by
  obtain ⟨named, t, hn, ht, hb⟩ := h
  exact ⟨named, t, hn.mono hle, ht, hb.mono hle⟩

theorem Reaches.mono (h : S.Reaches a b) (hle : S ≤ T) : T.Reaches a b :=
  Relation.ReflTransGen.mono (fun _ _ hab => Extends.mono hab hle) _ _ h

/-- Different classes are counted by their positions in the store. -/
theorem length_le_of_nodup {seen : List ElementId} {bound : Nat} (hnodup : seen.Nodup)
    (hbound : ∀ e ∈ seen, e.index < bound) : seen.length ≤ bound := by
  have hinj : (seen.map ElementId.index).Nodup :=
    .map (fun a b h => by cases a; cases b; cases h; rfl) hnodup
  have hsub : seen.map ElementId.index ⊆ List.range bound := by
    intro i hi
    obtain ⟨e, he, rfl⟩ := List.mem_map.1 hi
    exact List.mem_range.2 (hbound e he)
  have hle := (hinj.subperm hsub).length_le
  rwa [List.length_map, List.length_range] at hle

/-! ### Classes without generics -/

/-- A declared type without arguments and without an enclosing type, of a class in `C`. Its parts may
still be deferred: however the session goes on, they turn out as said. -/
def PlainDeclared (S : Session) (C : ElementId → Prop) (n : TypeNode) : Prop :=
  n.kind = .declared ∧ n.arguments = [] ∧
    Yields S (onStore (viewType n.enclosingOrNone)) (fun _ x => x.2.kind = .noType .none) ∧
    ∃ d, n.element = some d ∧ Yields S (onStore (viewElement d)) (fun _ x => C x.1)

/-- A type that turns out to be declared, without arguments and without an enclosing type, by a class
in `C`. -/
def PlainType (S : Session) (C : ElementId → Prop) (t : TypeId) : Prop :=
  Yields S (onStore (viewType t)) fun T x => T.PlainDeclared C x.2

/-- A type that turns out to be declared by a class in `C`. -/
def DeclaredIn (S : Session) (C : ElementId → Prop) (t : TypeId) : Prop :=
  Yields S (onStore (viewType t)) fun T x => x.2.kind = .declared ∧
    ∃ d, x.2.element = some d ∧ Yields T (onStore (viewElement d)) (fun _ y => C y.1)

/-- A type that turns out to be declared by `e`. -/
def DeclaredBy (S : Session) (e : ElementId) (t : TypeId) : Prop :=
  S.DeclaredIn (· = e) t

/-- A class without type parameters whose supertypes are plain. The superclass of an interface does
not count, and a class can say that it has none. -/
structure PlainClass (S : Session) (C : ElementId → Prop) (n : ElementNode) : Prop where
  typeParameters : n.typeParameters = []
  superclass : n.kind.isInterface = false → ∀ t, n.superclass = some t →
    Yields S (onStore (viewType t)) fun T x => x.2.kind = .noType .none ∨ T.PlainDeclared C x.2
  implicit : n.kind.isInterface = false → n.superclass = none →
    Yields S wellKnown fun _ known => C known.object
  interfaces : ∀ t ∈ n.interfaces, S.PlainType C t

/-- An element that names no supertypes. -/
def NamesNone (S : Session) (e : ElementId) : Prop :=
  ∃ n, S.store.peekElement e = some (e, n) ∧ n.interfaces = [] ∧ ∀ t, n.superclass = some t →
    Yields S (onStore (viewType t)) fun _ x => x.2.kind = .noType .none

/-- The classes in `C` are plain and different from one another, and `Object` declares its own type,
which is plain if `Object` is one of them. The classes above arrays have no supertypes of their own.
Comparing two of the classes takes no more than the given fuel. -/
structure PlainClasses (S : Session) (C : ElementId → Prop) (enough : Nat) : Prop where
  absent : ∃ n, S.store.peekType TypeId.none = some (TypeId.none, n) ∧ n.kind = .noType .none
  classes : ∀ {e}, C e → ∃ n, S.store.peekElement e = some (e, n) ∧ S.PlainClass C n
  wellKnown : Yields S wellKnown fun T known =>
    (T.DeclaredBy known.object known.objectType ∧ (C known.object → T.PlainType C known.objectType)) ∧
      T.NamesNone known.object ∧ T.NamesNone known.cloneable ∧ T.NamesNone known.serializable
  distinct : ∀ {a b}, C a → C b → a ≠ b → ∀ fuel, enough ≤ fuel →
    Yields S (onStore (S.config.equality.elements fuel a b)) fun _ r => r = false

variable {C : ElementId → Prop} {n : TypeNode} {enough : Nat}

theorem PlainDeclared.later (h : S.PlainDeclared C n) (hT : Later S T) : T.PlainDeclared C n := by
  obtain ⟨hk, ha, henclosing, d, hd, helement⟩ := h
  exact ⟨hk, ha, henclosing.later hT, d, hd, helement.later hT⟩

theorem DeclaredIn.mem (h : S.DeclaredIn C t) (ha : S.IsClass t a) : C a := by
  obtain ⟨t', n, d, m, ht, -, hd, hm⟩ := ha
  obtain ⟨-, d', hd', hdeclared⟩ :=
    Yields.of_known h (Later.refl S) (known_onStore.2 (known_viewType.2 ht))
  cases hd.symm.trans hd'
  exact hdeclared.of_known .rfl (known_onStore.2 (known_viewElement.2 hm))

theorem plainType_of_peek (ht : S.Shows t u n) (hn : S.PlainDeclared C n) : S.PlainType C t :=
  (yields_viewType_of_peek ht).imp fun _ _ hT hx => hx ▸ hn.later hT

theorem PlainType.declaredIn (h : S.PlainType C t) : S.DeclaredIn C t :=
  .imp h fun _ _ _ hx => ⟨hx.1, hx.2.2.2⟩

theorem DeclaredBy.isClass_unique (h : S.DeclaredBy e t) (ha : S.IsClass t a) : a = e :=
  h.mem ha

theorem PlainClass.later {m : ElementNode} (h : S.PlainClass C m) (hT : Later S T) :
    T.PlainClass C m where
  typeParameters := h.typeParameters
  superclass hi t ht := (h.superclass hi t ht).later hT
  implicit hi hnone := (h.implicit hi hnone).later hT
  interfaces t ht := .later (h.interfaces t ht) hT

theorem NamesNone.later (h : S.NamesNone e) (hT : Later S T) : T.NamesNone e := by
  obtain ⟨m, hm, hinterfaces, hsuper⟩ := h
  exact ⟨m, peekElement_mono hT.le.store hm, hinterfaces, fun t ht => (hsuper t ht).later hT⟩

theorem PlainClasses.later (h : S.PlainClasses C enough) (hT : Later S T) :
    T.PlainClasses C enough where
  absent := by
    obtain ⟨m, hm, hk⟩ := h.absent
    exact ⟨m, peekType_mono hT.le.store hm, hk⟩
  classes he := by
    obtain ⟨m, hm, hplain⟩ := h.classes he
    exact ⟨m, peekElement_mono hT.le.store hm, hplain.later hT⟩
  wellKnown := h.wellKnown.later hT
  distinct ha hb hne fuel hfuel := by
    rw [hT.le.config]
    exact (h.distinct ha hb hne fuel hfuel).later hT

theorem yields_elementOf_of_element {d : ElementId} (hd : n.element = some d)
    {Q : Session → ElementId → Prop}
    (h : Yields S (onStore (viewElement d)) fun T x => Q T x.1) :
    Yields S (onStore n.elementOf) fun T r => ∃ e, r = some e ∧ Q T e := by
  unfold TypeNode.elementOf
  rw [hd]
  rw [onStore_bind]
  exact (Yields.resolveElement h).map fun _ e _ he => ⟨e, rfl, he⟩

/-- The class of a declared type. -/
theorem DeclaredIn.yields_elementOf (h : S.DeclaredIn C t) (ht : S.Shows t u n) :
    Yields S (onStore n.elementOf) fun T r => ∃ e, r = some e ∧ C e ∧ T.IsClass t e := by
  obtain ⟨hk, d, hd, hdeclared⟩ := Yields.of_known h .rfl ht.known
  refine yields_elementOf_of_element hd (hdeclared.peekElement.imp fun T x hT hx => ?_)
  exact ⟨hx.2, u, n, d, x.2, ht.mono hT.le, hk, hd, hx.1⟩

/-- The class of a plain type. -/
theorem yields_elementOf (h : S.PlainDeclared C n) :
    Yields S (onStore n.elementOf) fun _ r => ∃ e, r = some e ∧ C e := by
  obtain ⟨-, -, -, d, hd, helement⟩ := h
  exact yields_elementOf_of_element hd helement

/-! ### What the relations read of a plain type -/

section Readings

variable (H : S.PlainClasses C enough) {u : TypeId} (ht : S.Shows t u n) (hn : S.PlainDeclared C n)
  {fuel : Nat}

include ht in
theorem yields_typeNode_of_peek : Yields S (onStore (typeNode t)) fun _ m => m = n :=
  .typeNode ((yields_viewType_of_peek ht).imp fun _ _ _ hx => hx ▸ rfl)

include H in
theorem yields_typeParameters (he : C e) :
    Yields S (onStore (typeParameters e)) fun _ ps => ps = [] := by
  obtain ⟨m, hm, hplain⟩ := H.classes he
  rw [typeParameters, onStore_bind]
  refine .map (.elementNode (Q := fun _ k => k = m) ?_) ?_
  · exact (yields_viewElement_of_peek hm).imp fun _ _ _ hx => hx ▸ rfl
  · rintro T k - rfl
    exact hplain.typeParameters

include H hn in
theorem yields_omitsArguments : Yields S (onStore n.omitsArguments) fun _ b => b = false := by
  unfold TypeNode.omitsArguments
  rw [hn.2.1]
  show Yields S (onStore (n.elementOf >>= _)) _
  rw [onStore_bind]
  refine (yields_elementOf hn).bind fun T r hT hr => ?_
  obtain ⟨e, rfl, he⟩ := hr T .rfl
  rw [onStore_bind]
  exact (yields_typeParameters (H.later hT) he).map fun _ ps _ hps => by rw [hps]; rfl

include H ht hn in
theorem yields_isRaw (hf : 2 ≤ fuel) : Yields S (onStore (isRaw fuel t)) fun _ b => b = false := by
  obtain ⟨fuel, rfl⟩ : ∃ k, fuel = k + 2 := ⟨fuel - 2, by omega⟩
  rw [isRaw, onStore_bind]
  refine (yields_typeNode_of_peek ht).bind_eq fun T hT => ?_
  rw [if_pos hn.1, onStore_either]
  refine .either (yields_omitsArguments (H.later hT) (hn.later hT)) (fun _ _ h => h) ?_
  intro U hU _
  rw [isRaw, onStore_bind]
  refine (Yields.typeNode (Q := fun _ m => m.kind = .noType .none)
    (hn.2.2.1.later (hT.trans hU))).bind fun V k hV hk => ?_
  rw [if_neg (by rw [hk V .rfl]; decide)]
  exact yields_pure fun _ _ => rfl

include ht hn in
theorem yields_allTypeArguments (hf : 2 ≤ fuel) :
    Yields S (onStore (allTypeArguments fuel t)) fun _ ts => ts = [] := by
  obtain ⟨fuel, rfl⟩ : ∃ k, fuel = k + 2 := ⟨fuel - 2, by omega⟩
  rw [allTypeArguments, onStore_bind]
  refine (yields_typeNode_of_peek ht).bind fun T m hT hm => ?_
  obtain rfl := hm T .rfl
  rw [hn.1]
  show Yields T (onStore (allTypeArguments (fuel + 1) m.enclosingOrNone >>= _)) _
  rw [onStore_bind, allTypeArguments, onStore_bind]
  refine .map (P := fun _ ts => ts = []) ?_ fun _ ts _ hts => by rw [hts, hn.2.1]; rfl
  refine (Yields.typeNode (Q := fun _ m => m.kind = .noType .none)
    (hn.2.2.1.later hT)).bind fun V k hV hk => ?_
  rw [hk V .rfl]
  exact yields_pure fun _ _ => rfl

include ht hn in
theorem yields_isParameterized (hf : 2 ≤ fuel) :
    Yields S (onStore (isParameterized fuel t)) fun _ b => b = false := by
  rw [isParameterized, onStore_bind]
  exact (yields_allTypeArguments ht hn hf).map fun _ ts _ hts => by rw [hts]; rfl

include H ht hn in
/-- What a declaration names is seen from a plain type as it is. -/
theorem yields_seenFrom (hf : 2 ≤ fuel) (named : TypeId) :
    Yields S (seenFrom fuel t e named) fun _ k => k = named := by
  refine (yields_isRaw H ht hn hf).bind_eq fun T hT => ?_
  have htT := ht.mono hT.le
  refine (yields_isParameterized htT (hn.later hT) hf).bind_eq fun U hU => ?_
  exact yields_pure fun _ _ => rfl

end Readings

end Session

end JavaTypes
