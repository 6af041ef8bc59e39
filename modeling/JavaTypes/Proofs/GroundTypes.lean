import JavaTypes.Proofs.ClassGraph

/-!
# Ground types and their order

A type without generics denotes a *ground type*: a primitive type, the null type, a class, or an array
of a ground type. `Ground.Below` gives the subtypes of the language on ground types, from the graph of
classes that a session knows.

* `Session.Denotes T t g`: the type `t` denotes `g`, as far as `T` knows;
* `Ground.Below.refl`, `Ground.Below.trans`, `Ground.Below.antisymm`: the subtypes are partially
  ordered, where for antisymmetry no class may be above itself. Transitivity rests on
  `PlainClasses.eq_or_isObject_of_reaches`: the classes above arrays have only `Object` above them.
-/

namespace JavaTypes

open Action

/-- A type without generics. -/
inductive Ground
  | primitive (p : Primitive)
  | null
  | ofClass (e : ElementId)
  | array (component : Ground)

namespace Ground

/-- The kind of the types that denote a ground type. -/
def kind : Ground → TypeKind
  | primitive p => .primitive p
  | null => .null
  | ofClass _ => .declared
  | array _ => .array

/-- All classes in a ground type are of one kind. -/
def Within (C : ElementId → Prop) : Ground → Prop
  | ofClass e => C e
  | array component => component.Within C
  | _ => True

theorem eq_primitive_of_kind {g : Ground} {p : Primitive} (h : g.kind = .primitive p) :
    g = .primitive p := by
  cases g with
  | primitive q =>
    cases h
    rfl
  | _ => cases h

theorem eq_null_of_kind {g : Ground} (h : g.kind = .null) : g = .null := by
  cases g with
  | null => rfl
  | _ => cases h

end Ground

namespace Session

/-- A type denotes a ground type. -/
def Denotes (T : Session) (t : TypeId) : Ground → Prop
  | .primitive p => ∃ u n, T.store.peekType t = some (u, n) ∧ n.shape = .primitive p
  | .null => ∃ u n, T.store.peekType t = some (u, n) ∧ n.shape = .null
  | .ofClass e => T.IsClass t e
  | .array g => ∃ u n c, T.store.peekType t = some (u, n) ∧ n.shape = .array (some c) ∧ T.Denotes c g

/-- An element declares a supertype of arrays. -/
def IsAboveArrays (T : Session) (e : ElementId) : Prop :=
  ∃ known, Known wellKnown T known ∧ (known.aboveArrays e).isSome = true

section Denotes

variable {S T : Session} {t s u : TypeId} {n : TypeNode} {g h : Ground}

theorem Denotes.mono (hg : S.Denotes t g) (hle : S ≤ T) : T.Denotes t g := by
  induction g generalizing t with
  | primitive | null =>
    obtain ⟨u, n, ht, hn⟩ := hg
    exact ⟨u, n, peekType_mono hle.store ht, hn⟩
  | ofClass e => exact .mono hg hle
  | array g ih =>
    obtain ⟨u, n, c, ht, hn, hc⟩ := hg
    exact ⟨u, n, c, peekType_mono hle.store ht, hn, ih hc⟩

/-- A type denotes what its node says, as does every type with that node. -/
theorem Denotes.exists_node (hg : T.Denotes t g) : ∃ u n, T.Shows t u n ∧ n.kind = g.kind ∧
    ∀ {s}, T.Shows s u n → T.Denotes s g := by
  cases g with
  | primitive | null =>
    obtain ⟨u, n, ht, hn⟩ := hg
    exact ⟨u, n, ht, congrArg TypeShape.kind hn, fun hs => ⟨u, n, hs, hn⟩⟩
  | ofClass e =>
    obtain ⟨u, n, d, m, ht, hn, hrest⟩ := hg
    exact ⟨u, n, ht, hn, fun hs => ⟨u, n, d, m, hs, hn, hrest⟩⟩
  | array g =>
    obtain ⟨u, n, c, ht, hn, hc⟩ := hg
    exact ⟨u, n, ht, congrArg TypeShape.kind hn, fun hs => ⟨u, n, c, hs, hn, hc⟩⟩

theorem Denotes.kind_eq (hg : T.Denotes t g) (ht : T.Shows t u n) : n.kind = g.kind := by
  obtain ⟨_, _, ht', hkind, -⟩ := hg.exists_node
  cases ht.symm.trans ht'
  exact hkind

theorem Denotes.exists_class (hg : T.Denotes t g) (ht : T.Shows t u n)
    (hn : n.kind = .declared) : ∃ e, g = .ofClass e ∧ T.IsClass t e := by
  have hk := (hg.kind_eq ht).symm.trans hn
  cases g with
  | ofClass e => exact ⟨e, rfl, hg⟩
  | _ => cases hk

theorem Denotes.exists_component {c : TypeId} (hg : T.Denotes t g)
    (ht : T.Shows t u n) (hn : n.shape = .array (some c)) :
    ∃ h, g = .array h ∧ T.Denotes c h := by
  have hk : g.kind = .array := (hg.kind_eq ht).symm.trans (congrArg TypeShape.kind hn)
  cases g with
  | array h =>
    obtain ⟨u', n', c', ht', hn', hc⟩ := hg
    cases ht.symm.trans ht'
    cases hn.symm.trans hn'
    exact ⟨h, rfl, hc⟩
  | _ => cases hk

theorem Denotes.congr (hg : T.Denotes t g) (ht : T.Shows t u n)
    (hs : T.Shows s u n) : T.Denotes s g := by
  obtain ⟨_, _, ht', -, hcongr⟩ := hg.exists_node
  cases ht.symm.trans ht'
  exact hcongr hs

theorem Denotes.of_node (hg : T.Denotes t g) (ht : T.Shows t u n) : T.Denotes u g :=
  hg.congr ht ht.self

theorem Denotes.unique (hg : T.Denotes t g) (hh : T.Denotes t h) : g = h := by
  induction g generalizing t h with
  | primitive p =>
    obtain ⟨u, n, ht, hn⟩ := hg
    exact (Ground.eq_primitive_of_kind
      ((hh.kind_eq ht).symm.trans (congrArg TypeShape.kind hn))).symm
  | null =>
    obtain ⟨u, n, ht, hn⟩ := hg
    exact (Ground.eq_null_of_kind ((hh.kind_eq ht).symm.trans (congrArg TypeShape.kind hn))).symm
  | ofClass e =>
    obtain ⟨u, n, d, m, ht, hn, -⟩ := id hg
    obtain ⟨e', rfl, he'⟩ := hh.exists_class ht hn
    rw [IsClass.unique hg he']
  | array g ih =>
    obtain ⟨u, n, c, ht, hn, hc⟩ := hg
    obtain ⟨h', rfl, hc'⟩ := hh.exists_component ht hn
    rw [ih hc hc']

end Denotes

/-! ### Classes above arrays -/

section Above

variable {T : Session} {C : ElementId → Prop} {enough : Nat} {a b : ElementId}

/-- A class that names no supertypes has at most `Object` directly above it, and `Object` has
nothing. -/
theorem PlainClasses.extends_of_namesNone (H : T.PlainClasses C enough) (ha : T.NamesNone a)
    (hab : T.Extends a b) : T.IsObject b ∧ ¬ T.IsObject a := by
  obtain ⟨named, t, hnamed, ht, hb⟩ := hab
  obtain ⟨m, hm, hinterfaces, hsuper⟩ := ha
  obtain ⟨superclass, is, hsuperclass, his, rfl⟩ := known_supertypesNamed.1 hnamed
  obtain rfl := his.unique (known_onStore_declaredInterfaces hm)
  rw [hinterfaces, List.append_nil, Option.mem_toList] at ht
  obtain rfl := Option.mem_def.1 ht
  obtain ⟨-, known, hknown, hne, hcases⟩ := cases_of_known_superclassNamed hm hsuperclass
  obtain ⟨⟨hobject, -⟩, -⟩ := H.wellKnown.of_known .rfl hknown
  rcases hcases with ⟨hsome, hunless⟩ | ⟨-, rfl⟩
  · obtain ⟨t', n, d, m', ht', hk, -⟩ := hb
    have hnone := (hsuper t hsome).of_known (.refl T) (known_onStore.2 (known_viewType.2 ht'))
    cases hk.symm.trans hnone
  · refine ⟨⟨known, hknown, hobject.isClass_unique hb⟩, ?_⟩
    rintro ⟨known', hknown', rfl⟩
    exact hne (by rw [hknown.unique hknown'])

theorem IsObject.isAboveArrays (ha : T.IsObject a) : T.IsAboveArrays a := by
  obtain ⟨known, hknown, rfl⟩ := ha
  exact ⟨known, hknown, WellKnown.isSome_aboveArrays.2 (.inl rfl)⟩

/-- Only `Object` is above a supertype of arrays, and nothing is above `Object`. -/
theorem PlainClasses.eq_or_isObject_of_reaches (H : T.PlainClasses C enough)
    (ha : T.IsAboveArrays a) (hab : T.Reaches a b) : b = a ∨ (T.IsObject b ∧ ¬ T.IsObject a) := by
  have hnames : ∀ {c}, T.IsAboveArrays c → T.NamesNone c := by
    rintro c ⟨known, hknown, hc⟩
    obtain ⟨-, hobject, hcloneable, hserializable⟩ := H.wellKnown.of_known .rfl hknown
    rcases WellKnown.isSome_aboveArrays.1 hc with rfl | rfl | rfl
    · exact hobject
    · exact hcloneable
    · exact hserializable
  induction hab with
  | refl => exact .inl rfl
  | tail _ hbc ih =>
    rcases ih with rfl | ⟨hb, -⟩
    · exact .inr (H.extends_of_namesNone (hnames ha) hbc)
    · exact absurd hb (H.extends_of_namesNone (hnames hb.isAboveArrays) hbc).2

theorem PlainClasses.eq_of_isObject_reaches (H : T.PlainClasses C enough) (ha : T.IsObject a)
    (hab : T.Reaches a b) : b = a :=
  (H.eq_or_isObject_of_reaches ha.isAboveArrays hab).resolve_right fun h => h.2 ha

end Above

end Session

/-! ### Subtypes -/

namespace Ground

/-- The subtypes of the language. Arrays of references are covariant, and arrays of primitive types are
not. -/
inductive Below (T : Session) : Ground → Ground → Prop
  | primitive {p q : Primitive} (h : p = q ∨ p.widensTo q = true) : Below T (.primitive p) (.primitive q)
  | null {g : Ground} (h : g.kind.isReference = true) : Below T .null g
  | ofClass {a b : ElementId} (h : T.Reaches a b ∨ T.IsObject b) : Below T (.ofClass a) (.ofClass b)
  | array {g h : Ground} (hg : g.kind.isPrimitive = false) (hgh : Below T g h) :
      Below T (.array g) (.array h)
  | sameArray (g : Ground) : Below T (.array g) (.array g)
  | aboveArray (g : Ground) {e : ElementId} (he : T.IsAboveArrays e) : Below T (.array g) (.ofClass e)

variable {T : Session} {C : ElementId → Prop} {enough : Nat} {g h k : Ground}

theorem Below.refl (T : Session) (g : Ground) : g.Below T g := by
  cases g with
  | primitive p => exact .primitive (.inl rfl)
  | null => exact .null rfl
  | ofClass e => exact .ofClass (.inl Relation.ReflTransGen.refl)
  | array g => exact .sameArray g

/-- What is above a reference is a reference. -/
theorem Below.isReference (hgh : g.Below T h) (hg : g.kind.isReference = true) :
    h.kind.isReference = true := by
  cases hgh with
  | primitive _ => cases hg
  | null hh => exact hh
  | _ => rfl

theorem below_primitive_iff {p : Primitive} :
    (Ground.primitive p).Below T h ↔ ∃ q, h = .primitive q ∧ (p = q ∨ p.widensTo q = true) := by
  constructor
  · rintro ⟨hpq⟩
    exact ⟨_, rfl, hpq⟩
  · rintro ⟨q, rfl, hpq⟩
    exact .primitive hpq

theorem below_null_iff : Ground.null.Below T h ↔ h.kind.isReference = true := by
  constructor
  · rintro ⟨⟩
    assumption
  · exact .null

theorem below_ofClass_iff {a : ElementId} :
    (Ground.ofClass a).Below T h ↔ ∃ b, h = .ofClass b ∧ (T.Reaches a b ∨ T.IsObject b) := by
  constructor
  · rintro ⟨⟩
    exact ⟨_, rfl, ‹_›⟩
  · rintro ⟨b, rfl, hab⟩
    exact .ofClass hab

theorem below_array_ofClass_iff {e : ElementId} :
    (Ground.array g).Below T (.ofClass e) ↔ T.IsAboveArrays e := by
  constructor
  · rintro ⟨⟩
    assumption
  · exact .aboveArray g

theorem below_array_iff : (Ground.array g).Below T (.array h) ↔
      if g.kind.isPrimitive then g = h else g.Below T h := by
  split
  · next hg =>
    constructor
    · intro hgh
      cases hgh with
      | array hg' _ => cases hg.symm.trans hg'
      | sameArray => rfl
    · rintro rfl
      exact .sameArray g
  · next hg =>
    constructor
    · intro hgh
      cases hgh with
      | array _ hgh => exact hgh
      | sameArray => exact .refl T g
    · exact .array (Bool.eq_false_iff.2 hg)

theorem Below.trans (H : T.PlainClasses C enough) (hgh : g.Below T h) (hhk : h.Below T k) :
    g.Below T k := by
  induction hgh generalizing k with
  | @primitive p q hpq =>
    cases hhk with
    | primitive hqr =>
      rcases hpq with rfl | hpq
      · exact .primitive hqr
      · rcases hqr with rfl | hqr
        · exact .primitive (.inr hpq)
        · exact .primitive (.inr (Primitive.widensTo_trans hpq hqr))
  | null hg => exact .null (hhk.isReference hg)
  | @ofClass a b hab =>
    cases hhk with
    | @ofClass b c hbc =>
      rcases hbc with hbc | hc
      · rcases hab with hab | hb
        · exact .ofClass (.inl (hab.trans hbc))
        · obtain rfl := H.eq_of_isObject_reaches hb hbc
          exact .ofClass (.inr hb)
      · exact .ofClass (.inr hc)
  | @array g h hg hgh ih =>
    cases hhk with
    | array _ hhk => exact .array hg (ih hhk)
    | sameArray => exact .array hg hgh
    | aboveArray _ he => exact .aboveArray g he
  | sameArray g => exact hhk
  | @aboveArray g a ha =>
    cases hhk with
    | ofClass hab =>
      refine .aboveArray g ?_
      rcases hab with hab | hb
      · rcases H.eq_or_isObject_of_reaches ha hab with rfl | ⟨hb, -⟩
        · exact ha
        · exact hb.isAboveArrays
      · exact hb.isAboveArrays

/-- Two different ground types are not below each other, if no class is above itself. -/
theorem Below.antisymm (H : T.PlainClasses C enough)
    (hacyclic : ∀ a, C a → ¬ Relation.TransGen T.Extends a a) (hg : g.Within C) (hgh : g.Below T h)
    (hhg : h.Below T g) : g = h := by
  induction hgh with
  | @primitive p q hpq =>
    cases hhg with
    | primitive hqp =>
      rcases hpq with rfl | hpq
      · rfl
      · rcases hqp with rfl | hqp
        · rfl
        · have hpp := Primitive.widensTo_trans hpq hqp
          rw [Primitive.widensTo_irrefl] at hpp
          cases hpp
  | null hg =>
    cases hhg with
    | null _ => rfl
  | @ofClass a b hab =>
    cases hhg with
    | ofClass hba =>
      rcases hab with hab | hb
      · rcases hba with hba | ha
        · rcases Relation.reflTransGen_iff_eq_or_transGen.1 hab with rfl | hab
          · rfl
          · exact absurd (hab.trans_left hba) (hacyclic a hg)
        · rw [H.eq_of_isObject_reaches ha hab]
      · rcases hba with hba | ha
        · rw [H.eq_of_isObject_reaches hb hba]
        · rw [ha.unique hb]
  | array _ _ ih =>
    cases hhg with
    | array _ hhg => rw [ih hg hhg]
    | sameArray => rfl
  | sameArray g => rfl
  | aboveArray g he => cases hhg

end Ground

end JavaTypes
