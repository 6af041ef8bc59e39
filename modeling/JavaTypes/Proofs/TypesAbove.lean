import JavaTypes.Proofs.EqualSameTypes
import JavaTypes.Proofs.SupertypeSearch

/-!
# The types above a type

What is above a type is said here for types of every kind, and for any session: nothing is asked of the
declarations.

* `Session.StepsUp T t k`: the session knows a step up from `t` to `k`. Every type steps up to `Object`,
  and an array to its component, since what is above the array are the arrays of what is above the
  component;
* `Session.Above T t x`: steps lead up from `t` to `x`;
* `above_of_known_asSuperFrom`: the search for the supertype that an element declares goes up, and what
  it finds belongs to the element or is an error type;
* `LeadsTo.found`, `found_of_directlyAbove`: the search finds something if it comes to a type of the
  element.
-/

namespace JavaTypes

open Action

namespace Session

variable {T : Session} {e : ElementId} {c d k t u x y : TypeId} {n : TypeNode} {fuel fuel' : Nat}
  {ks : List TypeId} {r : Option TypeId}

/-- A step up from a type that a session knows of. -/
inductive StepsUp (T : Session) : TypeId → TypeId → Prop
  | node {t u : TypeId} {n : TypeNode} (h : T.store.peekType t = some (u, n)) : StepsUp T t u
  | superclass {t k : TypeId} {fuel : Nat} (h : Known (supertype fuel t) T k) : StepsUp T t k
  | interface {t k : TypeId} {fuel : Nat} {ks : List TypeId} (h : Known (interfaces fuel t) T ks)
      (hk : k ∈ ks) : StepsUp T t k
  | upper {t k : TypeId} (h : Known (upperBound t) T k) : StepsUp T t k
  | bound {t u k : TypeId} {n : TypeNode} {bounds : List TypeId} (h : T.store.peekType t = some (u, n))
      (hn : n.shape = .intersection bounds) (hk : k ∈ bounds) : StepsUp T t k
  | component {t u k : TypeId} {n : TypeNode} (h : T.store.peekType t = some (u, n))
      (hn : n.shape = .array (some k)) : StepsUp T t k
  | object {t : TypeId} {known : WellKnown} (h : Known wellKnown T known) :
      StepsUp T t known.objectType
  | array {t u k : TypeId} {n : TypeNode} {known : WellKnown} {component : Option TypeId}
      (ht : T.store.peekType t = some (u, n)) (hn : n.shape = .array component)
      (h : Known wellKnown T known) (hk : k = known.cloneableType ∨ k = known.serializableType) :
      StepsUp T t k

/-- A type is above another: steps lead up to it. -/
def Above (T : Session) : TypeId → TypeId → Prop :=
  Relation.ReflTransGen T.StepsUp

theorem Above.step (h : T.StepsUp t k) (hk : T.Above k x) : T.Above t x :=
  Relation.ReflTransGen.head h hk

theorem DirectlyAbove.above (h : T.DirectlyAbove t ks) (hk : k ∈ ks) : T.Above t k := by
  obtain ⟨fuel, above, r, is, habove, hr, his, rfl⟩ := h
  rcases List.mem_append.1 hk with hk | hk
  · obtain ⟨v, m, -, rfl⟩ := known_unlessNone.1 hr
    split at hk
    · cases hk
    · obtain rfl := List.mem_singleton.1 hk
      exact .single (.superclass habove)
  · exact .single (.interface his hk)

/-- The element that a type belongs to. Error types do not count. -/
def BelongsTo (T : Session) (t : TypeId) (e : ElementId) : Prop :=
  ∃ u n, T.store.peekType t = some (u, n) ∧ n.kind ≠ .error ∧ Known (onStore n.elementOf) T (some e)

/-- The types that the session knows as `Object`, `Cloneable` and `Serializable` are of these
classes. -/
def LanguageTypes (T : Session) : Prop :=
  ∀ known, Known wellKnown T known → T.IsClass known.objectType known.object ∧
    T.IsClass known.cloneableType known.cloneable ∧ T.IsClass known.serializableType known.serializable

theorem IsClass.kind_eq (h : T.IsClass t e) (ht : T.Shows t u n) : n.kind = .declared := by
  obtain ⟨u', n', d, m, ht', hn, -⟩ := h
  cases ht.symm.trans ht'
  exact hn

theorem IsClass.belongsTo (h : T.IsClass t e) : T.BelongsTo t e := by
  obtain ⟨u, n, d, m, ht, hn, hd, hm⟩ := h
  refine ⟨u, n, ht, ?_, IsClass.known_elementOf ⟨u, n, d, m, ht, hn, hd, hm⟩ ht⟩
  rw [hn]
  nofun

theorem known_objectType (h : Known objectType T k) :
    ∃ known, Known wellKnown T known ∧ k = known.objectType := by
  obtain ⟨known, hknown, rfl⟩ := known_map.1 h
  exact ⟨known, hknown, rfl⟩

theorem known_upperBound {b : TypeId} (ht : T.Shows t u n) : Known (upperBound t) T b ↔
      n.upperBound = some b ∨ n.upperBound = none ∧ Known objectType T b := by
  have hupper : Known (onStore (declaredUpperBound t)) T n.upperBound :=
    known_onStore.2 ((known_typeNode.2 ⟨u, ht⟩).bind rfl)
  constructor
  · intro h
    have h := hupper.of_bind h
    cases hbound : n.upperBound with
    | some c =>
      rw [hbound] at h
      exact .inl (by rw [known_pure.1 h])
    | none =>
      rw [hbound] at h
      exact .inr ⟨rfl, h⟩
  · rintro (h | ⟨h, hb⟩)
    · exact hupper.bind (by rw [h]; rfl)
    · exact hupper.bind (by rw [h]; exact hb)

/-! ### What a search finds -/

/-- A type that a search for `e` can find. -/
def IsFound (T : Session) (e : ElementId) (x : TypeId) : Prop :=
  T.BelongsTo x e ∨ ∃ u n, T.store.peekType x = some (u, n) ∧ n.kind = .error

/-- A search for `e` can find those of the types `Object`, `Cloneable` and `Serializable` that it looks
for. -/
def LanguageFound (T : Session) (e : ElementId) : Prop :=
  ∀ known x, Known wellKnown T known → known.aboveArrays e = some x → T.IsFound e x

theorem LanguageTypes.found (L : T.LanguageTypes) (e : ElementId) : T.LanguageFound e := by
  intro known x hknown h
  obtain ⟨hobject, hcloneable, hserializable⟩ := L known hknown
  unfold WellKnown.aboveArrays at h
  split at h
  · next heq =>
    cases h
    exact .inl (heq ▸ hobject.belongsTo)
  split at h
  · next heq =>
    cases h
    exact .inl (heq ▸ hcloneable.belongsTo)
  split at h
  · next heq =>
    cases h
    exact .inl (heq ▸ hserializable.belongsTo)
  · cases h

theorem above_of_known_implicitObject (L : T.LanguageFound e)
    (h : Known (implicitObject e) T (some x)) : T.Above t x ∧ T.IsFound e x := by
  rcases known_implicitObject h with ⟨y, heq, ⟨known, hknown, rfl⟩, hx⟩ | ⟨heq, -⟩
  · cases heq
    obtain ⟨known', hknown', rfl⟩ := known_objectType hx
    cases hknown.unique hknown'
    exact ⟨.single (.object hknown), L known _ hknown (if_pos rfl)⟩
  · cases heq

theorem above_of_aboveArrays {known : WellKnown} (hknown : Known wellKnown T known)
    (ht : T.Shows t u n) {component : Option TypeId}
    (hn : n.shape = .array component) (h : known.aboveArrays e = some x) : T.Above t x := by
  unfold WellKnown.aboveArrays at h
  split at h
  · cases h
    exact .single (.object hknown)
  split at h
  · cases h
    exact .single (.array ht hn hknown (.inl rfl))
  split at h
  · cases h
    exact .single (.array ht hn hknown (.inr rfl))
  · cases h

section Node

variable {seen : List ElementId}

theorem cases_of_known_asSuperNode_declared {x : DeclaredType} (hn : n.shape = .declared x)
    (h : Known (asSuperNode e fuel (asSuperFrom e fuel) seen (u, n)) T r) :
    ∃ own, Known (onStore n.elementOf) T own ∧
      Known (asSuperDeclared e fuel (asSuperFrom e fuel) seen u own) T r := by
  unfold asSuperNode at h
  rw [hn] at h
  exact known_bind.1 h

/-- A search from a variable finds the variable, or what is found from its bound. -/
theorem cases_of_known_asSuperNode_typeVar {x : TypeVariable} (hn : n.shape = .typeVar x)
    (h : Known (asSuperNode e fuel (asSuperFrom e fuel) seen (u, n)) T r) :
    (Known (onStore n.elementOf) T (some e) ∧ r = some u) ∨
      (∃ own ∈ seen, Known (onStore n.elementOf) T (some own) ∧ r = none) ∨
        ∃ bound seen', Known (upperBound u) T bound ∧ Known (asSuperFrom e fuel seen' bound) T r ∧
          ∀ a ∈ seen', a ∈ seen ∨ Known (onStore n.elementOf) T (some a) := by
  unfold asSuperNode at h
  rw [hn] at h
  obtain ⟨own, hown, h⟩ := (known_bind_of fun e => by cases e <;> infer_instance).1 h
  cases own with
  | none =>
    obtain ⟨bound, hbound, h⟩ := known_bind.1 h
    exact .inr (.inr ⟨bound, seen, hbound, h, fun a ha => .inl ha⟩)
  | some own =>
    dsimp only at h
    split at h
    · next heq =>
      cases heq
      exact .inl ⟨hown, known_pure.1 h⟩
    · obtain ⟨bound, hbound, h⟩ := known_bind.1 h
      split at h
      · next hseen => exact .inr (.inl ⟨own, hseen, hown, known_pure.1 h⟩)
      · refine .inr (.inr ⟨bound, own :: seen, hbound, h, fun a ha => ?_⟩)
        rcases List.mem_cons.1 ha with rfl | ha
        · exact .inr hown
        · exact .inl ha

/-- A search from an intersection finds what is found from its bounds, or `Object`. -/
theorem cases_of_known_asSuperNode_intersection (hn : n.shape = .intersection ks)
    (h : Known (asSuperNode e fuel (asSuperFrom e fuel) seen (u, n)) T r) :
    ∃ found, Known (firstFound (asSuperFrom e fuel seen) ks) T found ∧
      (found.isSome = true ∧ r = found ∨ found = none ∧ Known (implicitObject e) T r) := by
  unfold asSuperNode at h
  rw [hn] at h
  obtain ⟨found, hfound, h⟩ := (known_bind_of fun r => by cases r <;> infer_instance).1 h
  refine ⟨found, hfound, ?_⟩
  cases found with
  | some x => exact .inl ⟨rfl, known_pure.1 h⟩
  | none => exact .inr ⟨rfl, h⟩

end Node

/-- A search goes up, to a type of the element that it looks for or to an error type. -/
theorem above_of_known_asSuperFrom (L : T.LanguageFound e) : ∀ {fuel : Nat} {seen : List ElementId}
    {t x : TypeId}, Known (asSuperFrom e fuel seen t) T (some x) → T.Above t x ∧ T.IsFound e x
  | 0, _, _, _, h => by cases h
  | fuel + 1, seen, t, x, h => by
      obtain ⟨_, u, n, ⟨⟩, ht, h⟩ := node_of_known_asSuperFrom h
      have hu := ht.self
      have hself : n.kind ≠ .error → Known (onStore n.elementOf) T (some e) →
          T.Above t u ∧ T.IsFound e u := fun hn he => ⟨.single (.node ht), .inl ⟨u, n, hu, hn, he⟩⟩
      have hstep : ∀ {seen k}, T.StepsUp u k → Known (asSuperFrom e fuel seen k) T (some x) →
          T.Above t x ∧ T.IsFound e x := fun hk hx =>
        (above_of_known_asSuperFrom L hx).imp_left fun h => .step (.node ht) (.step hk h)
      cases hn : n.shape with
      | declared d =>
        obtain ⟨own, hown, h⟩ := cases_of_known_asSuperNode_declared hn h
        cases own with
        | none => cases known_pure.1 h
        | some own =>
          rcases cases_of_known_asSuperDeclared h with
            ⟨rfl, heq⟩ | ⟨-, found, hfound, ⟨-, rfl⟩ | ⟨-, himplicit⟩⟩
          · cases heq
            exact hself (by rw [TypeNode.kind, hn]; rintro ⟨⟩) hown
          · split at hfound
            · cases known_pure.1 hfound
            obtain ⟨above, q, habove, -, hcases⟩ := cases_of_known_searchAbove hfound
            rcases hcases with ⟨y, -, hy, heq⟩ | ⟨-, is, his, hfirst⟩
            · cases heq
              exact hstep (.superclass habove) hy
            · obtain ⟨k, hk, hx⟩ := exists_of_known_firstFound hfirst
              exact hstep (.interface his hk) hx
          · exact above_of_known_implicitObject L himplicit
      | typeVar v =>
        rcases cases_of_known_asSuperNode_typeVar hn h with
          ⟨he, heq⟩ | ⟨_, _, _, heq⟩ | ⟨bound, _, hbound, h, -⟩
        · cases heq
          exact hself (by rw [TypeNode.kind, hn]; rintro ⟨⟩) he
        · cases heq
        · exact hstep (.upper hbound) h
      | intersection bounds =>
        obtain ⟨found, hfound, ⟨-, rfl⟩ | ⟨-, himplicit⟩⟩ :=
          cases_of_known_asSuperNode_intersection hn h
        · obtain ⟨k, hk, hx⟩ := exists_of_known_firstFound hfound
          exact hstep (.bound hu hn hk) hx
        · exact above_of_known_implicitObject L himplicit
      | array component =>
        unfold asSuperNode at h
        rw [hn] at h
        obtain ⟨known, hknown, hx⟩ := known_map.1 h
        exact ⟨above_of_aboveArrays hknown ht hn hx.symm, L known _ hknown hx.symm⟩
      | error d =>
        unfold asSuperNode at h
        rw [hn] at h
        cases known_pure.1 h
        exact ⟨.single (.node ht), .inr ⟨_, n, hu, congrArg TypeShape.kind hn⟩⟩
      | _ =>
        unfold asSuperNode at h
        rw [hn] at h
        cases known_pure.1 h

/-! ### When something is found -/

/-- A search for `e` that comes to the type finds something: the type is of the class `e`, or it is an
intersection with such a bound. -/
inductive LeadsTo (T : Session) (e : ElementId) : TypeId → Prop
  | here {t : TypeId} (h : T.IsClass t e) : LeadsTo T e t
  | bound {t u k : TypeId} {n : TypeNode} {bounds : List TypeId} (h : T.store.peekType t = some (u, n))
      (hn : n.shape = .intersection bounds) (hk : k ∈ bounds) (hlead : LeadsTo T e k) : LeadsTo T e t

theorem ne_none_of_known_firstFound {search : TypeId → Query (Option TypeId)}
    [hs : ∀ t, Settles (search t) (search t)] (hk : k ∈ ks)
    (hsome : ∀ r, Known (search k) T r → r ≠ none) : Known (firstFound search ks) T r → r ≠ none := by
  intro h
  induction ks with
  | nil => cases hk
  | cons k' ks ih =>
    rcases cases_of_known_firstFound h with ⟨x, -, rfl⟩ | ⟨hnone, h⟩
    · nofun
    · rcases List.mem_cons.1 hk with rfl | hk
      · exact absurd rfl (hsome none hnone)
      · exact ih hk h

theorem known_supertype_unique (h : Known (supertype fuel t) T k) (h' : Known (supertype fuel' t) T d) :
    k = d :=
  Known.unique (x := supertype (max fuel fuel') t) (h.grow le_rfl) (h'.grow le_rfl)

theorem known_interfaces_unique {is : List TypeId} (h : Known (interfaces fuel t) T ks)
    (h' : Known (interfaces fuel' t) T is) : ks = is :=
  Known.unique (x := interfaces (max fuel fuel') t) (h.grow le_rfl) (h'.grow le_rfl)

/-- A search for the element of a declared type finds the type. -/
theorem eq_of_known_asSuperFrom {seen : List ElementId} (ht : T.Shows t u n) (hn : n.kind = .declared)
    (he : Known (onStore n.elementOf) T (some e)) (h : Known (asSuperFrom e fuel seen t) T r) :
    r = some u := by
  obtain ⟨fuel, u', n', rfl, ht', h⟩ := node_of_known_asSuperFrom h
  cases ht.symm.trans ht'
  obtain ⟨d, hd⟩ := TypeNode.shape_of_declared hn
  obtain ⟨own, hown, h⟩ := cases_of_known_asSuperNode_declared hd h
  obtain rfl := he.unique hown
  exact ((cases_of_known_asSuperDeclared h).resolve_right fun h => h.1 rfl).2

theorem LeadsTo.found (hlead : T.LeadsTo e t) : ∀ {fuel : Nat} {seen : List ElementId}
    {r : Option TypeId}, Known (asSuperFrom e fuel seen t) T r → r ≠ none := by
  induction hlead with
  | here h =>
    intro fuel seen r hr
    have hclass := h
    obtain ⟨u, n, -, -, ht, hn, -⟩ := h
    rw [eq_of_known_asSuperFrom ht hn (hclass.known_elementOf ht) hr]
    nofun
  | bound h hn hk _ ih =>
    intro fuel seen r hr
    obtain ⟨fuel, u, n, rfl, ht, hr⟩ := node_of_known_asSuperFrom hr
    cases h.symm.trans ht
    obtain ⟨found, hfound, hcases⟩ := cases_of_known_asSuperNode_intersection hn hr
    have hsome := ne_none_of_known_firstFound hk (fun r hr => ih hr) hfound
    obtain ⟨-, rfl⟩ := hcases.resolve_right fun h => hsome h.1
    exact hsome

theorem ne_none_of_known_implicitObject (he : T.IsObject e) (h : Known (implicitObject e) T r) :
    r ≠ none := by
  rcases known_implicitObject h with ⟨x, rfl, -⟩ | ⟨-, hne⟩
  · nofun
  · exact absurd he hne

/-- A search for `Object` finds something from every intersection, and from every type of a class. -/
theorem found_of_isObject (he : T.IsObject e) (ht : T.Shows t u n)
    (hn : n.kind = .declared ∧ n.element ≠ none ∨ ∃ bounds, n.shape = .intersection bounds)
    {seen : List ElementId} (hr : Known (asSuperFrom e fuel seen t) T r) : r ≠ none := by
  obtain ⟨fuel, u', n', rfl, ht', hr⟩ := node_of_known_asSuperFrom hr
  cases ht.symm.trans ht'
  have hcases : ∀ {found : Option TypeId},
      (found.isSome = true ∧ r = found ∨ found = none ∧ Known (implicitObject e) T r) → r ≠ none := by
    rintro found (⟨hsome, rfl⟩ | ⟨-, himplicit⟩)
    · exact Option.isSome_iff_ne_none.1 hsome
    · exact ne_none_of_known_implicitObject he himplicit
  rcases hn with ⟨hn, helement⟩ | ⟨bounds, hbounds⟩
  · obtain ⟨d, hd⟩ := TypeNode.shape_of_declared hn
    obtain ⟨own, hown, hr⟩ := cases_of_known_asSuperNode_declared hd hr
    cases own with
    | none => exact absurd (known_elementOf_none.1 hown) helement
    | some own =>
      rcases cases_of_known_asSuperDeclared hr with ⟨-, rfl⟩ | ⟨-, found, -, h⟩
      · nofun
      · exact hcases h
  · obtain ⟨found, -, h⟩ := cases_of_known_asSuperNode_intersection hbounds hr
    exact hcases h

/-- A search that begins below a type of the class finds something. -/
theorem found_of_directlyAbove (ht : T.Shows t t n) (hn : n.kind = .declared)
    (helement : n.element ≠ none) (habove : T.DirectlyAbove t ks) (hk : k ∈ ks)
    (hlead : T.LeadsTo e k) (hr : Known (asSuperFrom e fuel [] t) T r) : r ≠ none := by
  obtain ⟨fuel, u, n', rfl, ht', hr⟩ := node_of_known_asSuperFrom hr
  cases ht.symm.trans ht'
  obtain ⟨d, hd⟩ := TypeNode.shape_of_declared hn
  obtain ⟨own, hown, hr⟩ := cases_of_known_asSuperNode_declared hd hr
  cases own with
  | none => exact absurd (known_elementOf_none.1 hown) helement
  | some own =>
    rcases cases_of_known_asSuperDeclared hr with ⟨-, rfl⟩ | ⟨-, found, hfound, hcases⟩
    · nofun
    have hsome : found ≠ none := by
      obtain ⟨f, above, q, is, habove, hq, his, rfl⟩ := habove
      obtain ⟨above', q', habove', hq', hcases⟩ := cases_of_known_searchAbove hfound
      obtain rfl := known_supertype_unique habove habove'
      obtain rfl := hq.unique hq'
      rcases hcases with ⟨x, -, -, rfl⟩ | ⟨hnone, is', his', hfirst⟩
      · nofun
      obtain rfl := known_interfaces_unique his his'
      rcases List.mem_append.1 hk with hk | hk
      · obtain ⟨v, m, -, rfl⟩ := known_unlessNone.1 hq
        split at hk
        · cases hk
        · next hpresent =>
          obtain rfl := List.mem_singleton.1 hk
          exact absurd rfl (hlead.found (hnone (if_neg hpresent)))
      · exact ne_none_of_known_firstFound hk (fun _ => hlead.found) hfirst
    obtain ⟨-, rfl⟩ := hcases.resolve_right fun h => hsome h.1
    exact hsome

end Session

end JavaTypes
