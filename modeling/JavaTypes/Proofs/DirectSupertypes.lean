import JavaTypes.Proofs.SubtypeSteps

/-!
# Direct supertypes are supertypes

The direct supertypes of a type are made from what its declaration names, and a question whether a type
is a subtype of another searches for a supertype and compares arguments. The two agree where the
hierarchy reaches each element with one type only, with exceptions that lie in the question:

* it compares an intersection with declared types only, so a bound of an intersection that is an array
  or a type variable is missed;
* a captured variable with a bound from below is left for this bound;
* the type is captured first, and its direct supertypes are not.

`Session.Missed` says what is missed by the first two, and `Session.WildcardFree` excludes the third.
-/

namespace JavaTypes

open Action Equality

namespace Session

variable {S T : Session} {p : Premises} {k fuel : Nat} {e : ElementId} {b c d s t u v x : TypeId}
  {m n : TypeNode} {ds ks : List TypeId}

/-! ### Hierarchies -/

/-- The hierarchy above a type reaches each element with a single parameterization, up to equality. -/
def SingleParameterization (T : Session) (t : TypeId) : Prop :=
  ∀ x y e, T.Above t x → T.Above t y → T.BelongsTo x e → T.BelongsTo y e → T.TypesEqual x y

/-- What is above a type is well kinded: declared types have elements, and what is named as a superclass
or an interface is declared or an error. -/
structure WellKinded (T : Session) (t : TypeId) : Prop where
  language : T.LanguageTypes
  derived : T.DerivesShapes
  regular : ∀ {x}, T.Above t x → T.Regular x
  element : ∀ {x u n}, T.Above t x → T.store.peekType x = some (u, n) → n.kind = .declared →
    n.element ≠ none
  named : ∀ {x u n ks}, T.Above t x → T.store.peekType x = some (u, n) → n.kind = .declared →
    T.DirectlyAbove x ks → ∀ d ∈ ks, ∀ v m, T.store.peekType d = some (v, m) →
      m.kind = .declared ∨ m.kind = .error

theorem SingleParameterization.above (h : T.SingleParameterization t) (ht : T.Above t c) :
    T.SingleParameterization c :=
  fun x y e hx hy => h x y e (ht.trans hx) (ht.trans hy)

theorem WellKinded.above (h : T.WellKinded t) (ht : T.Above t c) : T.WellKinded c where
  language := h.language
  derived := h.derived
  regular hx := h.regular (ht.trans hx)
  element hx := h.element (ht.trans hx)
  named hx := h.named (ht.trans hx)

/-- A subtype question does not find a direct supertype. -/
inductive Missed (T : Session) : TypeId → TypeId → Prop
  | bound {t u d v : TypeId} {m n : TypeNode} {bounds : List TypeId}
      (ht : T.store.peekType t = some (u, m)) (hm : m.shape = .intersection bounds)
      (hd : T.store.peekType d = some (v, n))
      (hn : n.kind ≠ .declared ∧ n.kind ≠ .error ∧ n.kind ≠ .intersection) : Missed T t d
  | nested {t u d v b : TypeId} {m n : TypeNode} {bounds bounds' : List TypeId}
      (ht : T.store.peekType t = some (u, m)) (hm : m.shape = .intersection bounds)
      (hd : T.store.peekType d = some (v, n)) (hn : n.shape = .intersection bounds')
      (hb : b ∈ bounds') (h : Missed T t b) : Missed T t d
  | upper {t u k d v : TypeId} {m n : TypeNode} {bounds : List TypeId}
      (ht : T.store.peekType t = some (u, m)) (hm : m.kind = .typeVar)
      (hk : Known (upperBound u) T k) (hn : T.store.peekType k = some (v, n))
      (hbounds : n.shape = .intersection bounds) (h : Missed T k d) : Missed T t d
  | lower {t d v lower : TypeId} {n : TypeNode} (hd : T.store.peekType d = some (v, n))
      (h : T.StandsFor v lower) : Missed T t d
  | component {t u c d v c' : TypeId} {m n : TypeNode} (ht : T.store.peekType t = some (u, m))
      (hm : m.shape = .array (some c)) (hd : T.store.peekType d = some (v, n))
      (hn : n.shape = .array (some c')) (h : Missed T c c') : Missed T t d

theorem Missed.of_node (ht : T.Shows t u m) (h : T.Missed u d) : T.Missed t d := by
  have hu := ht.self
  induction h with
  | bound hu' hm hd hn =>
    cases hu.symm.trans hu'
    exact .bound ht hm hd hn
  | nested hu' hm hd hn hb _ ih =>
    have hmissed := ih ht hu
    cases hu.symm.trans hu'
    exact .nested ht hm hd hn hb hmissed
  | upper hu' hm hk hn hbounds h =>
    cases hu.symm.trans hu'
    exact .upper ht hm hk hn hbounds h
  | lower hd h => exact .lower hd h
  | component hu' hm hd hn h =>
    cases hu.symm.trans hu'
    exact .component ht hm hd hn h

/-! ### Declared supertypes -/

theorem certain_containsArguments_of (hs : T.Shows s u n) (ht : T.Shows t v m)
    (h : ∀ q, List.Forall₂ (fun a b => Certain ((judgements k).containsType q a b) T)
      n.arguments m.arguments) : Certain ((judgements k).containsArguments p s t) T := by
  refine .of_known hs.known (.of_known ht.known ?_)
  dsimp only
  split
  · exact certain_true
  · exact certain_sameLists (h _)

theorem certain_containsArguments (h : T.TypesEqual s t) (hs : T.Regular s) (ht : T.Regular t)
    (hn : T.Shows s u n) (hm : T.Shows t v m) (hkind : n.kind = .declared) :
    Certain ((judgements k).containsArguments p s t) T := by
  obtain ⟨-, -, harguments⟩ := h.declaredParts hn hm hkind
  have hkind' := (EqualTypes.kind_eq h hn hm).symm.trans hkind
  refine certain_containsArguments_of hn hm fun q =>
    forall₂_imp_of_mem (fun a ha b hb hab => ?_) harguments
  exact certain_containsType hab (hs.argument hn hkind ha) (ht.argument hm hkind' hb)

theorem certain_enclosingBelow (h : T.TypesEqual t s) (ht : T.Regular t) (hs : T.Regular s)
    (hm : T.Shows t u m) (hn : T.Shows s v n)
    (hkind : m.kind = .declared) : Certain ((judgements k).enclosingBelow p m n) T := by
  have hkind' := (EqualTypes.kind_eq h hm hn).symm.trans hkind
  obtain ⟨-, henclosing, -⟩ := h.declaredParts hm hn hkind
  refine certain_enclosingBelow_of fun hy hdeclared => ⟨fun hx => ?_, ?_⟩
  · exact (EqualTypes.kind_eq henclosing hx hy).trans hdeclared
  · exact certain_subtype_of_equal henclosing (ht.enclosing hm ‹_›) (hs.enclosing hn hkind')

section Hierarchy

variable (K : T.WellKinded t) (hsingle : T.SingleParameterization t)

include K hsingle

/-- What is found at the element of a supertype equals the supertype, or is an error type. -/
theorem certain_belowFound (hd : T.Shows d v n) (hn : n.kind = .declared)
    (he : Known (onStore n.elementOf) T (some e)) (habove : T.Above t d) (hx : T.Above t x)
    (hfound : T.IsFound e x) : Certain ((judgements k).belowFound p d n (some x)) T := by
  rcases hfound with hfound | ⟨u, m, hu, herror⟩
  · have hequal := hsingle x d e hx habove hfound ⟨v, n, hd, by rw [hn]; nofun, he⟩
    obtain ⟨u, m, hu, -⟩ := hfound
    have hkind := (EqualTypes.kind_eq hequal hu hd).trans hn
    have hrx := K.regular hx
    have hrd := K.regular habove
    exact certain_belowFound_of hu (fun hne => absurd hkind hne)
      (fun _ => .inr (certain_containsArguments hequal.symm hrd hrx hd hu hn))
      fun _ => certain_enclosingBelow hequal hrx hrd hu hd hkind
  · have hne : m.kind ≠ .declared := by rw [herror]; nofun
    exact certain_belowFound_of hu (fun _ => certain_subtype_error herror hu)
      (fun hm => absurd hm hne) fun hm => absurd hm hne

/-- A type of a class, or an intersection, is below a declared type above it if the search finds
something. -/
theorem certain_belowNode_declared (ht : T.Shows t t m)
    (hm : m.kind = .declared ∨ m.kind = .intersection) (hd : T.Shows d v n)
    (hn : n.kind = .declared) (habove : T.Above t d) (hfound : ∀ {e fuel r}, T.IsClass d e →
      Known (asSuperFrom e fuel [] t) T r → r ≠ none) :
    Certain ((judgements k).belowNode p t d n) T := by
  refine certain_belowNode_of_kind hd (by rw [hn]; nofun) (by rw [hn]; nofun) (by rw [hn]; nofun)
    fun _ => certain_belowByKind_found ht hm hn fun {own} hown => ?_
  cases own with
  | none => exact absurd (known_elementOf_none.1 hown) (K.element habove hd hn)
  | some e =>
    refine ⟨e, rfl, fun hr => ?_⟩
    obtain ⟨x, rfl⟩ := Option.ne_none_iff_exists'.1
      (hfound (isClass_of_known_elementOf hd hn hown) hr)
    obtain ⟨hx, hisFound⟩ := above_of_known_asSuperFrom (K.language.found _) hr
    exact ⟨x, rfl, certain_belowFound K hsingle hd hn hown habove hx hisFound⟩

end Hierarchy

/-- A type is a bound of an intersection, or of an intersection among the bounds. -/
inductive BoundOf (T : Session) : TypeId → TypeId → Prop
  | direct {t u b : TypeId} {m : TypeNode} {bounds : List TypeId}
      (ht : T.store.peekType t = some (u, m)) (hm : m.shape = .intersection bounds) (hb : b ∈ bounds) :
      BoundOf T t b
  | nested {t c w b : TypeId} {x : TypeNode} {bounds : List TypeId} (h : BoundOf T t c)
      (hc : T.store.peekType c = some (w, x)) (hx : x.shape = .intersection bounds) (hb : b ∈ bounds) :
      BoundOf T t b

section Kinds

variable (K : T.WellKinded t) (hsingle : T.SingleParameterization t) {bounds : List TypeId}
  {component : Option TypeId} {known : WellKnown}

include K hsingle

/-- A type of a class is a subtype of its superclass and its interfaces. -/
theorem certain_subtype_declared (ht : T.Shows t u m) (hm : m.kind = .declared)
    (hks : T.DirectlyAbove u ks) (hd : d ∈ ks) : Certain ((judgements k).subtype p false t d) T := by
  refine certain_subtype_nodes fun {k u' m' v n} ht' hd' _ => ?_
  cases ht.symm.trans ht'
  have hu := ht.self
  have htu : T.Above t u := .single (.node ht)
  rcases K.named htu hu hm hks d hd v n hd' with hn | hn
  · refine certain_belowNode_declared (K.above htu) (hsingle.above htu) hu (.inl hm)
      hd'.self hn ?_ fun he hr => ?_
    · exact (hks.above hd).trans (.single (.node hd'))
    · exact found_of_directlyAbove hu hm (K.element htu hu hm) hks hd (.here (he.of_peek hd')) hr
  · obtain ⟨shape, as⟩ := n
    cases shape <;> cases hn
    exact certain_true

omit K hsingle in
theorem BoundOf.above (h : T.BoundOf t b) : T.Above t b := by
  induction h with
  | direct ht hm hb => exact .single (.bound ht hm hb)
  | nested _ hc hn hb ih => exact ih.tail (.bound hc hn hb)

omit K hsingle in
theorem BoundOf.leadsTo (h : T.BoundOf t b) (hlead : T.LeadsTo e b) : T.LeadsTo e t := by
  induction h with
  | direct ht hm hb => exact .bound ht hm hb hlead
  | nested _ hc hn hb ih => exact ih (.bound hc hn hb hlead)

/-- An intersection is a subtype of its bounds, as far as they are not missed. -/
theorem certain_subtype_bound (ht : T.Shows t t m)
    (hm : m.shape = .intersection bounds) : ∀ {k : Nat} {d : TypeId}, T.BoundOf t d → ¬ T.Missed t d →
      Certain ((judgements k).subtype p false t d) T
  | 0, _, _, _ => fun _ h => by cases h
  | k + 1, d, hbound, hmissed => by
      refine certain_subtype_succ fun {u' m' v n} ht' hd _ => ?_
      cases ht.symm.trans ht'
      by_cases hn : n.kind = .declared
      · refine certain_belowNode_declared K hsingle ht (.inr (congrArg TypeShape.kind hm))
          hd.self hn (hbound.above.tail (.node hd)) fun he hr => ?_
        exact (hbound.leadsTo (.here (he.of_peek hd))).found hr
      by_cases herror : n.kind = .error
      · obtain ⟨shape, as⟩ := n
        cases shape <;> cases herror
        exact certain_true
      have hinter : n.kind = .intersection := by
        by_contra hinter
        exact hmissed (.bound ht hm hd ⟨hn, herror, hinter⟩)
      obtain ⟨shape, as⟩ := n
      cases shape <;> cases hinter
      exact certain_belowAll fun b hb => certain_subtype_bound ht hm (.nested hbound hd rfl hb)
        fun h => hmissed (.nested ht hm hd rfl hb h)

omit K hsingle in
/-- A variable is below what its bound is below. -/
theorem certain_belowNode_typeVar (ht : T.Shows t u m) (hm : m.kind = .typeVar)
    (hc : Known (upperBound t) T c) (hinter : n.kind ≠ .intersection) (hlower : ∀ l, ¬ T.StandsFor d l)
    (h : Certain ((judgements k).subtype p false c d) T) :
    Certain ((judgements k).belowNode p t d n) T := by
  refine certain_belowNode_of_other hinter fun _ =>
    certain_belowOther (fun l hl => absurd hl (hlower l)) fun _ => ?_
  refine .of_known (known_onStore.2 (known_typeNode.2 ⟨u, ht⟩)) ?_
  obtain ⟨shape, as⟩ := m
  cases shape <;> cases hm
  exact .of_known hc h

omit K hsingle in
/-- A variable is a subtype of its bound. -/
theorem certain_subtype_upper (ht : T.Shows t t m) (hm : m.kind = .typeVar)
    (hc : Known (upperBound t) T c) (hn : T.Shows c v n)
    (hinter : n.kind ≠ .intersection) (hlower : ∀ l, ¬ T.StandsFor v l) :
    Certain ((judgements k).subtype p false t c) T := by
  refine certain_subtype_nodes fun {k u' m' v' n'} ht' hn' _ => ?_
  cases ht.symm.trans ht'
  cases hn.symm.trans hn'
  exact certain_belowNode_typeVar ht hm hc hinter hlower (certain_subtype_of_node hn hn.self)

omit K hsingle in
/-- A variable is a subtype of a declared type if its bound is. -/
theorem certain_subtype_of_upper (ht : T.Shows t t m) (hm : m.kind = .typeVar)
    (hc : Known (upperBound t) T c) (hd : T.IsClass d e)
    (h : ∀ {k}, Certain ((judgements k).subtype p false c d) T) :
    Certain ((judgements k).subtype p false t d) T := by
  refine certain_subtype_nodes fun {k u' m' v n} ht' hd' _ => ?_
  cases ht.symm.trans ht'
  have hn := hd.kind_eq hd'
  exact certain_belowNode_typeVar ht hm hc (by rw [hn]; nofun)
    (fun l => not_standsFor hd'.self (by rw [hn]; nofun)
      (isCapture_eq_false (by rw [hn]; nofun))) (certain_subtype_to_node hd' h)

/-- A variable is a subtype of the bounds of the intersection that is its bound, as far as they are not
missed. -/
theorem certain_subtype_upperBounds (ht : T.Shows t t m) (hm : m.kind = .typeVar)
    (hc : Known (upperBound t) T c) (hn : T.Shows c v n)
    (hinter : n.shape = .intersection bounds) : ∀ {k : Nat} {d : TypeId}, T.BoundOf v d →
      ¬ T.Missed v d → Certain ((judgements k).subtype p false t d) T
  | 0, _, _, _ => fun _ h => by cases h
  | k + 1, d, hbound, hmissed => by
      have hv := hn.self
      have habove : T.Above t v := .step (.upper hc) (.single (.node hn))
      refine certain_subtype_succ fun {u' m' w x} ht' hd _ => ?_
      cases ht.symm.trans ht'
      by_cases hx : x.kind = .intersection
      · obtain ⟨shape, as⟩ := x
        cases shape <;> cases hx
        exact certain_belowAll fun b hb => certain_subtype_upperBounds ht hm hc hn hinter
          (.nested hbound hd rfl hb) fun h => hmissed (.nested hv hinter hd rfl hb h)
      · refine certain_belowNode_typeVar ht hm hc hx (fun l hl => hmissed (.lower hd hl)) ?_
        exact certain_subtype_of_peek hn (certain_subtype_to_node hd
          (certain_subtype_bound (K.above habove) (hsingle.above habove) hv hinter hbound hmissed))

omit K hsingle in
theorem certain_belowNode_array (ht : T.Shows t u m)
    (hm : m.shape = .array component) (hd : T.Shows d v n)
    (hn : n.kind = .declared ∨ n.kind = .array)
    (h : Certain ((judgements k).arrayBelow p component n) T) :
    Certain ((judgements k).belowNode p t d n) T := by
  have hkind : ∀ kind, kind ≠ .declared → kind ≠ .array → n.kind ≠ kind := by
    rintro kind hne hne' rfl
    exact hn.elim hne hne'
  refine certain_belowNode_of_kind hd (hkind .intersection nofun nofun) (hkind .wildcard nofun nofun)
    (hkind .typeVar nofun nofun) fun _ => ?_
  refine .of_known (known_onStore.2 (known_typeNode.2 ⟨u, ht⟩)) ?_
  rw [hm]
  exact h

omit K hsingle in
/-- An array is a subtype of the declared types above all arrays. -/
theorem certain_subtype_aboveArrays (ht : T.Shows t t m)
    (hm : m.shape = .array component) (hknown : Known wellKnown T known)
    (hd : T.IsClass d e) (hsome : (known.aboveArrays e).isSome = true) :
    Certain ((judgements k).subtype p false t d) T := by
  refine certain_subtype_nodes fun {k u' m' v n} ht' hd' _ => ?_
  cases ht.symm.trans ht'
  have hn := hd.kind_eq hd'
  obtain ⟨x, hx⟩ := TypeNode.shape_of_declared hn
  refine certain_belowNode_array ht hm hd'.self (.inl hn) ?_
  unfold Judgements.arrayBelow
  rw [hx]
  refine .of_known hknown (.of_known (hd.known_elementOf hd') ?_)
  exact fun b hb => (known_pure.1 hb).trans hsome

omit K hsingle in
/-- An array is a subtype of another if the component is a subtype. -/
theorem certain_subtype_array (ht : T.Shows t t m) (hm : m.shape = .array (some c))
    (hd : T.Shows d v n) (hn : n.shape = .array (some x))
    (hc : ∀ u y, T.Shows c u y → y.kind.isPrimitive = false)
    (h : ∀ {k}, Certain ((judgements k).subtype p false c x) T) :
    Certain ((judgements k).subtype p false t d) T := by
  refine certain_subtype_nodes fun {k u' m' v' n'} ht' hd' _ => ?_
  cases ht.symm.trans ht'
  cases hd.symm.trans hd'
  refine certain_belowNode_array ht hm hd.self (.inr (congrArg TypeShape.kind hn)) ?_
  unfold Judgements.arrayBelow
  rw [hn]
  refine .bind fun kind hkind => ?_
  obtain ⟨u, y, hy, rfl⟩ := known_typeKind.1 (known_onStore.1 hkind)
  rw [if_neg (by simp [hc u y hy])]
  exact h

/-- Types of classes and intersections are subtypes of `Object`. -/
theorem certain_subtype_object (hknown : Known wellKnown T known) (ht : T.Shows t u m)
    (hm : m.kind = .declared ∨ ∃ bounds, m.shape = .intersection bounds) :
    Certain ((judgements k).subtype p false t known.objectType) T := by
  refine certain_subtype_nodes fun {k u' m' v n} ht' hd _ => ?_
  cases ht.symm.trans ht'
  have hobject := (K.language known hknown).1
  have hu := ht.self
  have htu : T.Above t u := .single (.node ht)
  have hkind : m.kind = .declared ∨ m.kind = .intersection :=
    hm.imp_right fun ⟨_, hbounds⟩ => congrArg TypeShape.kind hbounds
  refine certain_belowNode_declared (K.above htu) (hsingle.above htu) hu hkind
    hd.self (hobject.kind_eq hd) (.step (.object hknown) (.single (.node hd)))
    fun he hr => ?_
  obtain rfl := he.unique (hobject.of_node hd)
  exact found_of_isObject ⟨known, hknown, rfl⟩ hu
    (hm.imp_left fun hm => ⟨hm, K.element htu hu hm⟩) hr

end Kinds

/-! ### Direct supertypes -/

/-- The types above all arrays are of classes above all arrays. -/
theorem WellKinded.isClass_aboveArrays (K : T.WellKinded t) {known : WellKnown}
    (hknown : Known wellKnown T known)
    (hd : d ∈ [known.objectType, known.cloneableType, known.serializableType]) :
    ∃ e, T.IsClass d e ∧ (known.aboveArrays e).isSome = true := by
  obtain ⟨hobject, hcloneable, hserializable⟩ := K.language known hknown
  simp only [List.mem_cons, List.not_mem_nil, or_false] at hd
  rcases hd with rfl | rfl | rfl
  · exact ⟨_, hobject, WellKnown.isSome_aboveArrays.2 (.inl rfl)⟩
  · exact ⟨_, hcloneable, WellKnown.isSome_aboveArrays.2 (.inr (.inl rfl))⟩
  · exact ⟨_, hserializable, WellKnown.isSome_aboveArrays.2 (.inr (.inr rfl))⟩

theorem node_of_known_supertypesOf (h : Known (supertypesOf fuel t) T ds) :
    ∃ k u m, fuel = k + 1 ∧ T.Shows t u m ∧ Known (supertypesOfNode k (supertypesOf k) (u, m)) T ds :=
  exists_node_of_known (x := (supertypesOf · t)) rfl (fun _ => rfl) h

theorem not_primitive_of_known_isTopComponent (h : Known (isTopComponent c) T false) (u : TypeId)
    (y : TypeNode) (hy : T.Shows c u y) : y.kind.isPrimitive = false := by
  rcases known_either.1 h with ⟨-, hfalse⟩ | ⟨hprim, -⟩
  · cases hfalse
  · obtain ⟨kind, hkind, heq⟩ := known_map.1 hprim
    obtain ⟨u', y', hy', rfl⟩ := known_typeKind.1 (known_onStore.1 hkind)
    cases hy.symm.trans hy'
    exact heq.symm

section Node

variable (h : Known (supertypesOfNode fuel (supertypesOf fuel) (t, m)) T ds)

include h

/-- `Object` has nothing above it. -/
theorem cases_of_known_supertypesOfNode {x : DeclaredType} (hm : m.shape = .declared x) :
    Known (isObject t) T true ∧ ds = [] ∨ Known (isObject t) T false ∧ T.DirectlyAbove t ds := by
  unfold supertypesOfNode at h
  rw [hm] at h
  obtain ⟨object, hobject, h⟩ := known_bind.1 h
  cases object with
  | true => exact .inl ⟨hobject, known_pure.1 h⟩
  | false =>
    obtain ⟨above, habove, h⟩ := known_bind.1 h
    obtain ⟨r, hr, h⟩ := known_bind.1 h
    obtain ⟨is, his, rfl⟩ := known_map.1 h
    exact .inr ⟨hobject, fuel, above, r, is, habove, hr, his, rfl⟩

theorem directlyAbove_of_known_supertypesOfNode {x : DeclaredType} (hm : m.shape = .declared x)
    (hd : d ∈ ds) : T.DirectlyAbove t ds := by
  rcases cases_of_known_supertypesOfNode h hm with ⟨-, rfl⟩ | ⟨-, habove⟩
  · cases hd
  · exact habove

theorem bounds_of_known_supertypesOfNode {x : TypeVariable} (hm : m.shape = .typeVar x) :
    ∃ c v n, Known (upperBound t) T c ∧ T.Shows c v n ∧
      (n.shape = .intersection ds ∨ n.kind ≠ .intersection ∧ ds = [c]) := by
  unfold supertypesOfNode at h
  rw [hm] at h
  obtain ⟨c, hc, h⟩ := (known_bind_of fun c => settles_bind_of fun n => by
    cases n.shape <;> infer_instance).1 h
  obtain ⟨n, hn, h⟩ := (known_bind_of fun n => by cases n.shape <;> infer_instance).1 h
  obtain ⟨v, hn⟩ := known_typeNode.1 (known_onStore.1 hn)
  refine ⟨c, v, n, hc, hn, ?_⟩
  split at h
  · next bounds hbounds =>
    obtain rfl := known_pure.1 h
    exact .inl hbounds
  · next hne =>
    refine .inr ⟨?_, known_pure.1 h⟩
    obtain ⟨shape, as⟩ := n
    cases shape with
    | intersection bounds => exact absurd rfl (hne bounds)
    | _ => rintro ⟨⟩

/-- The direct supertypes of an array are the types above all arrays, or arrays. -/
theorem arrays_of_known_supertypesOfNode {component : Option TypeId} (hm : m.shape = .array component) :
    ∃ known, Known wellKnown T known ∧
      ((known.objectType ∈ ds ∧ ds ⊆ [known.objectType, known.cloneableType, known.serializableType]) ∨
        ∃ c ds', component = some c ∧ Known (isTopComponent c) T false ∧
          Known (supertypesOf fuel c) T ds' ∧ Known (arraysOver known.objectType ds') T ds) := by
  unfold supertypesOfNode at h
  rw [hm] at h
  cases component with
  | none =>
    obtain ⟨known, hknown, h⟩ := known_bind.1 h
    obtain rfl := known_pure.1 h
    exact ⟨known, hknown, .inl (by simp)⟩
  | some c =>
    obtain ⟨known, hknown, h⟩ := known_bind.1 h
    obtain ⟨top, htop, h⟩ := known_bind.1 h
    refine ⟨known, hknown, ?_⟩
    cases top with
    | true =>
      obtain rfl := known_pure.1 h
      exact .inl (by simp)
    | false =>
      obtain ⟨ds', hds', h⟩ := known_bind.1 h
      exact .inr ⟨c, ds', rfl, htop, hds', h⟩

end Node

/-- Each of the arrays over some types is the array of one of them, or of `Object` if there are none. -/
theorem exists_of_known_arraysOver (h : Known (arraysOver x ks) T ds) :
    ds ≠ [] ∧ ∀ d ∈ ds, ∃ c, Known (deriveArray c) T d ∧ (c ∈ ks ∨ ks = [] ∧ c = x) := by
  cases ks with
  | nil =>
    obtain ⟨a, ha, rfl⟩ := known_map.1 h
    refine ⟨List.cons_ne_nil _ _, fun d hd => ⟨x, ?_, .inr ⟨rfl, rfl⟩⟩⟩
    rwa [List.mem_singleton.1 hd]
  | cons c ks =>
    have hall := forall₂_of_known_mapTypes h
    refine ⟨?_, fun d hd => ?_⟩
    · rintro rfl
      cases hall
    · obtain ⟨c', hc', hd⟩ := exists_of_forall₂_right hall hd
      exact ⟨c', hd, .inl hc'⟩

/-- A type without direct supertypes is a subtype of `Object`. -/
theorem certain_subtype_of_no_supertypes (K : T.WellKinded t) (hsingle : T.SingleParameterization t)
    {known : WellKnown} (hknown : Known wellKnown T known) (h : Known (supertypesOf fuel t) T []) :
    Certain ((judgements k).subtype p false t known.objectType) T := by
  obtain ⟨fuel, u, m, rfl, ht, h⟩ := node_of_known_supertypesOf h
  have hu := ht.self
  cases hm : m.shape with
  | declared x =>
    exact certain_subtype_object K hsingle hknown ht (.inl (congrArg TypeShape.kind hm))
  | intersection bounds =>
    exact certain_subtype_object K hsingle hknown ht (.inr ⟨bounds, hm⟩)
  | error x => exact certain_subtype_error (congrArg TypeShape.kind hm) ht
  | typeVar x =>
    obtain ⟨c, v, n, hc, hn, hinter | ⟨-, hnil⟩⟩ := bounds_of_known_supertypesOfNode h hm
    · have htc : T.Above t c := .step (.node ht) (.single (.upper hc))
      exact certain_subtype_of_peek ht (certain_subtype_of_upper hu
        (congrArg TypeShape.kind hm) hc (K.language known hknown).1
        (certain_subtype_object (K.above htc) (hsingle.above htc) hknown hn (.inr ⟨[], hinter⟩)))
    · cases hnil
  | array component =>
    obtain ⟨known', -, ⟨hmem, -⟩ | ⟨c, ds', -, -, -, h⟩⟩ := arrays_of_known_supertypesOfNode h hm
    · cases hmem
    · exact absurd rfl (exists_of_known_arraysOver h).1
  | _ =>
    unfold supertypesOfNode at h
    rw [hm] at h
    cases h

/-- A direct supertype that is not missed is found to be a supertype, if the comparison ends. -/
theorem certain_subtype_directSupertype : ∀ {fuel : Nat} {t d : TypeId} {ds : List TypeId},
    T.WellKinded t → T.SingleParameterization t → Known (supertypesOf fuel t) T ds → d ∈ ds →
      ¬ T.Missed t d → ∀ {k}, Certain ((judgements k).subtype p false t d) T
  | 0, _, _, _, _, _, h, _, _ => by cases h
  | fuel + 1, t, d, ds, K, hsingle, h, hd, hmissed => by
      obtain ⟨_, u, m, ⟨⟩, ht, h⟩ := node_of_known_supertypesOf h
      have hu := ht.self
      have htu : T.Above t u := .single (.node ht)
      have hmissed : ¬ T.Missed u d := fun h => hmissed (h.of_node ht)
      have K := K.above htu
      have hsingle := hsingle.above htu
      refine certain_subtype_of_peek ht ?_
      cases hm : m.shape with
      | declared x =>
        exact certain_subtype_declared K hsingle hu (congrArg TypeShape.kind hm)
          (directlyAbove_of_known_supertypesOfNode h hm hd) hd
      | typeVar x =>
        have hvar : m.kind = .typeVar := congrArg TypeShape.kind hm
        obtain ⟨c, v, n, hc, hn, hinter | ⟨hinter, rfl⟩⟩ := bounds_of_known_supertypesOfNode h hm
        · exact certain_subtype_upperBounds K hsingle hu hvar hc hn hinter
            (.direct hn.self hinter hd)
            fun h => hmissed (.upper hu hvar hc hn hinter (h.of_node hn))
        · obtain rfl := List.mem_singleton.1 hd
          exact certain_subtype_upper hu hvar hc hn hinter fun l hl => hmissed (.lower hn hl)
      | intersection bounds =>
        unfold supertypesOfNode at h
        rw [hm] at h
        obtain rfl := known_pure.1 h
        exact certain_subtype_bound K hsingle hu hm (.direct hu hm hd) hmissed
      | array component =>
        obtain ⟨known, hknown, ⟨-, hsub⟩ | ⟨c, ds', rfl, htop, hds', h⟩⟩ :=
          arrays_of_known_supertypesOfNode h hm
        · obtain ⟨e, he, hsome⟩ := K.isClass_aboveArrays hknown (hsub hd)
          exact certain_subtype_aboveArrays hu hm hknown he hsome
        · obtain ⟨c', hc', hcases⟩ := (exists_of_known_arraysOver h).2 d hd
          have hd' := K.derived _ d (lookup_of_derive hc') nofun
          have huc : T.Above u c := .single (.component hu hm)
          refine certain_subtype_array hu hm hd' rfl (not_primitive_of_known_isTopComponent htop) ?_
          rcases hcases with hmem | ⟨rfl, rfl⟩
          · exact certain_subtype_directSupertype (K.above huc) (hsingle.above huc) hds' hmem
              fun h => hmissed (.component hu hm hd' rfl h)
          · exact certain_subtype_of_no_supertypes (K.above huc) (hsingle.above huc) hknown hds'
      | error x =>
        unfold supertypesOfNode at h
        rw [hm] at h
        obtain rfl := known_pure.1 h
        cases hd
      | _ =>
        unfold supertypesOfNode at h
        rw [hm] at h
        cases h

end Session

end JavaTypes
