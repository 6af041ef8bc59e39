import JavaTypes.Proofs.EqualSameTypes
import JavaTypes.Proofs.TypeLinks

/-!
# Equal types are the same, executable types included

Before two executable types are compared as types, the type variables of the second are replaced by
those of the first. If the types are equal then so are their variables, in order, and what the second
becomes is equal to what it was. That it is so of an array or a wildcard needs that the component, or
the bounds, are no wildcards: a substitution puts the bound of a wildcard in its place.

* `Session.Proper T t`: no array in `t` is one of wildcards, no wildcard is bounded by a wildcard, and
  every type variable has an element. Equal types are proper together (`Proper.of_equal`);
* `typesEqual_renamed`: a type in which variables are replaced by equal ones stays equal;
* `executablesSame_proper`: equal executable types are the same;
* `sameType_of_typesEqual`: so no comparison of equal types says no.
-/

namespace JavaTypes

open Action Equality

/-- The parts of a type in whose places wildcards cannot stand, although a deferred handle may lead to
one. -/
def TypeNode.narrow (n : TypeNode) : List TypeId :=
  n.component.toList ++ n.extendsBound.toList ++ n.superBound.toList

namespace Session

variable {T : Session} {c k s t u v : TypeId} {m n : TypeNode} {fuel : Nat} {same : Bool}
  {r o : Option TypeId}

/-! ### Proper types -/

/-- Nothing that stands for the component of an array or the bound of a wildcard in the type is a
wildcard. -/
def Narrow (T : Session) : TypeId → Prop :=
  T.Throughout fun _ n => ∀ c ∈ n.narrow, ∀ w x, T.store.peekType c = some (w, x) → x.kind ≠ .wildcard

theorem Narrow.of_node (h : T.Narrow t) (ht : T.Shows t u n) : T.Narrow u :=
  Throughout.of_node h ht

theorem Narrow.part (h : T.Narrow t) (ht : T.Shows t u n) (hc : c ∈ n.outline.types.flatten) :
    T.Narrow c :=
  Throughout.part h ht hc

/-- A narrow type in which every type variable has an element. -/
structure Proper (T : Session) (t : TypeId) : Prop where
  narrow : T.Narrow t
  defined : T.Throughout (fun _ n => n.kind = .typeVar → n.element ≠ none) t

theorem Proper.part (h : T.Proper t) (ht : T.Shows t u n)
    (hc : c ∈ n.outline.types.flatten) : T.Proper c :=
  ⟨h.narrow.part ht hc, h.defined.part ht hc⟩

theorem Proper.of_node (h : T.Proper t) (ht : T.Shows t u n) : T.Proper u :=
  ⟨h.narrow.of_node ht, h.defined.of_node ht⟩

theorem TypeNode.bounds_of_narrow {P : TypeId → Prop} (h : ∀ c ∈ n.narrow, P c) :
    ∀ b ∈ n.extendsBound.toList ++ n.superBound.toList, P b :=
  fun b hb => h b (by simpa [TypeNode.narrow] using Or.inr (List.mem_append.1 hb))

theorem Narrow.bounds (h : T.Narrow t) (ht : T.Shows t u n) :
    ∀ b ∈ n.extendsBound.toList ++ n.superBound.toList, ∀ v x, T.Shows b v x → x.kind ≠ .wildcard :=
  TypeNode.bounds_of_narrow (Throughout.here h ht)

theorem Alike.narrow (h : T.Alike m.outline n.outline) :
    List.Forall₂ T.TypesEqual m.narrow n.narrow := by
  have hkind := h.kind_eq
  have hparts := h.types
  obtain ⟨shape, as⟩ := m
  obtain ⟨shape', bs⟩ := n
  cases shape <;> cases shape' <;> cases hkind <;> try exact .nil
  · obtain ⟨⟩ | ⟨hcomponent, -⟩ := hparts
    simpa [TypeNode.narrow, TypeNode.component, TypeNode.extendsBound, TypeNode.superBound]
      using hcomponent
  · obtain ⟨⟩ | ⟨hupper, hrest⟩ := hparts
    obtain ⟨⟩ | ⟨hlower, -⟩ := hrest
    simpa [TypeNode.narrow, TypeNode.component, TypeNode.extendsBound, TypeNode.superBound]
      using List.rel_append hupper hlower

/-- What occurs in one of two equal types equals something that occurs in the other. -/
theorem Occurs.of_equal (h : T.Occurs s v) : ∀ {t}, T.TypesEqual t s →
    ∃ v', T.Occurs t v' ∧ T.TypesEqual v' v := by
  induction h with
  | self s => exact fun {t} hts => ⟨t, .self t, hts⟩
  | @part s u c v n hs hc hv ih =>
    intro t hts
    obtain ⟨w, m, ht, hnodes⟩ := EqualTypes.exists_peek hts.symm hs
    rcases hnodes with ⟨-, rfl⟩ | hnodes
    · exact ⟨v, .part ht hc hv, .refl v⟩
    · obtain ⟨cs, hcs, hc⟩ := List.mem_flatten.1 hc
      obtain ⟨ds, hds, hlists⟩ := exists_of_forall₂_left hnodes.outlines.types hcs
      obtain ⟨d, hd, hcd⟩ := exists_of_forall₂_left hlists hc
      obtain ⟨v', hv', hequal⟩ := ih (.symm hcd)
      exact ⟨v', .part ht (List.mem_flatten.2 ⟨ds, hds, hd⟩) hv', hequal⟩

/-- Equal types are proper together. -/
theorem Proper.of_equal (h : T.Proper t) (hts : T.TypesEqual t s) : T.Proper s := by
  constructor <;> intro v hv u n hn
  all_goals
    obtain ⟨v', hv', hequal⟩ := hv.of_equal hts
    obtain ⟨w, m, hm, hnodes⟩ := EqualTypes.exists_peek hequal.symm hn
  · have hnarrow := h.narrow v' hv' w m hm
    rcases hnodes with ⟨-, rfl⟩ | hnodes
    · exact hnarrow
    have halike : T.Alike n.outline m.outline := hnodes.outlines
    intro c hc w' x hx
    obtain ⟨d, hd, hcd⟩ := exists_of_forall₂_left halike.narrow hc
    obtain ⟨w'', y, hy, -⟩ := EqualTypes.exists_peek hcd hx
    rw [EqualTypes.kind_eq hcd hx hy]
    exact hnarrow d hd w'' y hy
  · have hvar := h.defined v' hv' w m hm
    rcases hnodes with ⟨-, rfl⟩ | hnodes
    · exact hvar
    have halike : T.Alike n.outline m.outline := hnodes.outlines
    intro hkind hnone
    obtain ⟨-, ⟨hkind', -⟩, hrel⟩ := halike.variables hkind
    obtain ⟨d, hd⟩ := Option.ne_none_iff_exists'.1 (hvar hkind')
    obtain ⟨d', hd', -⟩ := exists_of_optionRel_right hrel hd
    cases hnone.symm.trans hd'

/-! ### Renaming variables -/

theorem exists_element_of_elementOf {d : ElementId}
    (h : Known (onStore n.elementOf) T (some d)) : ∃ e, n.element = some e ∧ T.ElementsEqual e d := by
  obtain ⟨e, x, he, hx⟩ := known_elementOf_some.1 h
  exact ⟨e, he, .of_node hx⟩

/-- The outline of a variable that was not captured. -/
theorem TypeNode.outline_variable (hkind : n.kind = .typeVar) (hfree : ¬ n.isCapture = true) :
    n.outline = { kind := some .typeVar, elements := [n.element] } := by
  obtain ⟨shape, annotations⟩ := n
  cases shape with
  | typeVar v =>
    have hnone : ¬ v.capturedFrom.isSome = true := hfree
    simp [TypeNode.outline, TypeNode.element, hnone]
  | _ => cases hkind

/-- A variable of an element, which did not come from a capture. -/
def DeclaredVariable (T : Session) (n : TypeNode) (d : ElementId) : Prop :=
  n.kind = .typeVar ∧ n.isCapture = false ∧ Known (onStore n.elementOf) T (some d)

/-- Variables are the same if they are one node, or belong to equal elements. -/
theorem eq_true_iff_of_sameTypeVariable {w : TypeId} (ht : T.Shows t u m)
    (hv : T.Shows v w n) (h : Known (sameTypeVariable fuel t v) T same) :
    same = true ↔ u = w ∨ ∃ d e, T.DeclaredVariable m d ∧ T.DeclaredVariable n e ∧ T.ElementsEqual d e := by
  rw [sameTypeVariable_eq] at h
  have h := hv.known.of_bind (ht.known.of_bind h)
  unfold sameVariables at h
  split at h
  · next hsame => exact ⟨fun _ => .inl hsame, fun _ => known_pure.1 h⟩
  next hne =>
  rw [or_iff_right hne]
  split at h
  · next hfree =>
    cases known_pure.1 h
    refine ⟨by rintro ⟨⟩, ?_⟩
    rintro ⟨d, e, hd, he, -⟩
    simp [hd.1, hd.2.1, he.1, he.2.1] at hfree
  next hvars =>
  simp only [not_or, not_not, Bool.not_eq_true] at hvars
  obtain ⟨d, hd, h⟩ := known_bind.1 h
  obtain ⟨e, he, h⟩ := known_bind.1 h
  have hnone : d = none ∨ e = none → same = false →
      (same = true ↔ ∃ d e, T.DeclaredVariable m d ∧ T.DeclaredVariable n e ∧ T.ElementsEqual d e) := by
    rintro hnone rfl
    refine ⟨by rintro ⟨⟩, ?_⟩
    rintro ⟨d', e', hd', he', -⟩
    cases hd.unique hd'.2.2
    cases he.unique he'.2.2
    simp at hnone
  cases d with
  | none => exact hnone (.inl rfl) (known_pure.1 h)
  | some d =>
    cases e with
    | none => exact hnone (.inr rfl) (known_pure.1 h)
    | some e =>
      refine ⟨fun hsame => ⟨d, e, ⟨hvars.1, hvars.2.2.1, hd⟩, ⟨hvars.2.1, hvars.2.2.2, he⟩,
        (known_sameElement h).1 hsame⟩, ?_⟩
      rintro ⟨d', e', hd', he', hequal⟩
      cases hd.unique hd'.2.2
      cases he.unique he'.2.2
      exact (known_sameElement h).2 hequal

theorem nodes_of_known_sameTypeVariable
    (h : Known (sameTypeVariable fuel t v) T same) : ∃ u m w n, T.Shows t u m ∧ T.Shows v w n := by
  rw [sameTypeVariable_eq] at h
  obtain ⟨⟨u, m⟩, hu, h⟩ := known_bind.1 h
  obtain ⟨⟨w, n⟩, hw, -⟩ := known_bind.1 h
  exact ⟨u, m, w, n, shows_of_known hu, shows_of_known hw⟩

section Renaming

variable (hq : T.config.includeAnnotations = false)

include hq

/-- Variables that are the same are equal. -/
theorem typesEqual_of_sameTypeVariable {fuel : Nat} (h : Known (sameTypeVariable fuel t v) T true) :
    T.TypesEqual t v := by
  obtain ⟨u, m, w, n, ht, hv⟩ := nodes_of_known_sameTypeVariable h
  rcases (eq_true_iff_of_sameTypeVariable ht hv h).1 rfl with rfl | ⟨d, e, hd, he, hde⟩
  · exact (typesEqual_of_node ht).trans (typesEqual_of_node hv).symm
  · obtain ⟨d', hd', hdd⟩ := exists_element_of_elementOf hd.2.2
    obtain ⟨e', he', hee⟩ := exists_element_of_elementOf he.2.2
    refine typesEqual_of_alike hq ht hv ?_
    rw [TypeNode.outline_variable hd.1 (by simp [hd.2.1]),
      TypeNode.outline_variable he.1 (by simp [he.2.1]), hd', he']
    exact ⟨rfl, rfl, .cons (.some ((hdd.trans hde).trans hee.symm)) .nil, .nil⟩

/-- A variable becomes an equal type if variables are replaced by equal ones. -/
theorem typesEqual_of_renamed {fuel : Nat} {vars vals : List TypeId}
    (hvals : List.Forall₂ T.TypesEqual vars vals) (hu : T.Shows u u n) (hn : n.kind = .typeVar)
    (h : Known (substitute ⟨vars, vals⟩ fuel u) T k) : T.TypesEqual k u := by
  rcases cases_of_known_substitute_typeVar hu hn h with ⟨-, rfl⟩ | ⟨-, f, hr⟩
  · exact .refl _
  clear h
  induction hvals with
  | nil =>
    cases known_pure.1 hr
    exact .refl _
  | cons hequal _ ih =>
    obtain ⟨same, hv, hr⟩ := known_bind.1 hr
    cases same with
    | true =>
      cases known_pure.1 hr
      exact ((typesEqual_of_sameTypeVariable hq hv).trans hequal).symm
    | false => exact ih hr

end Renaming

theorem eq_of_known_lowerBoundAfter (hkind : ∀ u x, T.Shows t u x → x.kind ≠ .wildcard)
    (h : Known (onStore (lowerBoundAfter fuel (some t))) T r) : r = some t := by
  obtain ⟨u, x, hx, ⟨-, rfl⟩ | ⟨hwild, -⟩⟩ := exists_of_known_lowerBoundAfter h
  · rfl
  · exact absurd hwild (hkind u x hx)

/-- What equals a type that is no wildcard is no wildcard. -/
theorem kind_ne_wildcard_of_equal (h : T.TypesEqual k t)
    (hkind : ∀ u x, T.Shows t u x → x.kind ≠ .wildcard) :
    ∀ u x, T.Shows k u x → x.kind ≠ .wildcard := by
  intro u x hx
  obtain ⟨w, y, hy, -⟩ := EqualTypes.exists_peek h hx
  rw [EqualTypes.kind_eq h hx hy]
  exact hkind w y hy

/-- In every place, a part stays equal if the change makes an equal type of it. -/
theorem optionRel_of_renamed {change : TypeId → Query TypeId} {place : PartPlace}
    {P : TypeId → TypeNode → Prop} (hequal : ∀ {c k : TypeId}, T.Throughout P c → Known (change c) T k →
      T.TypesEqual k c) (hc : T.Throughout P c)
    (hnarrow : (place = .above ∨ place = .below) → ∀ w x, T.Shows c w x → x.kind ≠ .wildcard)
    (h : T.Becomes change place c o) : Option.Rel T.TypesEqual o (some c) := by
  cases place with
  | kept =>
    cases h
    exact .some (.refl c)
  | changed =>
    obtain ⟨k, hk, rfl⟩ := h
    exact .some (hequal hc hk)
  | around =>
    obtain ⟨w, y, k, hw, hk, rfl⟩ := h
    refine .some (.trans ?_ (typesEqual_of_node hw).symm)
    split at hk
    · exact hequal (hc.of_node hw) hk
    · exact known_pure.1 hk ▸ TypesEqual.refl k
  -- The part is no wildcard, so nothing takes the place of what it becomes.
  | above =>
    obtain ⟨k, f, l, hk, hl, rfl⟩ := h
    obtain rfl := eq_of_known_wildUpperBound
      (kind_ne_wildcard_of_equal (hequal hc hk) (hnarrow (.inl rfl))) hl
    exact .some (hequal hc hk)
  | below =>
    obtain ⟨k, f, hk, ho⟩ := h
    obtain rfl := eq_of_known_lowerBoundAfter
      (kind_ne_wildcard_of_equal (hequal hc hk) (hnarrow (.inr rfl))) ho
    exact .some (hequal hc hk)

/-- What stands in those places is said not to be a wildcard. -/
theorem mem_narrow_of_parts {p : PartPlace × List TypeId} (hp : p ∈ n.parts) (hc : c ∈ p.2)
    (hplace : p.1 = .above ∨ p.1 = .below) : c ∈ n.narrow := by
  obtain ⟨shape, as⟩ := n
  cases shape <;> simp only [TypeNode.parts, List.mem_cons, List.not_mem_nil, or_false] at hp
  case array component =>
    subst hp
    simpa [TypeNode.narrow, TypeNode.component] using Or.inl hc
  case wildcard w =>
    rcases hp with rfl | rfl
    · simpa [TypeNode.narrow, TypeNode.component, TypeNode.extendsBound] using Or.inl hc
    · simpa [TypeNode.narrow, TypeNode.component, TypeNode.superBound] using Or.inr hc
  all_goals rcases hp with rfl | rfl | rfl | rfl | rfl <;> simp at hplace

theorem Proper.parameter (h : T.Proper t) (ht : T.Shows t u n)
    (hn : n.kind = .executable) (hc : c ∈ n.parameters) : T.Proper c := by
  refine h.part ht ?_
  obtain ⟨shape, as⟩ := n
  cases shape <;> cases hn
  exact List.mem_append_left _ hc

theorem Proper.result (h : T.Proper t) (ht : T.Shows t u n)
    (hn : n.kind = .executable) : T.Proper n.returnOrVoid := by
  refine h.part ht ?_
  obtain ⟨shape, as⟩ := n
  cases shape <;> cases hn
  exact List.mem_append_right _ (List.mem_append_left _ List.mem_cons_self)

/-- Equal executable types have equal parameters, results and type variables. -/
theorem TypesEqual.signature (h : T.TypesEqual t s) (ht : T.Shows t u m)
    (hs : T.Shows s v n) (hm : m.kind = .executable) :
    List.Forall₂ T.TypesEqual m.parameters n.parameters ∧
      T.TypesEqual m.returnOrVoid n.returnOrVoid ∧
        List.Forall₂ T.TypesEqual m.typeVariables n.typeVariables := by
  have hn : n.kind = .executable := (EqualTypes.kind_eq h ht hs).symm.trans hm
  rcases h.alike ht hs with ⟨-, rfl⟩ | halike
  · exact ⟨forall₂_typesEqual_refl _, .refl _, forall₂_typesEqual_refl _⟩
  · obtain ⟨shape, as⟩ := m
    obtain ⟨shape', bs⟩ := n
    cases shape <;> cases hm
    cases shape' <;> cases hn
    obtain ⟨⟩ | ⟨hparameters, hrest⟩ := halike.types
    obtain ⟨⟩ | ⟨hreturn, hrest⟩ := hrest
    obtain ⟨⟩ | ⟨hreturn, -⟩ := hreturn
    obtain ⟨⟩ | ⟨-, hrest⟩ := hrest
    obtain ⟨⟩ | ⟨-, hrest⟩ := hrest
    obtain ⟨⟩ | ⟨hvariables, -⟩ := hrest
    exact ⟨hparameters, hreturn, hvariables⟩

section Renamed

variable (hq : T.config.includeAnnotations = false) (hT : T.DerivesShapes)
  (habsent : ∃ n, T.Shows TypeId.none TypeId.none n ∧ n.kind = .noType .none)

include hq hT habsent

/-- A type in which variables are replaced by equal ones stays equal. -/
theorem typesEqual_renamed {σ : Substitution} {fuel : Nat} (hnarrow : T.Narrow t)
    (hvars : T.Throughout (fun u n => n.kind = .typeVar → ∀ f k,
      Known (substitute σ f u) T k → T.TypesEqual k u) t)
    (h : Known (substitute σ fuel t) T k) : T.TypesEqual k t := by
  have hboth : T.Throughout (fun u n => (∀ c ∈ n.narrow, ∀ w x, T.Shows c w x → x.kind ≠ .wildcard) ∧
      (n.kind = .typeVar → ∀ f k, Known (substitute σ f u) T k → T.TypesEqual k u)) t :=
    fun v hv u n hn => ⟨hnarrow v hv u n hn, hvars v hv u n hn⟩
  clear hnarrow hvars
  induction fuel generalizing t k with
  | zero => cases h
  | succ fuel ih =>
    obtain ⟨x, hx, hkind⟩ := habsent
    obtain ⟨_, u, n, ⟨⟩, ht, -⟩ := node_of_known_substitute h
    obtain ⟨hnarrow, hvars⟩ := hboth.here ht
    rcases cases_of_known_substituteNode hT ⟨_, x, hx, hkind⟩ ht (TypeNode.bounds_of_narrow hnarrow) h with
      ⟨-, rfl⟩ | ⟨-, ⟨hvar, -⟩ | ⟨hvar, hmoved⟩⟩
    · exact (typesEqual_of_node ht).symm
    · exact (hvars hvar _ _ ((known_substitute_of_node ht).2 h)).trans (typesEqual_of_node ht).symm
    · refine hmoved.typesEqual hq hvar ht rfl (optionRel_imp (fun _ _ =>
        elementsEqual_of_coincide) (optionRel_coincideElements_refl n.element)) ?_
      rw [List.forall₂_map_right_iff]
      refine List.forall₂_same.2 fun p hp bs hbs => ?_
      refine forall₂_of_partsBecome hq hbs (partsBecome_kept pure p.2)
        (List.forall₂_same.2 fun c hc o o' ho ho' => ?_)
      cases ho'
      exact optionRel_of_renamed (fun hc hk => ih hk hc)
        (hboth.part ht (TypeNode.mem_outline_of_parts hp hc))
        (fun hplace => hnarrow c (mem_narrow_of_parts hp hc hplace)) ho

/-- Equal executable types are the same: the second, renamed, is equal to what it was. -/
theorem executablesSame_proper : T.ExecutablesSame T.Proper := by
  intro j p t s m n hj same ht hs hpt hps hts hm
  have hvariables := (hts.symm.signature hs ht ((EqualTypes.kind_eq hts ht hs).symm.trans hm)).2.2
  unfold Judgements.sameExecutable
  rw [if_neg (not_not.2 hvariables.length_eq.symm)]
  refine Certain.bind fun k hk => ?_
  refine Certain.bind fun n' hn' => ?_
  obtain ⟨u, hu⟩ := known_typeNode.1 (known_onStore.1 hn')
  have hsk := (typesEqual_renamed hq hT habsent hps.narrow
    (fun _ _ _ _ hn hvar _ _ => typesEqual_of_renamed hq hvariables (Store.peekType_self hn) hvar) hk).symm
  have htk := hts.trans hsk
  have hpk := hps.of_equal hsk
  obtain ⟨hparameters, hreturn, -⟩ := htk.signature ht hu hm
  have hm' := (EqualTypes.kind_eq htk ht hu).symm.trans hm
  refine Certain.both (certain_sameLists ?_) ?_
  · refine forall₂_imp_of_mem (fun a ha b hb hab => ?_) hparameters
    exact same hab (hpt.parameter ht hm ha) (hpk.parameter hu hm' hb)
  · exact same hreturn (hpt.result ht hm) (hpk.result hu hm')

omit hT habsent in
theorem hereditary_proper : T.Hereditary T.Proper where
  of_node h ht := h.of_node ht
  part h ht hc := h.part ht hc
  annotation hannotated := absurd (hq.symm.trans hannotated) Bool.false_ne_true
  element_ne h ht := h.defined.here ht

end Renamed

/-- A comparison of equal types as types never says no, executable types with type variables included:
if annotations do not count, every type variable in the types has an element, nothing that stands for
the component of an array or the bound of a wildcard in them is a wildcard, and the types that the
session has derived are as it derived them. -/
theorem sameType_of_typesEqual {S₁ S₂ S₃ : Session} {a b : TypeId} {f g : Nat} {r : Bool}
    (hq : S₁.config.includeAnnotations = false)
    (hequal : onStore (Equality.types ⟨false⟩ f a b) S₁ = (.ok true, S₂)) (hlater : S₂ ≤ S₃)
    (hderived : S₃.DerivesShapes)
    (habsent : ∃ n, S₃.store.peekType TypeId.none = some (TypeId.none, n) ∧ n.kind = .noType .none)
    (hsame : sameType g a b S₃ = (.ok r, T)) (hproper : T.Proper a) : r = true := by
  have h12 : S₁ ≤ S₂ := le_of_ok hequal
  have h3T : S₃ ≤ T := le_of_ok hsame
  have hqT : T.config.includeAnnotations = false := by
    rw [(h12.trans (hlater.trans h3T)).config]
    exact hq
  have hab : T.TypesEqual a b := by
    have hknown := known_of_ok hequal (hlater.trans h3T)
    have hab := (Equality.known_types_iff (known_onStore.1 hknown)).1 rfl
    unfold TypesEqual Config.equality
    rw [hqT]
    exact hab
  have habsent : ∃ n, T.store.peekType TypeId.none = some (TypeId.none, n) ∧ n.kind = .noType .none := by
    obtain ⟨n, hn, hkind⟩ := habsent
    exact ⟨n, peekType_mono h3T.store hn, hkind⟩
  have hderived := hderived.later (Later.of_leads (leads_of_ok hsame))
  exact (certain_sameType_and_containsType (hereditary_proper hqT)
    (executablesSame_proper hqT hderived habsent) hab hproper (hproper.of_equal hab)).1 r
      (known_of_ok hsame le_rfl)

/-! ### Examples -/

/-- A check that the types of a list are proper, if the parts of each are in the list. -/
def listsProper (T : Session) (types : List TypeId) : Bool :=
  types.all fun t => (T.store.peekType t).all fun x =>
    (x.2.kind != .typeVar || x.2.element.isSome) &&
      x.2.narrow.all (fun c => (T.store.peekType c).all fun y => y.2.kind != .wildcard) &&
        x.2.outline.types.flatten.all (· ∈ types)

theorem proper_of_listsProper {types : List TypeId} (h : T.listsProper types = true)
    (ht : t ∈ types) : T.Proper t := by
  have hnode : ∀ {t u n}, t ∈ types → T.Shows t u n → (n.kind = .typeVar → n.element ≠ none) ∧
        (∀ c ∈ n.narrow, ∀ w x, T.Shows c w x → x.kind ≠ .wildcard) ∧
          ∀ c ∈ n.outline.types.flatten, c ∈ types := by
    intro t u n ht hn
    have hchecked := List.all_eq_true.1 h t ht
    rw [hn] at hchecked
    simp only [Option.all_some, Bool.and_eq_true, List.all_eq_true, decide_eq_true_eq] at hchecked
    obtain ⟨⟨hvar, hnarrow⟩, hparts⟩ := hchecked
    refine ⟨fun hkind hnone => ?_, fun c hc w x hx hwild => ?_, hparts⟩
    · simp [hkind, hnone] at hvar
    · have hc := hnarrow c hc
      simp [hx, hwild] at hc
  have hmem : ∀ {v}, T.Occurs t v → v ∈ types :=
    fun hv => hv.closed (fun _ _ _ ht hn => (hnode ht hn).2.2) ht
  exact ⟨fun v hv u n hn => (hnode (hmem hv) hn).2.1, fun v hv u n hn => (hnode (hmem hv) hn).1⟩

/-- The classes of the language at 0, 1 and 2, their types from 14 on, and a class `Box<E>`, at 3, with
two type variables for `E`, at 17 and 18. -/
def boxOperations : List Operation :=
  (Operation.newType .declared).language ++
    [.newNamedElement (.type .plain) "Box", .newNamedElement .typeParameter "E",
      .attach .typeParameter ⟨3⟩ ⟨4⟩, .newType .typeVar, .newType .typeVar, .setElementType ⟨4⟩ ⟨17⟩,
      .editType ⟨18⟩ (.definingElement ⟨4⟩)]

/-- Make a generic method that takes a `Box<E>`, at 20, and one with the other variable for `E`, at 22. -/
def methodOperations : List Operation :=
  [.makeShape (.declared { element := some ⟨3⟩, arguments := [⟨17⟩] }),
    .makeShape (.executable { typeVariables := [⟨17⟩], parameters := [⟨19⟩] }),
    .makeShape (.declared { element := some ⟨3⟩, arguments := [⟨18⟩] }),
    .makeShape (.executable { typeVariables := [⟨18⟩], parameters := [⟨21⟩] })]

/-- A session with the two methods. -/
def boxMethods : Session where
  store := .after (boxOperations ++ methodOperations)

/-- The two methods have equal types, and a comparison renames the variable of the second. -/
theorem sameType_of_typesEqual_boxMethods :
    (onStore (Equality.types ⟨false⟩ 10 ⟨20⟩ ⟨22⟩) boxMethods).1 = .ok true ∧
      (sameType 10 ⟨20⟩ ⟨22⟩ (onStore (Equality.types ⟨false⟩ 10 ⟨20⟩ ⟨22⟩) boxMethods).2).1 =
        .ok true := by
  have hequal : (onStore (Equality.types ⟨false⟩ 10 ⟨20⟩ ⟨22⟩) boxMethods).1 = .ok true := by
    decide +kernel
  have hanswer : (sameType 10 ⟨20⟩ ⟨22⟩ (onStore (Equality.types ⟨false⟩ 10 ⟨20⟩ ⟨22⟩)
      boxMethods).2).1.toOption.isSome = true := by decide +kernel
  have hchecked : (sameType 10 ⟨20⟩ ⟨22⟩ (onStore (Equality.types ⟨false⟩ 10 ⟨20⟩ ⟨22⟩)
      boxMethods).2).2.listsProper [⟨20⟩, ⟨19⟩, ⟨17⟩, TypeId.none, TypeId.void] = true := by
    decide +kernel
  have hq : boxMethods.config.includeAnnotations = false := rfl
  have hderived : boxMethods.DerivesShapes := nofun
  have habsent : ∃ n, boxMethods.store.peekType TypeId.none = some (TypeId.none, n) ∧
      n.kind = .noType .none := by
    simp only [boxMethods]
    exact Store.absent_after _
  -- what follows holds of any session, and must not evaluate this one
  generalize boxMethods = S at *
  have hleads := leads_run (onStore (Equality.types ⟨false⟩ 10 ⟨20⟩ ⟨22⟩)) S
  have hfound : onStore (Equality.types ⟨false⟩ 10 ⟨20⟩ ⟨22⟩) S =
      (.ok true, (onStore (Equality.types ⟨false⟩ 10 ⟨20⟩ ⟨22⟩) S).2) := Prod.ext hequal rfl
  refine ⟨hequal, ?_⟩
  generalize (onStore (Equality.types ⟨false⟩ 10 ⟨20⟩ ⟨22⟩) S).2 = T at *
  obtain ⟨n, hn, hkind⟩ := habsent
  obtain ⟨b, hb⟩ := Option.isSome_iff_exists.1 hanswer
  cases hr : sameType 10 ⟨20⟩ ⟨22⟩ T with
  | mk r U =>
    rw [hr] at hb hchecked
    cases r with
    | error e => cases hb
    | ok b =>
      obtain rfl := sameType_of_typesEqual hq hfound le_rfl (hderived.later (Later.of_leads hleads))
        ⟨n, peekType_mono hleads.le.store hn, hkind⟩ hr (proper_of_listsProper hchecked (by simp))
      rfl

/-- Two generic methods without a result that take an array, at 21, over a deferred handle, at 20, which
leads to a wildcard. They are at 22 and 23, and have different variables. -/
def wildcardArrays : Session where
  store := .after (boxOperations ++
    [.newType .wildcard, .deferType (.give ⟨19⟩), .makeShape (.array (some ⟨20⟩)),
      .makeShape (.executable { typeVariables := [⟨17⟩], parameters := [⟨21⟩] }),
      .makeShape (.executable { typeVariables := [⟨18⟩], parameters := [⟨21⟩] })])

/-- The types of the two methods are equal, but a comparison says that they are not the same: where the
variable of the second is renamed, the array of wildcards becomes an array of `Object`. Every type
variable has an element. -/
theorem sameType_denied_wildcardArrays :
    (onStore (Equality.types ⟨false⟩ 10 ⟨22⟩ ⟨23⟩) wildcardArrays).1 = .ok true ∧
      (sameType 10 ⟨22⟩ ⟨23⟩ (onStore (Equality.types ⟨false⟩ 10 ⟨22⟩ ⟨23⟩) wildcardArrays).2).1 =
        .ok false ∧
      (wildcardArrays.store.types.all fun
        | .node n => n.kind != .typeVar || n.element.isSome
        | _ => true) = true := by
  refine ⟨?_, ?_, ?_⟩ <;> decide +kernel

end Session

end JavaTypes
