import JavaTypes.Proofs.DirectSupertypes
import JavaTypes.Proofs.SearchAgreement

/-!
# Listed supertypes and subtype questions

`isSubtype_directSupertype` says of two questions to a session that they agree: a direct supertype that
the first one lists is not denied by the second, however many questions stand in between. What it asks
of the hierarchy can be checked in a session where all that is above a type is known:
`mem_of_above` says that a list with every step up is all there is.
-/

namespace JavaTypes

open Action Equality

namespace Session

variable {S T U V : Session} {fuel fuel' : Nat} {e : ElementId} {b : Bool} {c c' d t u v x : TypeId}
  {m n : TypeNode} {ds types : List TypeId} {α : Type} {q : Query α}

/-! ### Two questions -/

theorem kind_ne_union_of_known_supertypesOf (h : Known (supertypesOf fuel t) T ds)
    (ht : T.Shows t u m) : m.kind ≠ .union := by
  intro hm
  obtain ⟨fuel, u', m', rfl, ht', h⟩ := node_of_known_supertypesOf h
  cases ht.symm.trans ht'
  obtain ⟨shape, as⟩ := m
  cases shape <;> cases hm
  exact not_known_throw h

theorem known_supertypesOf_of_directSupertypes (hhook : S.hooks.directSupertypes t = none)
    (h : directSupertypes fuel t S = (.ok ds, T)) : Later S T ∧ Known (supertypesOf fuel t) T ds := by
  have h : supertypesOf fuel t S = (.ok ds, T) := by
    rw [← h]
    unfold directSupertypes
    rw [bind_of_ok (show JavaTypes.hooks S = (.ok S.hooks, S) from rfl), hhook]
  exact ensures_of_settles S .rfl ds T h |>.imp_right fun hknown => hknown T .rfl

/-- What an answer to a subtype question says, if capture has nothing to change. -/
theorem known_subtype_of_captureFree (hhook : S.hooks.isSubtype t d = none)
    (hfree : S.config.captureInSubtyping = true → S.CaptureFree t)
    (h : isSubtype fuel t d S = (.ok b, T)) :
    Later S T ∧ Known ((judgements fuel).subtype {} false t d) T b := by
  have h : (judgements fuel).subtype {} S.config.captureInSubtyping t d S = (.ok b, T) := by
    rw [← h, isSubtype, answeredBy_apply, hhook]
    rfl
  have hensures : Ensures S ((judgements fuel).subtype {} S.config.captureInSubtyping t d) fun T b =>
      Known ((judgements fuel).subtype {} false t d) T b := by
    cases hcapture : S.config.captureInSubtyping with
    | false => exact ensures_of_settles
    | true => exact ensures_subtype_uncaptured (hfree hcapture)
  exact (hensures S .rfl b T h).imp_right fun hknown => hknown T .rfl

theorem known_subtype_of_isSubtype (hhook : S.hooks.isSubtype t d = none)
    (hfree : S.config.captureInSubtyping = true → S.WildcardFree t)
    (hunion : ∀ T, Later S T → ∀ u m, T.Shows t u m → m.kind ≠ .union)
    (h : isSubtype fuel t d S = (.ok b, T)) :
    Later S T ∧ Known ((judgements fuel).subtype {} false t d) T b :=
  known_subtype_of_captureFree hhook (fun hcapture => (hfree hcapture).captureFree hunion) h

/-- A direct supertype is not denied to be a supertype, if the hierarchy reaches each element with a
single parameterization, the comparison does not miss it, and capture does not change the type. -/
theorem isSubtype_directSupertype (hlist : S.hooks.directSupertypes t = none)
    (hask : S.hooks.isSubtype t d = none) (hds : directSupertypes fuel t S = (.ok ds, T)) (hd : d ∈ ds)
    (hTU : Later T U) (hb : isSubtype fuel' t d U = (.ok b, V))
    (hfree : U.config.captureInSubtyping = true → U.WildcardFree t) (hkinds : V.WellKinded t)
    (hsingle : V.SingleParameterization t) (hmissed : ¬ V.Missed t d) : b = true := by
  obtain ⟨hST, hknown⟩ := known_supertypesOf_of_directSupertypes hlist hds
  have hlater : ∀ {W}, Later T W → Known (supertypesOf fuel t) W ds := fun hW =>
    hknown.mono hW.le
  have hask : U.hooks.isSubtype t d = none := by
    rw [(hST.trans hTU).le.hooks]
    exact hask
  obtain ⟨hUV, hanswer⟩ := known_subtype_of_isSubtype hask hfree
    (fun W hW _ _ => kind_ne_union_of_known_supertypesOf (hlater (hTU.trans hW))) hb
  exact certain_subtype_directSupertype hkinds hsingle (hlater (hTU.trans hUV)) hd hmissed b hanswer

/-! ### Checking hierarchies -/

/-- A step up from a listed type leads to a listed type. -/
def listsUp (S : Session) (fuel : Nat) (types : List TypeId) : Bool :=
  types.all fun t => (S.store.peekType t).any (fun x => decide (x.1 ∈ types) && match x.2.shape with
      | .intersection bounds => bounds.all (· ∈ types)
      | .array component => component.all (· ∈ types)
      | _ => true) &&
    (supertype fuel t S).1.toOption.any (· ∈ types) &&
    (interfaces fuel t S).1.toOption.any (·.all (· ∈ types)) &&
    (upperBound t S).1.toOption.any (· ∈ types) &&
    (wellKnown S).1.toOption.any fun known =>
      [known.objectType, known.cloneableType, known.serializableType].all (· ∈ types)

/-- The element of a type, as far as a session knows it. -/
def elementAt (S : Session) (t : TypeId) : Option ElementId := do
  let (_, n) ← S.store.peekType t
  let (e, _) ← S.store.peekElement (← n.element)
  return e

/-- No two of the listed types are of one element. -/
def listsSingle (S : Session) (types : List TypeId) : Bool :=
  types.all fun x => types.all fun y => (S.elementAt x).isNone ||
    decide (S.elementAt x ≠ S.elementAt y ∨ x = y)

/-- All types are regular, and what the listed types name is declared or an error. -/
def listsKinds (S : Session) (fuel : Nat) (types : List TypeId) : Bool :=
  (List.range S.store.types.size).all (fun i => (S.store.peekType ⟨i⟩).all fun x =>
    decide (x.2.kind ≠ .executable) &&
      (decide (x.2.kind ≠ .declared ∧ x.2.kind ≠ .typeVar) || x.2.element.isSome)) &&
  types.all fun t => (S.store.peekType t).all fun x => decide (x.2.kind ≠ .declared) ||
    ((supertype fuel t S).1.toOption.any fun d => (S.store.peekType d).all fun y =>
      decide (y.2.kind = .declared ∨ y.2.kind = .error ∨ y.2.kind = .noType .none)) &&
    (interfaces fuel t S).1.toOption.any fun ds => ds.all fun d => (S.store.peekType d).all fun y =>
      decide (y.2.kind = .declared ∨ y.2.kind = .error)

/-- The types of the language are of their classes, and the session holds what it has derived. -/
def listsLanguage (S : Session) : Bool :=
  (wellKnown S).1.toOption.all (fun known =>
    decide (S.store.classOf known.objectType = some known.object ∧
      S.store.classOf known.cloneableType = some known.cloneable ∧
        S.store.classOf known.serializableType = some known.serializable)) &&
  S.memo.derived.all fun x => (S.store.peekType x.2).any fun y =>
    decide (y.1 = x.2 ∧ y.2.shape = x.1) && y.2.annotations.isEmpty

/-- The listed types are a hierarchy in which no element has two types. -/
def listsHierarchy (S : Session) (fuel : Nat) (types : List TypeId) : Bool :=
  S.listsUp fuel types && S.listsSingle types && S.listsKinds fuel types && S.listsLanguage

theorem exists_known_of_toOption {a : α} [hq : Settles q q]
    (h : (q S).1.toOption = some a) : ∃ T, S ≤ T ∧ Known q T a := by
  cases hr : q S with
  | mk r T =>
    rw [hr] at h
    cases r with
    | error e => cases h
    | ok a' =>
      cases h
      obtain ⟨hT, hknown⟩ := ensures_of_settles S .rfl a T hr
      exact ⟨T, hT.le, hknown T .rfl⟩

theorem toOption_of_known {a : α} (h : Known q S a) : (q S).1.toOption = some a := by
  rw [show q S = (.ok a, S) from h]
  rfl

theorem eq_of_known_supertype (h : (supertype fuel t S).1.toOption = some c)
    (hd : Known (supertype fuel' t) S d) : c = d := by
  obtain ⟨T, hT, hc⟩ := exists_known_of_toOption h
  exact known_supertype_unique hc (hd.mono hT)

theorem eq_of_known_interfaces {cs : List TypeId} (h : (interfaces fuel t S).1.toOption = some cs)
    (hd : Known (interfaces fuel' t) S ds) : cs = ds := by
  obtain ⟨T, hT, hc⟩ := exists_known_of_toOption h
  exact known_interfaces_unique hc (hd.mono hT)

theorem mem_of_stepsUp (h : S.listsUp fuel types = true) (ht : t ∈ types) (hx : S.StepsUp t x) :
    x ∈ types := by
  have hall := List.all_eq_true.1 h t ht
  simp only [Bool.and_eq_true, Option.any_eq_true, decide_eq_true_eq, List.all_eq_true] at hall
  obtain ⟨⟨⟨⟨⟨⟨u, m⟩, hu, hmem, hshape⟩, k, hk, hkmem⟩, ks, hks, hksmem⟩, b, hb, hbmem⟩, known, hknown,
    hlanguage⟩ := hall
  cases hx with
  | node h =>
    cases hu.symm.trans h
    exact hmem
  | superclass h =>
    obtain rfl := eq_of_known_supertype hk h
    exact hkmem
  | interface h hx =>
    obtain rfl := eq_of_known_interfaces hks h
    exact hksmem x hx
  | upper h =>
    cases hb.symm.trans (toOption_of_known h)
    exact hbmem
  | bound h hn hx =>
    cases hu.symm.trans h
    rw [hn] at hshape
    exact of_decide_eq_true (List.all_eq_true.1 hshape x hx)
  | component h hn =>
    cases hu.symm.trans h
    rw [hn] at hshape
    exact of_decide_eq_true hshape
  | object h =>
    cases hknown.symm.trans (toOption_of_known h)
    exact hlanguage _ (by simp)
  | array _ _ h hx =>
    cases hknown.symm.trans (toOption_of_known h)
    exact hlanguage x (by rcases hx with rfl | rfl <;> simp)

/-- A list with every step up has all that is above its types. -/
theorem mem_of_above (h : S.listsUp fuel types = true) (ht : t ∈ types) (hx : S.Above t x) :
    x ∈ types := by
  induction hx with
  | refl => exact ht
  | tail _ hstep ih => exact mem_of_stepsUp h ih hstep

theorem elementAt_of_belongsTo (h : S.BelongsTo t e) : S.elementAt t = some e := by
  obtain ⟨u, n, ht, -, he⟩ := h
  obtain ⟨d, m, hd, hm⟩ := known_elementOf_some.1 he
  simp [elementAt, ht, hd, hm]

theorem node_of_listsKinds (h : S.listsKinds fuel types = true)
    (ht : S.Shows t u m) : m.kind ≠ .executable ∧
      (m.kind = .declared ∨ m.kind = .typeVar → m.element ≠ none) := by
  simp only [listsKinds, Bool.and_eq_true] at h
  have hnode := List.all_eq_true.1 h.1 t.index (List.mem_range.2 (lt_of_peekType ht))
  rw [ht, Option.all_some] at hnode
  simp only [Bool.and_eq_true, Bool.or_eq_true, decide_eq_true_eq] at hnode
  refine ⟨hnode.1, fun hkind hnone => ?_⟩
  rcases hnode.2 with ⟨hdeclared, htypeVar⟩ | hsome
  · exact hkind.elim hdeclared htypeVar
  · rw [hnone] at hsome
    cases hsome

theorem named_of_listsKinds (h : S.listsKinds fuel types = true) (ht : t ∈ types)
    (hm : S.Shows t u m) (hkind : m.kind = .declared) (hds : S.DirectlyAbove t ds)
    (hd : d ∈ ds) (hn : S.Shows d v n) : n.kind = .declared ∨ n.kind = .error := by
  simp only [listsKinds, Bool.and_eq_true] at h
  have hnode := List.all_eq_true.1 h.2 t ht
  rw [hm, Option.all_some, hkind] at hnode
  simp only [ne_eq, not_true_eq_false, decide_false, Bool.false_or, Bool.and_eq_true,
    Option.any_eq_true, List.all_eq_true] at hnode
  obtain ⟨⟨k, hk, hsuper⟩, ks, hks, hinterfaces⟩ := hnode
  obtain ⟨fuel', above, r, is, habove, hr, his, rfl⟩ := hds
  rcases List.mem_append.1 hd with hd | hd
  · obtain rfl := eq_of_known_supertype hk habove
    obtain ⟨w, x, hx, rfl⟩ := known_unlessNone.1 hr
    split at hd
    · cases hd
    · next hne =>
      obtain rfl := List.mem_singleton.1 hd
      cases hn.symm.trans hx
      rw [hn, Option.all_some, decide_eq_true_eq] at hsuper
      exact hsuper.imp_right fun h => h.resolve_right hne
  · obtain rfl := eq_of_known_interfaces hks his
    have hkinds := hinterfaces d hd
    rw [hn, Option.all_some, decide_eq_true_eq] at hkinds
    exact hkinds

theorem languageTypes_of_listsLanguage (h : S.listsLanguage = true) : S.LanguageTypes := by
  intro known hknown
  simp only [listsLanguage, Bool.and_eq_true] at h
  have hclasses := h.1
  rw [toOption_of_known hknown, Option.all_some, decide_eq_true_eq] at hclasses
  exact hclasses.imp isClass_of_classOf (.imp isClass_of_classOf isClass_of_classOf)

theorem derivesShapes_of_listsLanguage (h : S.listsLanguage = true) : S.DerivesShapes := by
  intro shape k hk hkind
  simp only [listsLanguage, Bool.and_eq_true] at h
  obtain ⟨before, after, hsplit, -⟩ := List.lookup_eq_some_iff.1 hk
  have hderived := List.all_eq_true.1 h.2 (shape, k) (by rw [hsplit]; simp)
  simp only [Option.any_eq_true, Bool.and_eq_true, decide_eq_true_eq, List.isEmpty_iff] at hderived
  obtain ⟨⟨u, ⟨shape', as⟩⟩, hpeek, ⟨rfl, rfl⟩, rfl⟩ := hderived
  exact hpeek

theorem singleParameterization_of_listsHierarchy (h : S.listsHierarchy fuel types = true)
    (ht : t ∈ types) : S.SingleParameterization t := by
  simp only [listsHierarchy, Bool.and_eq_true] at h
  obtain ⟨⟨⟨hup, hsingle⟩, -⟩, -⟩ := h
  intro x y e hx hy hxe hye
  have hpair := List.all_eq_true.1 (List.all_eq_true.1 hsingle x (mem_of_above hup ht hx)) y
    (mem_of_above hup ht hy)
  rw [elementAt_of_belongsTo hxe, elementAt_of_belongsTo hye] at hpair
  obtain rfl : x = y := by simpa using hpair
  exact .refl x

theorem wellKinded_of_listsHierarchy (h : S.listsHierarchy fuel types = true) (ht : t ∈ types) :
    S.WellKinded t := by
  simp only [listsHierarchy, Bool.and_eq_true] at h
  obtain ⟨⟨⟨hup, -⟩, hkinds⟩, hlanguage⟩ := h
  exact {
    language := languageTypes_of_listsLanguage hlanguage
    derived := derivesShapes_of_listsLanguage hlanguage
    regular := fun _ => ⟨fun _ => True, trivial, fun _ _ _ _ hm => ⟨(node_of_listsKinds hkinds hm).1,
      fun hkind => (node_of_listsKinds hkinds hm).2 (.inr hkind), fun _ _ => trivial⟩⟩
    element := fun _ hm hkind => (node_of_listsKinds hkinds hm).2 (.inl hkind)
    named := fun hx hm hkind hks _ hd _ _ hn =>
      named_of_listsKinds hkinds (mem_of_above hup ht hx) hm hkind hks hd hn }

theorem not_missed_of_declared (ht : S.Shows t u m) (hm : m.kind = .declared)
    (hd : S.Shows d v n) (hn : n.kind = .declared) : ¬ S.Missed t d := by
  intro h
  cases h with
  | bound ht' hm' | nested ht' hm' | component ht' hm' =>
    cases ht.symm.trans ht'
    rw [TypeNode.kind, hm'] at hm
    cases hm
  | upper ht' hm' =>
    cases ht.symm.trans ht'
    cases hm.symm.trans hm'
  | lower hd' h =>
    cases hd.symm.trans hd'
    exact not_standsFor hd.self (by rw [hn]; rintro ⟨⟩)
      (isCapture_eq_false (by rw [hn]; rintro ⟨⟩)) h

theorem not_missed_of_array (ht : S.Shows t u m) (hm : m.shape = .array (some c))
    (hd : S.Shows d v n) (hn : n.shape = .array (some c'))
    (h : ¬ S.Missed c c') : ¬ S.Missed t d := by
  intro hmissed
  cases hmissed with
  | bound ht' hm' | nested ht' hm' =>
    cases ht.symm.trans ht'
    cases hm.symm.trans hm'
  | upper ht' hm' =>
    cases ht.symm.trans ht'
    rw [TypeNode.kind, hm] at hm'
    cases hm'
  | lower hd' hl =>
    cases hd.symm.trans hd'
    exact not_standsFor hd.self (by rw [TypeNode.kind, hn]; rintro ⟨⟩)
      (isCapture_eq_false (by rw [TypeNode.kind, hn]; rintro ⟨⟩)) hl
  | component ht' hm' hd' hn' hc =>
    cases ht.symm.trans ht'
    cases hd.symm.trans hd'
    cases hm.symm.trans hm'
    cases hn.symm.trans hn'
    exact h hc

/-- Two types are declared, or arrays with such components. -/
def bothDeclared (S : Session) : Nat → TypeId → TypeId → Bool
  | 0, _, _ => false
  | depth + 1, t, d =>
      match S.store.peekType t, S.store.peekType d with
      | some (_, ⟨.declared _, _⟩), some (_, ⟨.declared _, _⟩) => true
      | some (_, ⟨.array (some c), _⟩), some (_, ⟨.array (some c'), _⟩) => S.bothDeclared depth c c'
      | _, _ => false

theorem not_missed_of_bothDeclared : ∀ {depth : Nat} {t d : TypeId},
    S.bothDeclared depth t d = true → ¬ S.Missed t d
  | depth + 1, t, d, h => by
      unfold bothDeclared at h
      split at h
      · next ht hd => exact not_missed_of_declared ht rfl hd rfl
      · next ht hd => exact not_missed_of_array ht rfl hd rfl (not_missed_of_bothDeclared h)
      · cases h

/-! ### Examples -/

/-- A generic class `Box` implements a generic interface `Source`. There is a type
`Box<? extends Cloneable>`, at 23, and its array. -/
def crates : Session :=
  ofNodes
    [.ofClass 3 [18], .variableOf 5, .ofClass 4 [20], .variableOf 6, .ofClass 3 [20],
     { shape := .wildcard { upper := some ⟨15⟩ } }, .ofClass 4 [22], .arrayOf 23]
    [.ofType "Source" 17 .interface { typeParameters := [⟨5⟩] },
     .ofType "Box" 19 .plain { interfaces := [⟨21⟩], typeParameters := [⟨6⟩] }, .parameter "E" 18 3,
     .parameter "F" 20 4]

/-- What is above the array of `Box<? extends Cloneable>` once its direct supertypes are listed. -/
def aboveCrates : List TypeId :=
  [⟨24⟩, ⟨23⟩, ⟨25⟩, ⟨26⟩, ⟨14⟩, ⟨15⟩, ⟨16⟩, TypeId.none]

/-- The array of `Box<? extends Cloneable>` has the array of `Source<? extends Cloneable>` as a direct
supertype, and is a subtype of it. -/
theorem isSubtype_directSupertype_crates :
    (directSupertypes 10 ⟨24⟩ crates).1 = .ok [⟨26⟩, ⟨27⟩] ∧
      (isSubtype 10 ⟨24⟩ ⟨27⟩ (directSupertypes 10 ⟨24⟩ crates).2).1 = .ok true := by
  have hlisted : (directSupertypes 10 ⟨24⟩ crates).1 = .ok [⟨26⟩, ⟨27⟩] := by decide +kernel
  have hanswer : (isSubtype 10 ⟨24⟩ ⟨27⟩ (directSupertypes 10 ⟨24⟩ crates).2).1.toOption.isSome = true := by
    decide +kernel
  have hchecked : (isSubtype 10 ⟨24⟩ ⟨27⟩ (directSupertypes 10 ⟨24⟩ crates).2).2.listsHierarchy 10
      aboveCrates = true := by decide +kernel
  have hseen : (isSubtype 10 ⟨24⟩ ⟨27⟩ (directSupertypes 10 ⟨24⟩ crates).2).2.bothDeclared 2 ⟨24⟩ ⟨27⟩ =
      true := by decide +kernel
  have harray : crates.store.peekType ⟨24⟩ = some (⟨24⟩, { shape := .array (some ⟨23⟩) }) := rfl
  have hlist : crates.hooks.directSupertypes ⟨24⟩ = none := rfl
  have hask : crates.hooks.isSubtype ⟨24⟩ ⟨27⟩ = none := rfl
  -- what follows holds of any session, and must not evaluate this one
  generalize crates = S at *
  have hds : directSupertypes 10 ⟨24⟩ S = (.ok [⟨26⟩, ⟨27⟩], (directSupertypes 10 ⟨24⟩ S).2) :=
    Prod.ext hlisted rfl
  obtain ⟨hlater, -⟩ := known_supertypesOf_of_directSupertypes hlist hds
  generalize (directSupertypes 10 ⟨24⟩ S).2 = T at *
  have hfree : T.WildcardFree ⟨24⟩ := by
    refine ⟨(· = ⟨24⟩), rfl, ?_⟩
    rintro U hU s rfl u n hn
    cases (peekType_mono (hlater.trans hU).le.store harray).symm.trans hn
    exact ⟨rfl, nofun⟩
  obtain ⟨b, hb⟩ := Option.isSome_iff_exists.1 hanswer
  cases hr : isSubtype 10 ⟨24⟩ ⟨27⟩ T with
  | mk r V =>
    rw [hr] at hb hchecked hseen
    cases r with
    | error e => cases hb
    | ok b =>
      obtain rfl := isSubtype_directSupertype hlist hask hds (by simp) .rfl hr (fun _ => hfree)
        (wellKinded_of_listsHierarchy hchecked (by simp [aboveCrates]))
        (singleParameterization_of_listsHierarchy hchecked (by simp [aboveCrates]))
        (not_missed_of_bothDeclared hseen)
      exact ⟨hlisted, rfl⟩

/-- A generic class `Box` implements `Source<List<F>>` with its own parameter `F`. There are the types
`Box<? extends Cloneable>`, at 26, and `F & Cloneable`. -/
def misfits : Session :=
  ofNodes
    [.ofClass 3 [18], .variableOf 6, .ofClass 4 [20], .variableOf 7, .ofClass 5 [22], .variableOf 8,
     .ofClass 4 [22], .ofClass 3 [23], { shape := .wildcard { upper := some ⟨15⟩ } }, .ofClass 5 [25],
     { shape := .intersection [⟨22⟩, ⟨15⟩] }]
    [.ofType "Source" 17 .interface { typeParameters := [⟨6⟩] },
     .ofType "List" 19 .interface { typeParameters := [⟨7⟩] },
     .ofType "Box" 21 .plain { interfaces := [⟨24⟩], typeParameters := [⟨8⟩] }, .parameter "E" 18 3,
     .parameter "L" 20 4, .parameter "F" 22 5]

/-- In `misfits`, the bound `F` of `F & Cloneable` is missed. The supertype
`Source<List<? extends Cloneable>>` of `Box<? extends Cloneable>` is missed where that type is
captured. Both hierarchies have a single parameterization of each element. -/
theorem isSubtype_directSupertype_denied :
    ((directSupertypes 10 ⟨27⟩ misfits).1 = .ok [⟨22⟩, ⟨15⟩] ∧
      (isSubtype 10 ⟨27⟩ ⟨22⟩ (directSupertypes 10 ⟨27⟩ misfits).2).1 = .ok false ∧
        (isSubtype 10 ⟨27⟩ ⟨22⟩ (directSupertypes 10 ⟨27⟩ misfits).2).2.WellKinded ⟨27⟩ ∧
          (isSubtype 10 ⟨27⟩ ⟨22⟩ (directSupertypes 10 ⟨27⟩ misfits).2).2.SingleParameterization ⟨27⟩) ∧
    (directSupertypes 10 ⟨26⟩ misfits).1 = .ok [⟨14⟩, ⟨29⟩] ∧
      (isSubtype 10 ⟨26⟩ ⟨29⟩ (directSupertypes 10 ⟨26⟩ misfits).2).1 = .ok false ∧
        (isSubtype 10 ⟨26⟩ ⟨29⟩ (directSupertypes 10 ⟨26⟩ misfits).2).2.WellKinded ⟨26⟩ ∧
          (isSubtype 10 ⟨26⟩ ⟨29⟩ (directSupertypes 10 ⟨26⟩ misfits).2).2.SingleParameterization ⟨26⟩ := by
  have hbounds : (isSubtype 10 ⟨27⟩ ⟨22⟩ (directSupertypes 10 ⟨27⟩ misfits).2).2.listsHierarchy 10
      [⟨27⟩, ⟨22⟩, ⟨14⟩, ⟨15⟩, ⟨16⟩, TypeId.none] = true := by decide +kernel
  have hbox : (isSubtype 10 ⟨26⟩ ⟨29⟩ (directSupertypes 10 ⟨26⟩ misfits).2).2.listsHierarchy 10
      [⟨26⟩, ⟨29⟩, ⟨14⟩, ⟨15⟩, ⟨16⟩, TypeId.none] = true := by decide +kernel
  refine ⟨⟨by decide +kernel, by decide +kernel, ?_⟩, by decide +kernel, by decide +kernel, ?_⟩
  · exact ⟨wellKinded_of_listsHierarchy hbounds (by simp),
      singleParameterization_of_listsHierarchy hbounds (by simp)⟩
  · exact ⟨wellKinded_of_listsHierarchy hbox (by simp),
      singleParameterization_of_listsHierarchy hbox (by simp)⟩

end Session

end JavaTypes
