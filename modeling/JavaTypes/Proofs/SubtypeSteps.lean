import JavaTypes.Proofs.TypesAbove

/-!
# Steps of subtyping

What a step of subtyping without capture asks, one part at a time.

* `Judgements.subtypeStep_eq`: two types are the same, or the step goes on by the second type
  (`Judgements.belowNode`). A type that stands for a bound below it (`Session.StandsForBound`) is left
  for this bound;
* `certain_subtype_of_equal`: equal types are subtypes of each other;
* `certain_subtype_error`: an error type is a subtype of every type;
* `ensures_subtype_uncaptured`: a type in which capture changes nothing (`Session.CaptureFree`) is
  compared as if it were not captured.
-/

namespace JavaTypes

open Action Equality

namespace Judgements

variable (j : Judgements) (p : Premises)

variable {n : TypeNode} {s t : TypeId}

/-- Whether a type is below a type that is neither the same, nor an intersection, nor an error type. -/
def belowOther (t s : TypeId) (n : TypeNode) : Query Bool := do
  let lower ← captureLowerBound j.fuel (← wildLowerBound j.fuel s)
  let throughBound ← Action.both (return lower ≠ s) (do return (← typeKind lower) ≠ .null)
  if throughBound then
    j.subtype p false t lower
  else
    j.belowByKind p false t s n

/-- Whether a type is below another that is not the same. -/
def belowNode (t s : TypeId) (n : TypeNode) : Query Bool :=
  match n.shape with
  | .intersection bounds => j.belowAll p false t bounds
  | .error _ => return true
  | _ => j.belowOther p t s n

theorem belowNode_of_intersection {bounds : List TypeId}
    (hn : n.shape = .intersection bounds) : j.belowNode p t s n = j.belowAll p false t bounds := by
  rw [belowNode, hn]

theorem belowNode_of_error {e : Option ElementId}
    (hn : n.shape = .error e) : j.belowNode p t s n = pure true := by
  rw [belowNode, hn]

theorem belowNode_of_ne (h : ∀ bounds, n.shape ≠ .intersection bounds)
    (h' : ∀ e, n.shape ≠ .error e) : j.belowNode p t s n = j.belowOther p t s n := by
  unfold belowNode
  split
  · next bounds hn => exact absurd hn (h bounds)
  · next e hn => exact absurd hn (h' e)
  · rfl

theorem subtypeStep_eq (t s : TypeId) : j.subtypeStep p false t s = (do
    let t ← resolveType t
    let x ← viewType s
    if ← j.sameType p t x.1 then return true else j.belowNode p t x.1 x.2) := by
  rfl

/-- Whether what was found at the element of a declared type `s` is below `s`. -/
def belowFound (s : TypeId) (n : TypeNode) : Option TypeId → Query Bool
  | none => return false
  | some above => do
      let m ← typeNode above
      if m.kind ≠ .declared then
        j.subtype p false above s
      else
        Action.both (Action.either (return n.arguments.isEmpty) (j.containsArguments p s above))
          (j.enclosingBelow p m n)

/-- Whether a type is below a declared type with the given element. -/
def belowElement (t s : TypeId) (n : TypeNode) : Option ElementId → Query Bool
  | none => return false
  | some e => do j.belowFound p s n (← superAt j.fuel t e)

theorem belowDeclared_eq (t s : TypeId) (n : TypeNode) :
    j.belowDeclared p t s n = (do j.belowElement p t s n (← n.elementOf)) := by
  rfl

/-- The capture of a declared type, once the type around it is captured. -/
def captureFrom (t : TypeId) (n : TypeNode) (e : ElementId) (outer outer' : TypeId) : Query TypeId := do
  let flags ← wildcardFlags n.arguments
  let vars ← formals (← typeParameters e)
  if (← isRaw j.fuel t) || !flags.any id || vars.length != n.arguments.length then
    if outer' = outer then
      return t
    else
      withArguments t n outer' n.arguments
  else
    let captured ← freshCaptures n.arguments
    j.boundCaptures p { vars, vals := captured } n.arguments vars captured
    withArguments t n outer' captured

theorem captureStep_eq (t : TypeId) : j.captureStep p t = (do
    let x ← viewType t
    if x.2.kind ≠ .declared then
      return x.1
    else
      match ← x.2.elementOf with
      | none => return x.1
      | some e =>
          let y ← viewType x.2.enclosingOrNone
          let outer' ← if y.2.kind = .declared then j.capture p y.1 else pure y.1
          j.captureFrom p x.1 x.2 e y.1 outer') := by
  rfl

variable {j} [hj : j.Settle j]

include hj

instance settles_belowOther (t s : TypeId) (n : TypeNode) :
    Settles (j.belowOther p t s n) (j.belowOther p t s n) :=
  settles_bind

instance settles_belowFound (s : TypeId) (n : TypeNode) :
    ∀ r, Settles (j.belowFound p s n r) (j.belowFound p s n r)
  | none => settles_pure false
  | some _ => settles_bind

instance settles_belowElement (t s : TypeId) (n : TypeNode) :
    ∀ e, Settles (j.belowElement p t s n e) (j.belowElement p t s n e)
  | none => settles_pure false
  | some _ => settles_bind

instance settles_belowNode (t s : TypeId) (n : TypeNode) :
    Settles (j.belowNode p t s n) (j.belowNode p t s n) := by
  unfold belowNode
  cases n.shape <;> infer_instance

end Judgements

namespace Session

variable {S T : Session} {p : Premises} {k : Nat} {s t u v : TypeId} {m n : TypeNode}

/-! ### One step -/

variable {a x w outer : TypeId} {as : List TypeId} {b : Bool} {fuel fuel' : Nat} {j : Judgements}

/-- A type stands for a bound below it: it is a wildcard or a captured variable, and what is behind it
is not the null type. -/
def StandsFor (T : Session) (s lower : TypeId) : Prop :=
  ∃ fuel w kind, Known (onStore (wildLowerBound fuel s)) T w ∧
    Known (onStore (captureLowerBound fuel w)) T lower ∧ lower ≠ s ∧
      Known (onStore (typeKind lower)) T kind ∧ kind ≠ .null

theorem known_captureLowerBound_succ (hs : T.Shows s u n) :
    Known (onStore (captureLowerBound (fuel + 1) s)) T v ↔
      Known (onStore (if n.isCapture = true then do captureLowerBound fuel (← lowerBound s)
        else pure s)) T v := by
  rw [known_onStore, known_onStore]
  refine known_bind.trans ⟨?_, fun h => ⟨n, known_typeNode.2 ⟨u, hs⟩, h⟩⟩
  rintro ⟨x, hx, h⟩
  obtain ⟨w, hx⟩ := known_typeNode.1 hx
  cases hs.symm.trans hx
  exact h

/-- What is neither a wildcard nor captured stands for itself only. -/
theorem not_standsFor (hs : T.Shows s u n) (hn : n.kind ≠ .wildcard)
    (hcapture : n.isCapture = false) : ¬ T.StandsFor s v := by
  rintro ⟨fuel, w, kind, hw, hlower, hne, -⟩
  cases fuel with
  | zero => exact absurd (known_onStore.1 hw) not_known_throw
  | succ fuel =>
    obtain ⟨u, n', hs', hw⟩ := known_wildLowerBound_succ.1 hw
    cases hs.symm.trans hs'
    rw [if_pos hn] at hw
    obtain rfl := known_pure.1 (known_onStore.1 hw)
    rw [known_captureLowerBound_succ hs, if_neg (by simp [hcapture])] at hlower
    exact hne (known_pure.1 (known_onStore.1 hlower))

theorem known_wildLowerBound_unique (h : Known (onStore (wildLowerBound fuel s)) T u)
    (h' : Known (onStore (wildLowerBound fuel' s)) T v) : u = v :=
  Known.unique (x := onStore (wildLowerBound (max fuel fuel') s)) (h.grow le_rfl) (h'.grow le_rfl)

theorem known_captureLowerBound_unique (h : Known (onStore (captureLowerBound fuel s)) T u)
    (h' : Known (onStore (captureLowerBound fuel' s)) T v) : u = v :=
  Known.unique (x := onStore (captureLowerBound (max fuel fuel') s)) (h.grow le_rfl)
    (h'.grow le_rfl)

/-- A type is compared with the bound that the second type stands for, or by its kind if there is no
such bound. -/
theorem cases_of_known_belowOther (h : Known ((judgements k).belowOther p t s n) T b) :
    (∃ lower, T.StandsFor s lower ∧ Known ((judgements k).subtype p false t lower) T b) ∨
      (∀ lower, ¬ T.StandsFor s lower) ∧ Known ((judgements k).belowByKind p false t s n) T b := by
  obtain ⟨w, hw, h⟩ := known_bind.1 h
  obtain ⟨lower, hbound, h⟩ := known_bind.1 h
  obtain ⟨throughBound, hthrough, h⟩ := known_bind.1 h
  rcases known_both.1 hthrough with ⟨hne, htest⟩ | ⟨heq, rfl⟩
  · obtain ⟨kind, hkind, rfl⟩ := known_map.1 htest
    have hne : lower ≠ s := of_decide_eq_true (known_pure.1 hne).symm
    by_cases hnull : kind = .null
    · rw [if_neg (by simp [hnull])] at h
      refine .inr ⟨?_, h⟩
      rintro lower' ⟨fuel', w', kind', hw', hbound', -, hkind', hnull'⟩
      obtain rfl := known_wildLowerBound_unique hw hw'
      obtain rfl := known_captureLowerBound_unique hbound hbound'
      exact hnull' (hkind'.unique hkind ▸ hnull)
    · rw [if_pos (decide_eq_true hnull)] at h
      exact .inl ⟨lower, ⟨_, w, kind, hw, hbound, hne, hkind, hnull⟩, h⟩
  · have heq : lower = s := not_not.1 (of_decide_eq_false (known_pure.1 heq).symm)
    refine .inr ⟨?_, h⟩
    rintro lower' ⟨fuel', w', kind', hw', hbound', hne', -⟩
    obtain rfl := known_wildLowerBound_unique hw hw'
    obtain rfl := known_captureLowerBound_unique hbound hbound'
    exact hne' heq

theorem certain_belowOther
    (hlower : ∀ lower, T.StandsFor s lower → Certain ((judgements k).subtype p false t lower) T)
    (h : (∀ lower, ¬ T.StandsFor s lower) → Certain ((judgements k).belowByKind p false t s n) T) :
    Certain ((judgements k).belowOther p t s n) T := by
  intro b hb
  rcases cases_of_known_belowOther hb with ⟨lower, hs, hb⟩ | ⟨hs, hb⟩
  · exact hlower lower hs b hb
  · exact h hs b hb

theorem certain_belowNode_of_other (hinter : n.kind ≠ .intersection)
    (h : n.kind ≠ .error → Certain ((judgements k).belowOther p t s n) T) :
    Certain ((judgements k).belowNode p t s n) T := by
  by_cases herror : n.kind = .error
  · obtain ⟨shape, as⟩ := n
    cases shape <;> cases herror
    exact certain_true
  rw [Judgements.belowNode_of_ne _ _ (fun bounds hn => hinter (congrArg TypeShape.kind hn))
    fun e hn => herror (congrArg TypeShape.kind hn)]
  exact h herror

/-- A type that is no intersection and stands for itself only is compared with by kind. -/
theorem certain_belowNode_of_kind (hs : T.Shows s v n) (hinter : n.kind ≠ .intersection)
    (hwild : n.kind ≠ .wildcard) (hvar : n.kind ≠ .typeVar)
    (h : n.kind ≠ .error → Certain ((judgements k).belowByKind p false t s n) T) :
    Certain ((judgements k).belowNode p t s n) T :=
  certain_belowNode_of_other hinter fun herror => certain_belowOther
    (fun _ hl => absurd hl (not_standsFor hs hwild (isCapture_eq_false hvar))) fun _ => h herror

/-- The types around two declared types are compared only if the second one is declared. -/
theorem certain_enclosingBelow_of (h : ∀ {w y}, T.Shows n.enclosingOrNone w y → y.kind = .declared →
      (∀ {w' x}, T.Shows m.enclosingOrNone w' x → x.kind = .declared) ∧
        Certain ((judgements k).subtype p false m.enclosingOrNone n.enclosingOrNone) T) :
    Certain ((judgements k).enclosingBelow p m n) T := by
  refine .bind fun counts hcounts => ?_
  split
  · next htrue =>
    subst htrue
    obtain ⟨htest, -⟩ := known_both_true.1 hcounts
    obtain ⟨kind, hkind, hdeclared⟩ := known_map.1 htest
    obtain ⟨w, y, hy, rfl⟩ := known_typeKind.1 (known_onStore.1 hkind)
    obtain ⟨hfirst, hbelow⟩ := h hy (of_decide_eq_true hdeclared.symm)
    refine .bind fun kind hkind => ?_
    obtain ⟨w', x, hx, rfl⟩ := known_typeKind.1 (known_onStore.1 hkind)
    rw [if_pos (hfirst hx)]
    exact hbelow
  · exact certain_true

/-- A declared type that was found is compared by its arguments and the types around it. -/
theorem certain_belowFound_of (hx : T.Shows x u m)
    (hother : m.kind ≠ .declared → Certain ((judgements k).subtype p false x s) T)
    (harguments : m.kind = .declared →
      n.arguments = [] ∨ Certain ((judgements k).containsArguments p s x) T)
    (houter : m.kind = .declared → Certain ((judgements k).enclosingBelow p m n) T) :
    Certain ((judgements k).belowFound p s n (some x)) T := by
  refine .of_known (known_onStore.2 (known_typeNode.2 ⟨u, hx⟩)) ?_
  split
  · next hkind => exact hother hkind
  · next hkind =>
    have hkind := not_not.1 hkind
    refine .both ?_ (houter hkind)
    rcases harguments hkind with hnil | hcontains
    · refine .either_left ?_
      rw [hnil]
      exact certain_true
    · exact .either_right
        hcontains

/-- A type of a class, or an intersection, is compared with a declared type by what a search finds. -/
theorem certain_belowByKind_found (ht : T.Shows t t m) (hm : m.kind = .declared ∨ m.kind = .intersection)
    (hn : n.kind = .declared)
    (h : ∀ {own}, Known (onStore n.elementOf) T own → ∃ e, own = some e ∧
      ∀ {fuel r}, Known (asSuperFrom e fuel [] t) T r →
        ∃ x, r = some x ∧ Certain ((judgements k).belowFound p s n (some x)) T) :
    Certain ((judgements k).belowByKind p false t s n) T := by
  have hbelow : Certain ((judgements k).belowDeclared p t s n) T := by
    rw [Judgements.belowDeclared_eq]
    refine .bind fun own hown => ?_
    obtain ⟨e, rfl, hfound⟩ := h hown
    refine .bind fun r hr => ?_
    obtain ⟨x, rfl, hx⟩ := hfound hr
    exact hx
  refine .of_known (known_onStore.2 (known_typeNode.2 ⟨t, ht⟩)) ?_
  obtain ⟨shape, as⟩ := m
  rcases hm with hm | hm
  all_goals
    cases shape <;> cases hm
    rw [if_pos hn]
    exact hbelow

theorem certain_belowAll {bounds : List TypeId}
    (h : ∀ b ∈ bounds, Certain ((judgements k).subtype p false t b) T) :
    Certain ((judgements k).belowAll p false t bounds) T := by
  induction bounds with
  | nil => exact certain_true
  | cons b bounds ih =>
    exact .both (h b List.mem_cons_self) (ih fun b' hb' => h b' (List.mem_cons_of_mem b hb'))

/-- A step asks whether the types are the same first, and goes on by the second type otherwise. -/
theorem cases_of_known_subtype (h : Known ((judgements k).subtype p false t s) T b) :
    ∃ j u m v n, k = j + 1 ∧ T.Shows t u m ∧ T.Shows s v n ∧
      (Known ((judgements j).sameType p u v) T true ∧ b = true ∨
        Known ((judgements j).sameType p u v) T false ∧
          Known ((judgements j).belowNode p u v n) T b) := by
  cases k with
  | zero => cases h
  | succ k =>
    rw [judgements_subtype, Judgements.subtypeStep_eq] at h
    obtain ⟨u, hu, h⟩ := known_bind.1 h
    obtain ⟨m, ht⟩ := known_resolveType.1 (known_onStore.1 hu)
    obtain ⟨⟨v, n⟩, hs, h⟩ := known_bind.1 h
    obtain ⟨same, hsame, h⟩ := known_bind.1 h
    refine ⟨k, u, m, v, n, rfl, ht, shows_of_known hs, ?_⟩
    cases same with
    | true => exact .inl ⟨hsame, known_pure.1 h⟩
    | false => exact .inr ⟨hsame, h⟩

theorem certain_subtype_succ (h : ∀ {u m v n}, T.Shows t u m →
      T.Shows s v n → Known ((judgements k).sameType p u v) T false →
        Certain ((judgements k).belowNode p u v n) T) :
    Certain ((judgements (k + 1)).subtype p false t s) T := by
  intro b hb
  obtain ⟨_, u, m, v, n, ⟨⟩, ht, hs, ⟨-, rfl⟩ | ⟨hsame, hb⟩⟩ := cases_of_known_subtype hb
  · rfl
  · exact h ht hs hsame b hb

/-- The comparison goes on with the nodes of the types, however much fuel there is. -/
theorem certain_subtype_nodes (h : ∀ {k u m v n}, T.Shows t u m → T.Shows s v n →
      Known ((judgements k).sameType p u v) T false → Certain ((judgements k).belowNode p u v n) T) :
    Certain ((judgements k).subtype p false t s) T := by
  cases k with
  | zero => rintro _ ⟨⟩
  | succ k => exact certain_subtype_succ h

/-- The first type may be given by any handle. -/
theorem certain_subtype_of_peek (ht : T.Shows t u m)
    (h : Certain ((judgements k).subtype p false u s) T) :
    Certain ((judgements k).subtype p false t s) T := by
  cases k with
  | zero => rintro _ ⟨⟩
  | succ k =>
    intro b hb
    refine h b ?_
    have hrest := Known.of_bind (known_onStore.2 (known_resolveType.2 ⟨m, ht⟩)) hb
    exact (known_onStore.2 (known_resolveType.2 ⟨m, ht.self⟩)).bind hrest

/-- The second type may be given by any handle. -/
theorem certain_subtype_to_node (hs : T.Shows s v n)
    (h : Certain ((judgements k).subtype p false t s) T) :
    Certain ((judgements k).subtype p false t v) T := by
  cases k with
  | zero => rintro _ ⟨⟩
  | succ k =>
    intro b hb
    refine h b ?_
    rw [judgements_subtype, Judgements.subtypeStep_eq] at hb ⊢
    obtain ⟨u, hu, hb⟩ := known_bind.1 hb
    have hrest := Known.of_bind (known_onStore.2 (known_viewType.2 hs.self)) hb
    exact hu.bind (hs.known.bind hrest)

/-- Two types are compared by their nodes. -/
theorem known_sameType_congr (ht : T.Shows t u m) (hs : T.Shows s v n) :
    Known ((judgements k).sameType p t s) T b ↔ Known ((judgements k).sameType p u v) T b := by
  cases k with
  | zero => exact .rfl
  | succ k =>
    have hview : ∀ {t u n}, T.Shows t u n → Known (onStore (viewType t)) T (u, n) :=
      fun ht => ht.known
    constructor
    · intro h
      have h := (hview hs).of_bind ((hview ht).of_bind h)
      exact (hview ht.self).bind ((hview hs.self).bind h)
    · intro h
      have h := (hview hs.self).of_bind ((hview ht.self).of_bind h)
      exact (hview ht).bind ((hview hs).bind h)

theorem known_subtype_congr (ht : T.Shows t u m) (hs : T.Shows s v n) :
    Known ((judgements k).subtype p false t s) T b ↔ Known ((judgements k).subtype p false u v) T b := by
  cases k with
  | zero => exact .rfl
  | succ k =>
    have hview : ∀ {t u n}, T.Shows t u n → Known (onStore (viewType t)) T (u, n) :=
      fun ht => ht.known
    have hresolve : ∀ {t u n}, T.Shows t u n → Known (onStore (resolveType t)) T u :=
      fun ht => known_onStore.2 (known_resolveType.2 ⟨_, ht⟩)
    constructor
    · intro h
      have h := (hview hs).of_bind ((hresolve ht).of_bind h)
      exact (hresolve ht.self).bind ((hview hs.self).bind h)
    · intro h
      have h := (hview hs.self).of_bind ((hresolve ht.self).of_bind h)
      exact (hresolve ht).bind ((hview hs).bind h)

theorem known_subtype_of_belowByKind (ht : T.Shows t u m) (hs : T.Shows s v n)
    (hinter : n.kind ≠ .intersection) (hwild : n.kind ≠ .wildcard) (hvar : n.kind ≠ .typeVar)
    (herror : n.kind ≠ .error) (hfuel : 1 ≤ (judgements k).fuel)
    (hsame : Known ((judgements k).sameType p u v) T false)
    (h : Known ((judgements k).belowByKind p false u v n) T b) :
    Known ((judgements (k + 1)).subtype p false t s) T b := by
  obtain ⟨fuel, hfuel⟩ : ∃ fuel, (judgements k).fuel = fuel + 1 := ⟨(judgements k).fuel - 1, by omega⟩
  rw [judgements_subtype, Judgements.subtypeStep_eq]
  refine (known_onStore.2 (known_resolveType.2 ⟨m, ht⟩)).bind (hs.known.bind (hsame.bind ?_))
  rw [if_neg Bool.false_ne_true, Judgements.belowNode_of_ne _ _
    (fun bounds hn => hinter (congrArg TypeShape.kind hn)) fun e hn => herror (congrArg TypeShape.kind hn)]
  refine .bind (a := v) ?_ (.bind (a := v) ?_ (.bind (a := false) ?_ h))
  · rw [hfuel]
    refine known_wildLowerBound_succ.2 ⟨v, n, hs.self, ?_⟩
    rw [if_pos hwild]
    rfl
  · rw [hfuel]
    refine (known_captureLowerBound_succ hs.self).2 ?_
    rw [isCapture_eq_false hvar]
    rfl
  · refine .bind (a := false) ?_ rfl
    rw [decide_eq_false (not_not.2 rfl)]
    rfl

theorem certain_belowByKind_of_subtype (ht : T.Shows t u m) (hs : T.Shows s v n)
    (hinter : n.kind ≠ .intersection) (hwild : n.kind ≠ .wildcard) (hvar : n.kind ≠ .typeVar)
    (herror : n.kind ≠ .error) (hsame : Known ((judgements k).sameType p u v) T false)
    (h : ∀ {k}, Certain ((judgements k).subtype p false t s) T) :
    Certain ((judgements k).belowByKind p false u v n) T := by
  intro b hb
  cases k with
  | zero => cases hsame
  | succ k =>
    -- There is fuel for all the questions at the next level, where the answers are the same.
    exact h b (known_subtype_of_belowByKind (k := k + 1 + 1) ht hs hinter hwild hvar herror
      (Nat.le_add_left 1 k) (hsame.grow le_rfl) (hb.grow le_rfl))

/-! ### Subtypes without further questions -/

theorem certain_subtype_of_sameType (h : ∀ {k u m v n}, T.Shows t u m →
    T.Shows s v n → Certain ((judgements k).sameType p u v) T) :
    Certain ((judgements k).subtype p false t s) T := by
  exact certain_subtype_nodes fun ht hs hsame => absurd (h ht hs false hsame) Bool.false_ne_true

/-- Handles that lead to one node are subtypes of each other. -/
theorem certain_subtype_of_node (ht : T.Shows t u m)
    (hs : T.Shows s u n) : Certain ((judgements k).subtype p false t s) T := by
  refine certain_subtype_of_sameType fun ht' hs' => ?_
  cases ht.symm.trans ht'
  cases hs.symm.trans hs'
  exact certain_sameType_self _

/-- Equal types are subtypes of each other. -/
theorem certain_subtype_of_equal (h : T.TypesEqual t s) (ht : T.Regular t) (hs : T.Regular s) :
    Certain ((judgements k).subtype p false t s) T :=
  certain_subtype_of_sameType fun htu hsv =>
    certain_sameType (((typesEqual_of_node htu).symm.trans h).trans (typesEqual_of_node hsv))
      (ht.of_node htu) (hs.of_node hsv)

/-- An error type is a subtype of every type. -/
theorem certain_subtype_error (hm : m.kind = .error) : ∀ {k : Nat} {t s : TypeId},
    T.Shows t u m → Certain ((judgements k).subtype p false t s) T
  | 0, _, _, _ => fun _ h => by cases h
  | k + 1, t, s, ht => by
      refine certain_subtype_succ fun {u' m' v n} ht' _ _ => ?_
      cases ht.symm.trans ht'
      have hu := ht.self
      unfold Judgements.belowNode
      split
      · exact certain_belowAll fun b _ => certain_subtype_error hm hu
      · exact certain_true
      · refine certain_belowOther (fun _ _ => certain_subtype_error hm hu) fun _ => ?_
        refine .of_known (known_onStore.2 (known_typeNode.2 ⟨u, hu⟩)) ?_
        obtain ⟨shape, as⟩ := m
        cases shape <;> cases hm
        exact certain_true

/-! ### Types that capture leaves alone -/

/-- Capture changes nothing in a type: if it is a declared type, no argument of it, or of a type around
it, turns out to be a wildcard. -/
def WildcardFree (S : Session) (t : TypeId) : Prop :=
  ∃ P : TypeId → Prop, P t ∧ ∀ T, Later S T → ∀ s, P s → ∀ u n, T.store.peekType s = some (u, n) →
    P u ∧ (n.kind = .declared → P n.enclosingOrNone ∧
      ∀ a ∈ n.arguments, ∀ w x, T.store.peekType a = some (w, x) → x.kind ≠ .wildcard)

theorem WildcardFree.later (h : S.WildcardFree t) (hT : Later S T) : T.WildcardFree t := by
  obtain ⟨P, hP, hclosed⟩ := h
  exact ⟨P, hP, fun U hU => hclosed U (hT.trans hU)⟩

theorem WildcardFree.of_node (h : S.WildcardFree t) (ht : S.Shows t u n) : S.WildcardFree u := by
  obtain ⟨P, hP, hclosed⟩ := h
  exact ⟨P, (hclosed S .rfl t hP u n ht).1, hclosed⟩

theorem WildcardFree.enclosing (h : S.WildcardFree t) (ht : S.Shows t u n)
    (hn : n.kind = .declared) : S.WildcardFree n.enclosingOrNone := by
  obtain ⟨P, hP, hclosed⟩ := h
  exact ⟨P, ((hclosed S .rfl t hP u n ht).2 hn).1, hclosed⟩

theorem WildcardFree.kind_ne (h : S.WildcardFree t) (ht : S.Shows t u n)
    (hn : n.kind = .declared) {x : TypeNode} (ha : a ∈ n.arguments)
    (hx : S.Shows a w x) : x.kind ≠ .wildcard := by
  obtain ⟨P, hP, hclosed⟩ := h
  exact ((hclosed S .rfl t hP u n ht).2 hn).2 a ha w x hx

instance settles_wildcardFlags : ∀ ts, Settles (wildcardFlags ts) (wildcardFlags ts)
  | [] => settles_pure []
  | _ :: ts =>
      have := settles_wildcardFlags ts
      settles_bind

instance settles_formals : ∀ es, Settles (formals es) (formals es)
  | [] => settles_pure []
  | _ :: es =>
      have := settles_formals es
      settles_bind

/-- No wildcard is among the types. -/
theorem any_eq_false_of_known_wildcardFlags : ∀ {ts : List TypeId} {flags : List Bool},
    (∀ t ∈ ts, ∀ u n, T.Shows t u n → n.kind ≠ .wildcard) →
      Known (wildcardFlags ts) T.store flags → flags.any id = false
  | [], flags, _, h => by
      cases known_pure.1 h
      rfl
  | t :: ts, flags, hts, h => by
      obtain ⟨kind, hkind, h⟩ := known_bind.1 h
      obtain ⟨rest, hrest, rfl⟩ := known_map.1 h
      obtain ⟨u, n, hn, rfl⟩ := known_typeKind.1 hkind
      have hne := hts t List.mem_cons_self u n hn
      have hany := any_eq_false_of_known_wildcardFlags
        (fun t' ht' => hts t' (List.mem_cons_of_mem t ht')) hrest
      simpa [hne] using hany

theorem ensures_captureFrom {e : ElementId} (h : S.WildcardFree t)
    (ht : S.Shows t u n) (hn : n.kind = .declared) :
    Ensures S (j.captureFrom p u n e outer outer) fun _ r => r = u := by
  refine ensures_of_settles.bind fun T flags hT hflags => ?_
  have hnone : flags.any id = false := any_eq_false_of_known_wildcardFlags
    (fun a ha w x hx => (h.later hT).kind_ne (ht.mono hT.le) hn ha hx)
    (known_onStore.1 (hflags T .rfl))
  refine ensures_bind_of_settles fun U es _ => ?_
  refine ensures_bind_of_settles fun V vars _ => ?_
  refine ensures_bind_of_settles fun W raw _ => ?_
  rw [if_pos (by simp [hnone]), if_pos rfl]
  exact ensures_pure fun _ _ => rfl

/-- Capture gives back a type without wildcard arguments. -/
theorem ensures_capture : ∀ {k : Nat} {S : Session} {t : TypeId}, S.WildcardFree t →
    Ensures S ((judgements k).capture p t) fun T r => ∃ n, T.Shows t r n
  | 0, _, _, _ => ensures_throw
  | k + 1, S, t, h => by
      refine ensures_of_settles.bind fun T x hT hx => ?_
      obtain ⟨u, n⟩ := x
      have hview : ∀ V, Later T V → V.Shows t u n := fun V hV => shows_of_known (hx V hV)
      have hself : ∀ {V x}, Later T V → Ensures V x (fun _ r => r = u) →
          Ensures V x fun W r => ∃ n, W.Shows t r n := fun hV hx =>
        hx.imp fun W r hW hr => ⟨n, hr ▸ hview W (hV.trans hW)⟩
      dsimp only
      split
      · exact hself .rfl (ensures_pure fun _ _ => rfl)
      next hn =>
      have hn := not_not.1 hn
      refine ensures_bind_of_settles fun U own hU => ?_
      cases own with
      | none => exact hself hU (ensures_pure fun _ _ => rfl)
      | some e =>
        refine ensures_of_settles.bind fun V y hV hy => ?_
        obtain ⟨outer, outerNode⟩ := y
        have hTV := hU.trans hV
        have houter := shows_of_known (hy V .rfl)
        have hfree := (h.later (hT.trans hTV)).enclosing (hview V hTV) hn
        have hfrom : ∀ W, Later V W → Ensures W ((judgements k).captureFrom p u n e outer outer)
            fun X r => ∃ n, X.Shows t r n := fun W hW =>
          hself (hTV.trans hW) (ensures_captureFrom (h.later (hT.trans (hTV.trans hW)))
            (hview W (hTV.trans hW)) hn)
        split
        · refine (ensures_capture (hfree.of_node houter)).bind fun W r hW hr => ?_
          obtain ⟨n', hn'⟩ := hr W .rfl
          cases (peekType_mono hW.le.store houter.self).symm.trans hn'
          exact hfrom W hW
        · exact hfrom V .rfl

/-! ### Comparisons without capture -/

/-- A type is an alternative of a union, or of one of its alternatives. Every type is an alternative of
itself. -/
inductive Alternative (S : Session) : TypeId → TypeId → Prop
  | refl (t : TypeId) : S.Alternative t t
  | union {t u a x : TypeId} {n : TypeNode} {as : List TypeId} (ht : S.store.peekType t = some (u, n))
      (hn : n.shape = .union as) (ha : a ∈ as) (hx : S.Alternative a x) : S.Alternative t x

/-- Capture changes nothing in a type, nor in the alternatives of a union. -/
def CaptureFree (S : Session) (t : TypeId) : Prop :=
  ∀ T, Later S T → ∀ x, T.Alternative t x → T.WildcardFree x

theorem CaptureFree.later (h : S.CaptureFree t) (hT : Later S T) : T.CaptureFree t :=
  fun U hU => h U (hT.trans hU)

theorem CaptureFree.wildcardFree (h : S.CaptureFree t) : S.WildcardFree t :=
  h S .rfl t (.refl t)

theorem CaptureFree.of_node (h : S.CaptureFree t) (ht : S.Shows t u n) : S.CaptureFree u := by
  intro T hT x hx
  have ht' := ht.mono hT.le
  cases hx with
  | refl => exact (h T hT t (.refl t)).of_node ht'
  | union hu hn ha hx =>
    cases ht'.self.symm.trans hu
    exact h T hT x (.union ht' hn ha hx)

theorem CaptureFree.alternative (h : S.CaptureFree t) (ht : S.Shows t u n)
    (hn : n.shape = .union as) (ha : a ∈ as) : S.CaptureFree a :=
  fun T hT x hx => h T hT x (.union (ht.mono hT.le) hn ha hx)

theorem WildcardFree.captureFree (h : S.WildcardFree t)
    (hunion : ∀ T, Later S T → ∀ u m, T.Shows t u m → m.kind ≠ .union) :
    S.CaptureFree t := by
  intro T hT x hx
  cases hx with
  | refl => exact h.later hT
  | union ht hn _ _ => exact absurd (by rw [TypeNode.kind, hn]; rfl) (hunion T hT _ _ ht)

theorem ensures_both_uncaptured {x y x' y' : Query Bool} [hx' : Settles x' x'] [hy' : Settles y' y']
    (hx : Ensures S x fun T b => Known x' T b)
    (hy : ∀ T, Later S T → Ensures T y fun U b => Known y' U b) :
    Ensures S (Action.both x y) fun T b => Known (Action.both x' y') T b := by
  refine hx.bind fun T b hT hb => ?_
  cases b with
  | true => exact (hy T hT).imp fun U c hU hc => known_both.2 (.inl ⟨hb U hU, hc⟩)
  | false => exact ensures_pure fun U hU => known_both.2 (.inr ⟨hb U hU, rfl⟩)

theorem ensures_belowAll_uncaptured [hj : j.Settle j] : ∀ {S : Session}
    {bounds : List TypeId}, (∀ T s, Later S T → Ensures T (j.subtype p true t s) fun U b =>
      Known (j.subtype p false t s) U b) → Ensures S (j.belowAll p true t bounds) fun T b =>
        Known (j.belowAll p false t bounds) T b
  | _, [], _ => ensures_pure fun _ _ => rfl
  | S, s :: _, h => ensures_both_uncaptured (h S s .rfl) fun _ hT =>
        ensures_belowAll_uncaptured fun U s' hU => h U s' (hT.trans hU)

theorem ensures_allBelow_uncaptured [hj : j.Settle j] : ∀ {S : Session}
    {as : List TypeId}, (∀ T a, Later S T → a ∈ as → Ensures T (j.subtype p true a s) fun U b =>
      Known (j.subtype p false a s) U b) → Ensures S (j.allBelow p true s as) fun T b =>
        Known (j.allBelow p false s as) T b
  | _, [], _ => ensures_pure fun _ _ => rfl
  | S, a :: _, h => ensures_both_uncaptured (h S a .rfl List.mem_cons_self) fun _ hT =>
        ensures_allBelow_uncaptured fun U a' hU ha' =>
          h U a' (hT.trans hU) (List.mem_cons_of_mem a ha')

/-- Only the alternatives of a union are captured later on. -/
theorem belowByKind_uncaptured (ht : T.Shows t u m) (hm : ∀ as, m.shape ≠ .union as) :
    j.belowByKind p true t s n T = j.belowByKind p false t s n T := by
  have hnode : Known (onStore (typeNode t)) T m := known_onStore.2 (known_typeNode.2 ⟨u, ht⟩)
  refine (bind_of_ok hnode).trans (.trans ?_ (bind_of_ok hnode).symm)
  obtain ⟨shape, as⟩ := m
  cases shape with
  | union alternatives => exact absurd rfl (hm alternatives)
  | _ => rfl

theorem belowByKind_of_union {capturing : Bool} (ht : T.Shows t u m) (hm : m.shape = .union as) :
    j.belowByKind p capturing t s n T = j.allBelow p capturing s as T := by
  have hnode : Known (onStore (typeNode t)) T m := known_onStore.2 (known_typeNode.2 ⟨u, ht⟩)
  refine (bind_of_ok hnode).trans ?_
  obtain ⟨shape, annotations⟩ := m
  cases hm
  rfl

theorem ensures_belowByKind_uncaptured [hj : j.Settle j] (ht : S.Shows t u m)
    (h : ∀ as, m.shape = .union as → ∀ T a, Later S T → a ∈ as →
      Ensures T (j.subtype p true a s) fun U b => Known (j.subtype p false a s) U b) :
    Ensures S (j.belowByKind p true t s n) fun T b => Known (j.belowByKind p false t s n) T b := by
  have ht' : ∀ T, Later S T → T.Shows t u m := fun T hT => ht.mono hT.le
  intro T hT b U hb
  by_cases hm : ∃ as, m.shape = .union as
  · obtain ⟨as, hm⟩ := hm
    rw [belowByKind_of_union (ht' T hT) hm] at hb
    obtain ⟨hTU, hU⟩ := ensures_allBelow_uncaptured (h as hm) T hT b U hb
    refine ⟨hTU, fun V hV => ?_⟩
    exact (belowByKind_of_union (ht' V (hT.trans (hTU.trans hV))) hm).trans (hU V hV)
  · rw [belowByKind_uncaptured (ht' T hT) fun as has => hm ⟨as, has⟩] at hb
    exact ensures_of_settles T hT b U hb

/-- A comparison with capture gives the answer of the comparison without, if capture has nothing to
change. -/
theorem ensures_subtype_uncaptured : ∀ {k : Nat} {S : Session} {t s : TypeId}, S.CaptureFree t →
    Ensures S ((judgements k).subtype p true t s) fun T b =>
      Known ((judgements k).subtype p false t s) T b
  | 0, _, _, _, _ => ensures_throw
  | k + 1, S, t, s, hfree => by
      refine ensures_of_settles.bind fun T u hT hu => ?_
      refine ensures_of_settles.bind fun U x hU hx => ?_
      obtain ⟨v, n⟩ := x
      refine ensures_of_settles.bind fun V same hV hsame => ?_
      have hUV := hU.trans hV
      -- What is left to do once it is known whether the types are the same.
      have hrest : ∀ {x : Query Bool}, Ensures V x (fun W b =>
          Known (if same = true then pure true else (judgements k).belowNode p u v n) W b) →
            Ensures V x fun W b => Known (do
              let t ← resolveType t
              let x ← viewType s
              if ← (judgements k).sameType p t x.1 then return true
              else (judgements k).belowNode p t x.1 x.2 : Query Bool) W b := fun hx' =>
        hx'.imp fun W b hW hb => (hu W (hUV.trans hW)).bind
          ((hx W (hV.trans hW)).bind ((hsame W hW).bind hb))
      refine hrest ?_
      cases same with
      | true => exact ensures_pure fun _ _ => rfl
      | false =>
        simp only [Bool.false_eq_true, if_false]
        obtain ⟨m, hm⟩ := known_resolveType.1 (known_onStore.1 (hu V hUV))
        have hfree' := (hfree.later (hT.trans hUV)).of_node hm
        have hu' := Store.peekType_self hm
        split
        · next bounds hn =>
          rw [Judgements.belowNode_of_intersection _ _ hn]
          exact ensures_belowAll_uncaptured fun W s' hW =>
            ensures_subtype_uncaptured (hfree'.later hW)
        · next e hn =>
          rw [Judgements.belowNode_of_error _ _ hn]
          exact ensures_pure fun _ _ => rfl
        · next hne hne' =>
          rw [Judgements.belowNode_of_ne _ _ hne hne']
          refine ensures_of_settles.bind fun W w hW hw => ?_
          refine ensures_of_settles.bind fun X lower hX hlower => ?_
          refine ensures_of_settles.bind fun Y through hY hthrough => ?_
          have hVY := hW.trans (hX.trans hY)
          refine (ensures_capture (hfree'.later hVY).wildcardFree).bind fun Z r hZ hr => ?_
          obtain ⟨m', hm'⟩ := hr Z .rfl
          have huZ := peekType_mono (hVY.trans hZ).le.store hu'
          cases huZ.symm.trans hm'
          refine .imp ?_ fun A b hA hb => (hw A (hX.trans (hY.trans (hZ.trans hA)))).bind
              ((hlower A (hY.trans (hZ.trans hA))).bind ((hthrough A (hZ.trans hA)).bind hb))
          cases through with
          | true =>
            rw [if_pos rfl]
            exact ensures_of_settles
          | false =>
            refine ensures_belowByKind_uncaptured huZ fun as has A a hA ha => ?_
            have hfreeZ := hfree'.later (hVY.trans hZ)
            exact ensures_subtype_uncaptured ((hfreeZ.alternative huZ has ha).later hA)

end Session

end JavaTypes
