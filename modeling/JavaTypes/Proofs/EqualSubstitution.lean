import JavaTypes.Proofs.SubstitutedParts

/-!
# Substituting equal types

A substitution gives back the handle of a type in which nothing changes, and derives a new type
otherwise. If two substitutions replace the same variables by equal types, one of them can give back a
handle where the other derives a type. The results are equal nevertheless, if annotations do not count.

* `Moved.typesEqual`: a type that has what became of the parts of another, place by place, equals a type
  with equal parts, whether the handle stayed or not;
* `Session.Flat T t`: no wildcard that occurs in `t` is bounded by a wildcard. The bounds of a wildcard
  that is derived are never wildcards, so one that is given back must not have such bounds either;
* `typesEqual_substitute`: the results are equal.
-/

namespace JavaTypes

open Action Equality

namespace Session

variable {S T : Session} {k k' t t' u u' v : TypeId} {m n : TypeNode} {o o' p : Outline} {fuel : Nat}

/-! ### Outlines up to equality -/

variable {change change' : TypeId → Query TypeId} {s : Option TypeId} {P : TypeId → Prop}
  {σ : Substitution}

theorem TypesEqual.refl (t : TypeId) : T.TypesEqual t t :=
  EqualTypes.refl t

theorem TypesEqual.symm (h : T.TypesEqual t u) : T.TypesEqual u t :=
  EqualTypes.symm h

theorem TypesEqual.trans (h : T.TypesEqual t u) (h' : T.TypesEqual u k) : T.TypesEqual t k :=
  EqualTypes.trans h h'

theorem typesEqual_of_node (h : T.Shows t u n) : T.TypesEqual t u :=
  .of_node h

/-- Two outlines have equal parts. -/
def Alike (T : Session) (o p : Outline) : Prop :=
  OutlinesAlike T.TypesEqual T.ElementsEqual o p

theorem typesEqual_of_alike (hq : T.config.includeAnnotations = false) (ht : T.Shows t u m)
    (ht' : T.Shows t' u' n) (halike : T.Alike m.outline n.outline) : T.TypesEqual t t' :=
  .of_alike (.inr ⟨u, m, u', n, ht, ht', .inr
    ⟨fun hq' => absurd (hq.symm.trans hq') Bool.false_ne_true, halike⟩⟩)

theorem forall₂_typesEqual_refl (ts : List TypeId) : List.Forall₂ T.TypesEqual ts ts :=
  List.forall₂_same.2 fun t _ => .refl t

/-! ### Parts of equal types -/

/-- Completed types that are equal have one node, or nodes of alike outlines. -/
theorem TypesEqual.alike (h : T.TypesEqual t t') (ht : T.Shows t u m)
    (ht' : T.Shows t' u' n) : u = u' ∧ m = n ∨ T.Alike m.outline n.outline := by
  obtain ⟨v, x, hx, hnodes⟩ := EqualTypes.exists_peek h ht
  cases ht'.symm.trans hx
  exact hnodes.imp_right fun hnodes => hnodes.outlines

theorem optionRel_typesEqual_refl (r : Option TypeId) : Option.Rel T.TypesEqual r r := by
  cases r with
  | none => exact .none
  | some t => exact .some (.refl t)

theorem TypesEqual.wildcardBounds (h : T.TypesEqual t t') (ht : T.Shows t u m)
    (ht' : T.Shows t' u' n) (hm : m.kind = .wildcard) :
    Option.Rel T.TypesEqual m.extendsBound n.extendsBound ∧
      Option.Rel T.TypesEqual m.superBound n.superBound := by
  have hn : n.kind = .wildcard := (EqualTypes.kind_eq h ht ht').symm.trans hm
  rcases h.alike ht ht' with ⟨rfl, rfl⟩ | halike
  · exact ⟨optionRel_typesEqual_refl _, optionRel_typesEqual_refl _⟩
  · obtain ⟨shape, as⟩ := m
    obtain ⟨shape', as'⟩ := n
    cases shape <;> cases hm
    cases shape' <;> cases hn
    obtain ⟨⟩ | ⟨hupper, hrest⟩ := halike.types
    obtain ⟨⟩ | ⟨hlower, -⟩ := hrest
    exact ⟨optionRel_of_forall₂_toList hupper, optionRel_of_forall₂_toList hlower⟩

/-- Equal types lie behind equal wildcards, from above. -/
theorem typesEqual_wildUpperBound : ∀ {fuel fuel' : Nat} {t t' k k' : TypeId}, T.TypesEqual t t' →
    Known (wildUpperBound fuel t) T k → Known (wildUpperBound fuel' t') T k' → T.TypesEqual k k'
  | 0, _, _, _, _, _, _, h, _ => by cases h
  | _ + 1, 0, _, _, _, _, _, _, h' => by cases h'
  | fuel + 1, fuel' + 1, t, t', k, k', hequal, h, h' => by
      obtain ⟨u, m, ht, h⟩ := known_wildUpperBound_succ.1 h
      obtain ⟨u', n, ht', h'⟩ := known_wildUpperBound_succ.1 h'
      rw [← EqualTypes.kind_eq hequal ht ht'] at h'
      by_cases hwild : m.kind = .wildcard
      · rw [if_neg (not_not.2 hwild)] at h h'
        have hbounds := (hequal.wildcardBounds ht ht' hwild).1
        generalize m.extendsBound = r at h hbounds
        generalize n.extendsBound = r' at h' hbounds
        cases hbounds with
        | some hbound => exact typesEqual_wildUpperBound hbound h h'
        | none => exact h.unique h' ▸ TypesEqual.refl k
      · rw [if_pos hwild] at h h'
        cases known_pure.1 h
        cases known_pure.1 h'
        exact hequal

/-- Equal types lie behind equal wildcards, from below. -/
theorem typesEqual_wildLowerBound : ∀ {fuel fuel' : Nat} {t t' k k' : TypeId}, T.TypesEqual t t' →
    Known (onStore (wildLowerBound fuel t)) T k → Known (onStore (wildLowerBound fuel' t')) T k' →
      T.TypesEqual k k'
  | 0, _, _, _, _, _, _, h, _ => absurd (known_onStore.1 h) not_known_throw
  | _ + 1, 0, _, _, _, _, _, _, h' => absurd (known_onStore.1 h') not_known_throw
  | fuel + 1, fuel' + 1, t, t', k, k', hequal, h, h' => by
      obtain ⟨u, m, ht, h⟩ := known_wildLowerBound_succ.1 h
      obtain ⟨u', n, ht', h'⟩ := known_wildLowerBound_succ.1 h'
      rw [← EqualTypes.kind_eq hequal ht ht'] at h'
      by_cases hwild : m.kind = .wildcard
      · rw [if_neg (not_not.2 hwild)] at h h'
        have hbounds := (hequal.wildcardBounds ht ht' hwild).2
        generalize m.superBound = r at h hbounds
        generalize n.superBound = r' at h' hbounds
        cases hbounds with
        | some hbound => exact typesEqual_wildLowerBound hbound h h'
        | none => exact h.unique h' ▸ TypesEqual.refl k
      · rw [if_pos hwild] at h h'
        cases known_pure.1 (known_onStore.1 h)
        cases known_pure.1 (known_onStore.1 h')
        exact hequal

theorem exists_of_known_lowerBoundAfter (h : Known (onStore (lowerBoundAfter fuel (some t))) T s) :
    ∃ u n, T.Shows t u n ∧ (n.kind ≠ .wildcard ∧ s = some t ∨
      n.kind = .wildcard ∧ ∃ l v x, Known (onStore (wildLowerBound fuel t)) T l ∧
        T.Shows l v x ∧ s = if x.kind = .null then none else some l) := by
  obtain ⟨k, hk, h⟩ := known_bind.1 (known_onStore.1 h)
  obtain ⟨u, n, ht, rfl⟩ := known_typeKind.1 hk
  refine ⟨u, n, ht, ?_⟩
  split at h
  · next hwild =>
    obtain ⟨l, hl, h⟩ := known_bind.1 h
    obtain ⟨k, hk, rfl⟩ := known_map.1 h
    obtain ⟨v, x, hx, rfl⟩ := known_typeKind.1 hk
    exact .inr ⟨hwild, l, v, x, known_onStore.2 hl, hx, rfl⟩
  · next hwild => exact .inl ⟨hwild, known_pure.1 h⟩

/-- What stays of equal bounds from below is equal. -/
theorem optionRel_lowerBoundAfter {fuel' : Nat} {r r' s' : Option TypeId}
    (hequal : Option.Rel T.TypesEqual r r') (h : Known (onStore (lowerBoundAfter fuel r)) T s)
    (h' : Known (onStore (lowerBoundAfter fuel' r')) T s') : Option.Rel T.TypesEqual s s' := by
  cases hequal with
  | none =>
    cases known_pure.1 (known_onStore.1 h)
    cases known_pure.1 (known_onStore.1 h')
    exact .none
  | some hequal =>
    obtain ⟨u, m, ht, h⟩ := exists_of_known_lowerBoundAfter h
    obtain ⟨u', n, ht', h'⟩ := exists_of_known_lowerBoundAfter h'
    have hkind := EqualTypes.kind_eq hequal ht ht'
    rcases h with ⟨hm, rfl⟩ | ⟨hm, l, v, x, hl, hx, rfl⟩
    · rcases h' with ⟨-, rfl⟩ | ⟨hn, -⟩
      · exact .some hequal
      · exact absurd (hkind.trans hn) hm
    · rcases h' with ⟨hn, -⟩ | ⟨-, l', v', x', hl', hx', rfl⟩
      · exact absurd (hkind.symm.trans hm) hn
      · have hlower := typesEqual_wildLowerBound hequal hl hl'
        rw [← EqualTypes.kind_eq hlower hx hx']
        split
        · exact .none
        · exact .some hlower

/-! ### Wildcards bounded by wildcards -/

/-- A type occurs in another: it is the type, or it occurs in a part of it. -/
inductive Occurs (T : Session) : TypeId → TypeId → Prop
  | self (t : TypeId) : Occurs T t t
  | part {t u c v : TypeId} {n : TypeNode} (ht : T.store.peekType t = some (u, n))
      (hc : c ∈ n.outline.types.flatten) (h : Occurs T c v) : Occurs T t v

/-- Something holds of the node of every type that occurs in the type. -/
def Throughout (T : Session) (P : TypeId → TypeNode → Prop) (t : TypeId) : Prop :=
  ∀ v, T.Occurs t v → ∀ u n, T.store.peekType v = some (u, n) → P u n

/-- No wildcard that occurs in the type is bounded by a wildcard. -/
def Flat (T : Session) : TypeId → Prop :=
  T.Throughout fun _ n => ∀ b ∈ n.extendsBound.toList ++ n.superBound.toList, ∀ w x,
    T.store.peekType b = some (w, x) → x.kind ≠ .wildcard

theorem Occurs.of_node (h : T.Occurs u v) (ht : T.Shows t u n) : v = u ∨ T.Occurs t v := by
  cases h with
  | self => exact .inl rfl
  | part hu hc hv =>
    cases ht.self.symm.trans hu
    exact .inr (.part ht hc hv)

/-- What holds of a type and of the parts of what it holds of, holds of all that occurs in the type. -/
theorem Occurs.closed (h : T.Occurs t v)
    (hP : ∀ t u n, P t → T.Shows t u n → ∀ c ∈ n.outline.types.flatten, P c) (ht : P t) : P v := by
  induction h with
  | self => exact ht
  | part hpeek hc _ ih => exact ih (hP _ _ _ ht hpeek _ hc)

section Throughout

variable {P : TypeId → TypeNode → Prop}

theorem Throughout.here (h : T.Throughout P t) (ht : T.Shows t u n) : P u n :=
  h t (.self t) u n ht

theorem Throughout.part {c : TypeId} (h : T.Throughout P t) (ht : T.Shows t u n)
    (hc : c ∈ n.outline.types.flatten) : T.Throughout P c :=
  fun v hv => h v (.part ht hc hv)

theorem Throughout.of_node (h : T.Throughout P t) (ht : T.Shows t u n) : T.Throughout P u := by
  intro v hv w x hx
  rcases hv.of_node ht with rfl | hv
  · cases ht.self.symm.trans hx
    exact h.here ht
  · exact h v hv w x hx

end Throughout

/-- A variable stays, or it is replaced. -/
theorem cases_of_known_substitute_typeVar (ht : T.Shows t u n) (hn : n.kind = .typeVar)
    (h : Known (substitute σ fuel t) T k) : σ.isActive = false ∧ k = u ∨
      σ.isActive = true ∧ ∃ f, Known (replacement f u σ.vars σ.vals) T k := by
  obtain ⟨f, _, _, -, ht', h⟩ := node_of_known_substitute h
  cases ht.symm.trans ht'
  obtain ⟨shape, as⟩ := n
  cases shape <;> cases hn
  unfold substituteNode at h
  split at h
  · next hσ => exact .inr ⟨hσ, f, h⟩
  · next hσ => exact .inl ⟨Bool.eq_false_iff.2 hσ, known_pure.1 h⟩

theorem known_substitute_of_node (ht : T.Shows t u n) :
    Known (substitute σ fuel u) T k ↔ Known (substitute σ fuel t) T k := by
  cases fuel with
  | zero => exact .rfl
  | succ fuel =>
    exact ⟨fun h => ht.known.bind (ht.self.known.of_bind h), fun h => ht.self.known.bind (ht.known.of_bind h)⟩

theorem typesEqual_replacement : ∀ {vars vals vals' : List TypeId} {f f' : Nat} {k k' : TypeId},
    List.Forall₂ T.TypesEqual vals vals' → Known (replacement f t vars vals) T k →
      Known (replacement f' t vars vals') T k' → T.TypesEqual k k'
  | [], _, _, _, _, k, k', _, h, h' => by
      cases known_pure.1 h
      cases known_pure.1 h'
      exact .refl _
  | _ :: _, [], [], _, _, k, k', _, h, h' => by
      cases known_pure.1 h
      cases known_pure.1 h'
      exact .refl _
  | v :: vars, r :: vals, r' :: vals', f, f', k, k', .cons hr hvals, h, h' => by
      obtain ⟨same, hsame, h⟩ := known_bind.1 h
      obtain ⟨same', hsame', h'⟩ := known_bind.1 h'
      have hsame : Known (sameTypeVariable (max f f') t v) T same := hsame.grow le_rfl
      cases hsame.unique (hsame'.grow le_rfl)
      cases same with
      | true =>
        cases known_pure.1 h
        cases known_pure.1 h'
        exact hr
      | false => exact typesEqual_replacement hvals h h'

/-- What two changes make of a list is related if it is for each type of the list. -/
theorem forall₂_of_common {α β γ : Type} {P : α → β → Prop} {P' : α → γ → Prop} {R : β → γ → Prop}
    {ts : List α} {ks : List β} {ks' : List γ} (h : List.Forall₂ P ts ks) (h' : List.Forall₂ P' ts ks')
    (hrel : ∀ t ∈ ts, ∀ k k', P t k → P' t k' → R k k') : List.Forall₂ R ks ks' := by
  induction h generalizing ks' with
  | nil =>
    cases h'
    exact .nil
  | cons hk _ ih =>
    obtain ⟨⟩ | ⟨hk', h'⟩ := h'
    exact .cons (hrel _ List.mem_cons_self _ _ hk hk')
      (ih h' fun t ht => hrel t (List.mem_cons_of_mem _ ht))

/-! ### Parts up to equality -/

theorem typesEqual_of_coincide (hq : T.config.includeAnnotations = false) (h : T.Coincide t t') :
    T.TypesEqual t t' := by
  rcases h with rfl | ⟨x, ht, ht'⟩ | ⟨⟨u, m, ht, hm⟩, u', n, ht', hn⟩
  · exact .refl t
  · exact (typesEqual_of_node ht).trans (typesEqual_of_node ht').symm
  · refine typesEqual_of_alike hq ht ht' ?_
    obtain ⟨shape, as⟩ := m
    obtain ⟨shape', as'⟩ := n
    cases shape <;> cases hm
    cases shape' <;> cases hn
    exact ⟨rfl, rfl, .nil, .nil⟩

theorem elementsEqual_of_coincide {d e : ElementId} (h : T.CoincideElements d e) :
    T.ElementsEqual d e := by
  rcases h with rfl | ⟨x, hx⟩
  · exact .refl d
  · exact .of_node hx

/-- Lists have become equal if their types have, one by one. -/
theorem forall₂_of_partsBecome (hq : T.config.includeAnnotations = false)
    {place place' : PartPlace} {as as' bs bs' : List TypeId}
    (h : T.PartsBecome change (place, as) bs) (h' : T.PartsBecome change' (place', as') bs')
    (hrel : List.Forall₂ (fun a a' => ∀ o o', T.Becomes change place a o →
      T.Becomes change' place' a' o' → Option.Rel T.TypesEqual o o') as as') :
    List.Forall₂ T.TypesEqual bs bs' := by
  have hlists : ∀ {as as' os os'}, List.Forall₂ (fun a a' => ∀ o o', T.Becomes change place a o →
      T.Becomes change' place' a' o' → Option.Rel T.TypesEqual o o') as as' →
        List.Forall₂ (T.Becomes change place) as os → List.Forall₂ (T.Becomes change' place') as' os' →
          List.Forall₂ T.TypesEqual os.reduceOption os'.reduceOption := by
    intro as as' os os' hrel
    induction hrel generalizing os os' with
    | nil =>
      rintro ⟨⟩ ⟨⟩
      exact .nil
    | cons hab _ ih =>
      rintro (_ | ⟨ho, hos⟩) (_ | ⟨ho', hos'⟩)
      have hrest := ih hos hos'
      cases hab _ _ ho ho' with
      | none => exact hrest
      | some hequal => exact .cons hequal hrest
  obtain ⟨os, hos, hbs⟩ := h
  obtain ⟨os', hos', hbs'⟩ := h'
  refine (forall₂_comp (forall₂_comp (forall₂_flip hbs) (hlists hrel hos hos')) hbs').imp ?_
  rintro b b' ⟨l', ⟨l, hl, hequal⟩, hl'⟩
  exact ((typesEqual_of_coincide hq hl).symm.trans hequal).trans (typesEqual_of_coincide hq hl')

theorem alike_of_parts (hkind : m.kind = n.kind) (hvar : n.kind ≠ .typeVar)
    (he : Option.Rel T.ElementsEqual m.element n.element)
    (hparts : List.Forall₂ (List.Forall₂ T.TypesEqual) (m.parts.map Prod.snd) (n.parts.map Prod.snd)) :
    T.Alike m.outline n.outline := by
  rw [TypeNode.outline_eq (hkind ▸ hvar), TypeNode.outline_eq hvar, hkind]
  refine ⟨rfl, rfl, ?_, hparts⟩
  split
  · exact .cons he .nil
  · exact .nil

/-- A type that has what became of the parts of a node equals one that has equal parts. -/
theorem Moved.typesEqual (hq : T.config.includeAnnotations = false)
    (hvar : n.kind ≠ .typeVar) (h : T.Moved change n k) (hk' : T.Shows k' u' m) (hkind : m.kind = n.kind)
    (he : Option.Rel T.ElementsEqual n.element m.element)
    (hparts : List.Forall₂ (fun p bs' => ∀ bs, T.PartsBecome change p bs →
      List.Forall₂ T.TypesEqual bs bs') n.parts (m.parts.map Prod.snd)) : T.TypesEqual k k' := by
  obtain ⟨x, hx, hxn, hxe, hxparts⟩ := h
  refine typesEqual_of_alike hq hx hk' (alike_of_parts (hxn.trans hkind.symm) (hkind ▸ hvar) ?_ ?_)
  · revert he hxe
    generalize n.element = d, m.element = d', x.element = e
    rintro (he | _) (hxe | _)
    · exact .some (.trans (.symm (elementsEqual_of_coincide hxe)) he)
    · exact .none
  · exact forall₂_of_common hxparts hparts fun _ _ _ _ h h' => h' _ h

section Substitute

variable (hq : T.config.includeAnnotations = false) (hT : T.DerivesShapes)
  (habsent : ∃ n, T.Shows TypeId.none TypeId.none n ∧ n.kind = .noType .none)

/-- In every place, equal changes make equal types of a type. -/
theorem optionRel_of_becomes {place : PartPlace} {a : TypeId}
    {o o' : Option TypeId} {P : TypeId → TypeNode → Prop}
    (hequal : ∀ {c k k' : TypeId}, T.Throughout P c → Known (change c) T k →
      Known (change' c) T k' → T.TypesEqual k k') (ha : T.Throughout P a)
    (h : T.Becomes change place a o) (h' : T.Becomes change' place a o') :
    Option.Rel T.TypesEqual o o' := by
  cases place with
  | kept =>
    cases h
    cases h'
    exact .some (TypesEqual.refl a)
  | changed =>
    obtain ⟨k, hk, rfl⟩ := h
    obtain ⟨k', hk', rfl⟩ := h'
    exact .some (hequal ha hk hk')
  | around =>
    obtain ⟨w, y, k, hw, hk, rfl⟩ := h
    obtain ⟨_, _, k', hw', hk', rfl⟩ := h'
    cases Eq.trans (.symm hw) hw'
    split at hk
    · next hy =>
      rw [if_pos hy] at hk'
      exact .some (hequal (ha.of_node hw) hk hk')
    · next hy =>
      rw [if_neg hy] at hk'
      exact hk.unique hk' ▸ .some (TypesEqual.refl k)
  | above =>
    obtain ⟨k, f, l, hk, hl, rfl⟩ := h
    obtain ⟨k', f', l', hk', hl', rfl⟩ := h'
    exact .some (typesEqual_wildUpperBound (hequal ha hk hk') hl hl')
  | below =>
    obtain ⟨k, f, hk, ho⟩ := h
    obtain ⟨k', f', hk', ho'⟩ := h'
    exact optionRel_lowerBoundAfter (.some (hequal ha hk hk')) ho ho'

/-- The substitutions make equal types of a variable. -/
def AgreeOn (T : Session) (σ σ' : Substitution) (u : TypeId) (n : TypeNode) : Prop :=
  n.kind = .typeVar → ∀ f f' k k', Known (substitute σ f u) T k → Known (substitute σ' f' u) T k' →
    T.TypesEqual k k'

theorem agreeOn_of_forall₂ {vars vals vals' : List TypeId} (hvals : List.Forall₂ T.TypesEqual vals vals')
    (hu : T.Shows u u n) : T.AgreeOn ⟨vars, vals⟩ ⟨vars, vals'⟩ u n := by
  intro hn f f' k k' hk hk'
  have hactive : Substitution.isActive ⟨vars, vals⟩ = Substitution.isActive ⟨vars, vals'⟩ := by
    rw [Substitution.isActive, Substitution.isActive, hvals.length_eq]
  rcases cases_of_known_substitute_typeVar hu hn hk with ⟨hσ, rfl⟩ | ⟨hσ, g, hk⟩
  · rcases cases_of_known_substitute_typeVar hu hn hk' with ⟨-, rfl⟩ | ⟨hσ', -⟩
    · exact .refl _
    · cases hσ.symm.trans (hactive.trans hσ')
  · rcases cases_of_known_substitute_typeVar hu hn hk' with ⟨hσ', -⟩ | ⟨-, g', hk'⟩
    · cases hσ.symm.trans (hactive.trans hσ')
    · exact typesEqual_replacement hvals hk hk'

include hq hT habsent

/-- Substitutions of equal types for the variables of a type give equal types. -/
theorem typesEqual_substitute {σ σ' : Substitution} (hactive : σ.isActive = σ'.isActive) {f f' : Nat}
    (hflat : T.Flat t) (hvars : T.Throughout (T.AgreeOn σ σ') t)
    (h : Known (substitute σ f t) T k) (h' : Known (substitute σ' f' t) T k') : T.TypesEqual k k' := by
  have hgoes : ∀ {n : TypeNode}, GoesUnmoved σ n ↔ GoesUnmoved σ' n := by
    intro n
    rw [GoesUnmoved, GoesUnmoved, hactive]
  have hboth : T.Throughout (fun u n => (∀ b ∈ n.extendsBound.toList ++ n.superBound.toList,
      ∀ w x, T.Shows b w x → x.kind ≠ .wildcard) ∧ T.AgreeOn σ σ' u n) t :=
    fun v hv u n hn => ⟨hflat v hv u n hn, hvars v hv u n hn⟩
  clear hflat hvars
  induction f generalizing t k f' k' with
  | zero => cases h
  | succ f ih =>
    obtain ⟨f', -, -, rfl, -⟩ := node_of_known_substitute h'
    obtain ⟨x, hx, hkind⟩ := habsent
    obtain ⟨_, u, n, ⟨⟩, ht, -⟩ := node_of_known_substitute h
    obtain ⟨hbounds, hagree⟩ := hboth.here ht
    have habsent : T.Absent TypeId.none := ⟨_, x, hx, hkind⟩
    have hk' := cases_of_known_substituteNode hT habsent ht hbounds h'
    rcases cases_of_known_substituteNode hT habsent ht hbounds h with
      ⟨hstays, rfl⟩ | ⟨hmoves, ⟨hvar, -⟩ | ⟨hvar, hmoved⟩⟩
    · obtain ⟨-, rfl⟩ := hk'.resolve_right fun hk' => hk'.1 (hgoes.1 hstays)
      exact .refl _
    · exact hagree hvar _ _ _ _ ((known_substitute_of_node ht).2 h) ((known_substitute_of_node ht).2 h')
    · obtain ⟨m, hm, hmn, hme, hparts⟩ := ((hk'.resolve_left fun hk' => hmoves (hgoes.2 hk'.1)).2.resolve_left
        fun hk' => hvar hk'.1).2
      refine hmoved.typesEqual hq hvar hm hmn (optionRel_imp (fun _ _ => elementsEqual_of_coincide) hme) ?_
      refine forall₂_imp_of_mem (fun p hp bs' _ hbs' bs hbs => ?_) hparts
      refine forall₂_of_partsBecome hq hbs hbs' (List.forall₂_same.2 fun a ha o o' ho ho' => ?_)
      exact optionRel_of_becomes (fun hc hk hk' => ih hk hk' hc)
        (hboth.part ht (TypeNode.mem_outline_of_parts hp ha)) ho ho'

end Substitute

end Session

end JavaTypes
