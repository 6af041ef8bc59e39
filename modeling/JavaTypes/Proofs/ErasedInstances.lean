import JavaTypes.Proofs.EqualInstances

/-!
# Erased instances

Two instances of a class see what the class names in different ways: one puts its arguments into it,
another erases it. Erasure takes the difference away, so the direct supertypes of the two, erased one by
one, are the same types. In particular this holds of a type and of its erasure.

* `Session.Erases T t r`: the session knows that `t` is erased to `r`;
* `Erases.idem`: erasing again changes nothing;
* `Session.Bare T t`: neither `t` nor a type around it has arguments. A substitution leaves such a type
  alone (`Bare.eq_of_known_substitute`). `Session.ErasedBare T t` asks this where a type is marked as
  erased;
* `erasesAlike_of_known_substitute`: what a substitution changes, erasure takes away;
* `Sees.erases_iff`: a type that is seen from an instance is erased to what the named type is erased to.
-/

namespace JavaTypes

open Action

/-- Whether a declared type has no arguments and its element has no parameters. -/
def plainTest (n : TypeNode) (d : ElementId) : Query Bool :=
  Action.both (pure n.arguments.isEmpty) do return (← typeParameters d).isEmpty

/-- The raw type of an element, inside the given type. -/
def rawIn (enclosing : TypeId) (d : ElementId) : Query TypeId := do
  let outer ← unlessNone enclosing
  deriveDeclared (← resolveElement d) outer [] true

namespace Session

variable {S T : Session} {a d e : ElementId} {k r r' t u v w w' x : TypeId} {m n : TypeNode}
  {fuel : Nat} {σ : Substitution}

variable {change : TypeId → Query TypeId} {z : ElementNode} {q : Option (List TypeId)}

theorem known_rawIn : Known (rawIn w d) T r ↔ ∃ outer e x, Known (onStore (unlessNone w)) T outer ∧
    T.store.peekElement d = some (e, x) ∧ Known (deriveDeclared e outer [] true) T r := by
  constructor
  · intro h
    obtain ⟨outer, houter, h⟩ := known_bind.1 h
    obtain ⟨e, he, h⟩ := known_bind.1 h
    obtain ⟨x, hx⟩ := known_resolveElement.1 (known_onStore.1 he)
    exact ⟨outer, e, x, houter, hx, h⟩
  · rintro ⟨outer, e, x, houter, hx, h⟩
    exact houter.bind ((known_onStore.2 (known_resolveElement.2 ⟨x, hx⟩)).bind h)

theorem known_unlessNone_iff {outer : Option TypeId} (hw : T.Shows w v m) :
    Known (onStore (unlessNone w)) T outer ↔
      outer = if m.kind = .noType .none then none else some w := by
  rw [known_unlessNone]
  constructor
  · rintro ⟨v', m', hw', rfl⟩
    cases hw.symm.trans hw'
    rfl
  · exact fun h => ⟨v, m, hw, h⟩

theorem known_rawIn_congr (hd : T.store.peekElement d = some (e, z))
    (houter : ∀ outer, Known (onStore (unlessNone w)) T outer ↔ Known (onStore (unlessNone w')) T outer) :
    Known (rawIn w d) T r ↔ Known (rawIn w' e) T r := by
  have he := Store.peekElement_self hd
  rw [known_rawIn, known_rawIn]
  constructor
  · rintro ⟨outer, e', z', h, hd', hr⟩
    cases hd.symm.trans hd'
    exact ⟨outer, e, z, (houter outer).1 h, he, hr⟩
  · rintro ⟨outer, e', z', h, he', hr⟩
    cases he.symm.trans he'
    exact ⟨outer, e, z, (houter outer).2 h, hd, hr⟩

/-- A raw type is marked as erased. -/
theorem erased_of_known_rawIn (hT : T.DerivesShapes) (h : Known (rawIn w d) T r) :
    ∃ y, T.Shows r r y ∧ y.kind = .declared ∧ y.erased = true := by
  obtain ⟨outer, e, x, -, -, h⟩ := known_rawIn.1 h
  exact ⟨_, hT _ r (lookup_of_derive h) (by rintro ⟨⟩), rfl, rfl⟩

/-! ### What a type is erased to -/

/-- The session knows what the type is erased to. -/
def Erases (T : Session) (t r : TypeId) : Prop :=
  ∃ fuel, Known (erase fuel t) T r

theorem Erases.unique (h : T.Erases t r) (h' : T.Erases t r') : r = r' := by
  obtain ⟨fuel, h⟩ := h
  obtain ⟨fuel', h'⟩ := h'
  have h : Known (erase (max fuel fuel') t) T r := h.grow le_rfl
  exact h.unique (h'.grow le_rfl)

/-- What is known when a declared type has been erased: what the type around it became, whether there was
something to erase in it, and the answer that follows. -/
theorem cases_of_known_eraseDeclared (hfree : n.erased = false) (hd : n.element = some d)
    (h : Known (eraseDeclared (erase fuel) u n) T r) : ∃ w m w' plain,
      T.Shows n.enclosingOrNone w m ∧
        Known (if m.kind = .declared then erase fuel w else pure w) T w' ∧
          Known (plainTest n d) T plain ∧
            Known (if plain = true ∧ w' = w then pure u else rawIn w' d) T r := by
  unfold eraseDeclared at h
  rw [if_neg (by rw [hfree]; decide), hd] at h
  obtain ⟨⟨w, m⟩, hw, h⟩ := known_bind.1 h
  obtain ⟨w', hw', h⟩ := (known_ite_bind inferInstance).1 h
  obtain ⟨plain, hplain, h⟩ := known_bind.1 h
  exact ⟨w, m, w', plain, shows_of_known hw, hw', hplain, h⟩

/-- The type around a declared type and what it is erased to. A type of another kind stays. -/
def ErasesAround (T : Session) (n : TypeNode) (w w' : TypeId) : Prop :=
  ∃ m, T.store.peekType n.enclosingOrNone = some (w, m) ∧
    if m.kind = .declared then T.Erases w w' else w' = w

section Node

variable (ht : T.Shows t u n)

include ht

theorem erases_node_iff : T.Erases u r ↔ T.Erases t r := by
  constructor
  · rintro ⟨_ | fuel, h⟩
    · cases h
    · exact ⟨fuel + 1, ht.known.bind (ht.self.known.of_bind h)⟩
  · rintro ⟨_ | fuel, h⟩
    · cases h
    · exact ⟨fuel + 1, ht.self.known.bind (ht.known.of_bind h)⟩

theorem erases_stays_iff (hn : n.kind = .error ∨ n.kind = .noType .none) :
    T.Erases t r ↔ r = u := by
  have hview : Known (onStore (viewType t)) T (u, n) := ht.known
  have hstays : ∀ fuel, Known (erase (fuel + 1) t) T u := by
    intro fuel
    refine hview.bind ?_
    dsimp only
    rcases hn with hn | hn
    · obtain ⟨d, hd⟩ := TypeNode.shape_of_error hn
      rw [hd]
      rfl
    · rw [TypeNode.shape_of_noType hn]
      rfl
  constructor
  · exact fun h => h.unique ⟨1, hstays 0⟩
  · rintro rfl
    exact ⟨1, hstays 0⟩

variable (hn : n.kind = .declared)

include hn

theorem erases_declared_iff :
    T.Erases t r ↔ ∃ fuel, Known (eraseDeclared (erase fuel) u n) T r := by
  have hview : Known (onStore (viewType t)) T (u, n) := ht.known
  obtain ⟨d, hd⟩ := TypeNode.shape_of_declared hn
  constructor
  · rintro ⟨_ | fuel, h⟩
    · cases h
    · have h := hview.of_bind h
      dsimp only at h
      rw [hd] at h
      exact ⟨fuel, h⟩
  · rintro ⟨fuel, h⟩
    refine ⟨fuel + 1, hview.bind ?_⟩
    dsimp only
    rw [hd]
    exact h

theorem erases_erased_iff (h : n.erased = true ∨ n.element = none) : T.Erases t r ↔ r = u := by
  have hstays : ∀ fuel, Known (eraseDeclared (erase fuel) u n) T u := by
    intro fuel
    unfold eraseDeclared
    split
    · rfl
    · next hnot =>
      rw [h.resolve_left hnot]
      rfl
  rw [erases_declared_iff ht hn]
  constructor
  · rintro ⟨fuel, h⟩
    exact h.unique (hstays fuel)
  · rintro rfl
    exact ⟨0, hstays 0⟩

/-- A declared type stays if there is nothing to erase in it and around it, and becomes raw
otherwise. -/
theorem erases_element_iff (hfree : n.erased = false) (hd : n.element = some d) :
    T.Erases t r ↔ ∃ w w' plain, T.ErasesAround n w w' ∧ Known (plainTest n d) T plain ∧
      Known (if plain = true ∧ w' = w then pure u else rawIn w' d) T r := by
  rw [erases_declared_iff ht hn]
  constructor
  · rintro ⟨fuel, h⟩
    obtain ⟨w, m, w', plain, hw, hw', hplain, h⟩ := cases_of_known_eraseDeclared hfree hd h
    refine ⟨w, w', plain, ⟨m, hw, ?_⟩, hplain, h⟩
    split at hw'
    · next hm => rw [if_pos hm]; exact ⟨fuel, hw'⟩
    · next hm => rw [if_neg hm]; exact known_pure.1 hw'
  · rintro ⟨w, w', plain, ⟨m, hw, hw'⟩, hplain, h⟩
    have hview : Known (onStore (viewType n.enclosingOrNone)) T (w, m) :=
      known_onStore.2 (known_viewType.2 hw)
    have haround : ∃ fuel, Known (if m.kind = .declared then erase fuel w else pure w) T w' := by
      split at hw'
      · next hm =>
        obtain ⟨fuel, hw'⟩ := hw'
        exact ⟨fuel, by rw [if_pos hm]; exact hw'⟩
      · next hm => exact ⟨0, by rw [if_neg hm, hw']; rfl⟩
    obtain ⟨fuel, haround⟩ := haround
    refine ⟨fuel, ?_⟩
    unfold eraseDeclared
    rw [if_neg (by rw [hfree]; decide), hd]
    exact hview.bind ((known_ite_bind inferInstance).2 ⟨w', haround, hplain.bind h⟩)

end Node

/-- Erasing again changes nothing. -/
theorem Erases.idem (hT : T.DerivesShapes) (ht : T.Shows t u n)
    (hn : n.kind.isDeclaredOrNone = true) (h : T.Erases t r) : T.Erases r r := by
  have hstays : r = u → T.Erases r r := by
    rintro rfl
    exact (erases_node_iff ht).2 h
  rcases TypeKind.isDeclaredOrNone_iff.1 hn with hn | hn
  · by_cases hfree : n.erased = true ∨ n.element = none
    · exact hstays ((erases_erased_iff ht hn hfree).1 h)
    obtain ⟨herased, helement⟩ := not_or.1 hfree
    obtain ⟨d, hd⟩ := Option.ne_none_iff_exists'.1 helement
    obtain ⟨w, w', plain, -, -, h⟩ :=
      (erases_element_iff ht hn (Bool.eq_false_iff.2 herased) hd).1 h
    split at h
    · exact hstays (known_pure.1 h)
    · obtain ⟨y, hy, hk, he⟩ := erased_of_known_rawIn hT h
      exact (erases_erased_iff hy hk (.inl he)).2 rfl
  · exact hstays ((erases_stays_iff ht hn).1 h)

/-! ### Substitutions and erasure -/

/-- The second type is the one that is directly around the first. -/
def EnclosedBy (T : Session) (t w : TypeId) : Prop :=
  ∃ u n m, T.store.peekType t = some (u, n) ∧ T.store.peekType n.enclosingOrNone = some (w, m)

/-- A property of the nodes of a type and of the types around it. -/
def EachAround (T : Session) (P : TypeId → TypeNode → Prop) (t : TypeId) : Prop :=
  ∀ w v m, Relation.ReflTransGen T.EnclosedBy t w → T.store.peekType w = some (v, m) → P w m

theorem EachAround.enclosing {P : TypeId → TypeNode → Prop} (h : T.EachAround P t)
    (ht : T.Shows t u n)
    (hw : T.Shows n.enclosingOrNone w m) : T.EachAround P w :=
  fun x v y hx => h x v y (.head ⟨u, n, m, ht, hw⟩ hx)

/-- Neither the type nor a type around it has arguments. -/
def Bare (T : Session) : TypeId → Prop :=
  T.EachAround fun _ m => m.arguments = []

/-- The type and the types around it are bare if they are marked as erased. -/
def ErasedBare (T : Session) : TypeId → Prop :=
  T.EachAround fun w m => m.erased = true → T.Bare w

theorem eq_none_of_known_changeList_nil (h : Known (changeList change []) T q) : q = none :=
  known_pure.1 h

/-- A list that is changed is as long as before. -/
theorem isEmpty_of_known_changeList {ts : List TypeId} [hc : ∀ t, Settles (change t) (change t)]
    (h : Known (changeList change ts) T q) : (q.getD ts).isEmpty = ts.isEmpty := by
  obtain ⟨⟨ts', changed⟩, hts, rfl⟩ := known_map.1 h
  have hlength := (forall₂_of_known_changeEach hts).1.length_eq
  cases changed with
  | false => rfl
  | true =>
    rw [if_pos rfl, Option.getD_some, Bool.eq_iff_iff, List.isEmpty_iff_length_eq_zero,
      List.isEmpty_iff_length_eq_zero, hlength]

/-- A substitution changes a declared type, in its arguments or around it, and leaves its element and
its mark. -/
theorem cases_of_known_substitute (hT : T.DerivesShapes) (ht : T.Shows t u n)
    (hn : n.kind = .declared) (h : Known (substitute σ (fuel + 1) t) T k) :
    k = u ∨ ∃ d e x w m w' q outer, n.element = some d ∧ T.store.peekElement d = some (e, x) ∧
      T.Shows n.enclosingOrNone w m ∧
        Known (if m.kind = .declared then substitute σ fuel w else pure w) T w' ∧
          Known (changeList (substitute σ fuel) n.arguments) T q ∧ ¬ (w' = w ∧ q = none) ∧
            Known (onStore (unlessNone w')) T outer ∧ T.store.peekType k = some (k,
              { shape := .declared
                  { element := some e, enclosing := outer, arguments := q.getD n.arguments,
                    erased := if n.erased then some true else none } }) := by
  obtain ⟨d, hd⟩ := TypeNode.shape_of_declared hn
  have h := ht.known.of_bind h
  dsimp only at h
  split at h
  case isFalse => exact .inl (known_pure.1 h)
  rw [hd] at h
  cases helement : n.element with
  | none => exact .inl (eq_of_known_substituteDeclared helement h)
  | some d =>
    unfold substituteDeclared at h
    rw [helement] at h
    obtain ⟨⟨w, m⟩, hw, h⟩ := known_bind.1 h
    obtain ⟨w', hw', h⟩ := (known_ite_bind inferInstance).1 h
    obtain ⟨q, hq, h⟩ := known_bind.1 h
    split at h
    · exact .inl (known_pure.1 h)
    next hchanged =>
    obtain ⟨outer, houter, h⟩ := known_bind.1 h
    obtain ⟨e, he, h⟩ := known_bind.1 h
    obtain ⟨x, hx⟩ := known_resolveElement.1 (known_onStore.1 he)
    exact .inr ⟨d, e, x, w, m, w', q, outer, rfl, hx, shows_of_known hw, hw', hq,
      hchanged, houter, hT _ k (lookup_of_derive h) (by rintro ⟨⟩)⟩

/-- There is nothing to replace in a type without arguments. -/
theorem Bare.eq_of_known_substitute (hT : T.DerivesShapes) : ∀ {fuel : Nat} {t u k : TypeId}
    {n : TypeNode}, T.Bare t → T.Shows t u n → n.kind = .declared →
      Known (substitute σ fuel t) T k → k = u
  | 0, _, _, _, _, _, _, _, h => by cases h
  | fuel + 1, t, u, k, n, hbare, ht, hn, h => by
      have hnil : n.arguments = [] := hbare t u n .refl ht
      rcases cases_of_known_substitute hT ht hn h with
        rfl | ⟨d, e, x, w, m, w', q, outer, -, -, hw, hw', hq, hchanged, -⟩
      · rfl
      rw [hnil] at hq
      refine absurd ⟨?_, eq_none_of_known_changeList_nil hq⟩ hchanged
      split at hw'
      · next hm =>
        exact Bare.eq_of_known_substitute hT (hbare.enclosing ht hw) hw.self hm hw'
      · exact known_pure.1 hw'

theorem known_plainTest (hd : T.store.peekElement d = some (e, z)) {plain : Bool} :
    Known (plainTest n d) T plain ↔ plain = (n.arguments.isEmpty && z.typeParameters.isEmpty) := by
  have hparams : Known (onStore (typeParameters d)) T z.typeParameters :=
    known_onStore.2 ((known_elementNode.2 ⟨e, hd⟩).bind rfl)
  have hknown : Known (plainTest n d) T (n.arguments.isEmpty && z.typeParameters.isEmpty) := by
    unfold plainTest
    cases n.arguments.isEmpty with
    | true => exact hparams.bind rfl
    | false => rfl
  constructor
  · exact fun h => h.unique hknown
  · rintro rfl
    exact hknown

/-- A declared type becomes the raw type of its element, in what the type around it is erased to. -/
def BecomesRaw (T : Session) (n : TypeNode) (d : ElementId) (r : TypeId) : Prop :=
  ∃ w w' plain, T.ErasesAround n w w' ∧ Known (plainTest n d) T plain ∧ Known (rawIn w' d) T r

/-- A declared type becomes raw if it has arguments, or else if the type around it changes. -/
theorem erases_iff_becomesRaw (ht : T.Shows t u n) (hn : n.kind = .declared)
    (hfree : n.erased = false) (hd : n.element = some d)
    (hmoves : n.arguments = [] → ∀ w w', T.ErasesAround n w w' → w' ≠ w) :
    T.Erases t r ↔ T.BecomesRaw n d r := by
  rw [erases_element_iff ht hn hfree hd]
  refine exists_congr fun w => exists_congr fun w' => exists_congr fun plain =>
    and_congr_right fun haround => and_congr_right fun hplain => ?_
  rw [if_neg]
  rintro ⟨rfl, hsame⟩
  have hempty := (known_both_true.1 hplain).1
  exact hmoves (List.isEmpty_iff.1 (known_pure.1 hempty).symm) w w' haround hsame

theorem BecomesRaw.not_self (hT : T.DerivesShapes) (ht : T.Shows t u n)
    (hfree : n.erased = false) : ¬ T.BecomesRaw n d u := by
  rintro ⟨w, w', plain, -, -, h⟩
  obtain ⟨y, hy, -, herased⟩ := erased_of_known_rawIn hT h
  cases ht.self.symm.trans hy
  rw [hfree] at herased
  cases herased

/-- What a type has become is declared like it and is erased to the same type. If it has become another
type, then neither of the two is its own erasure. -/
structure ErasesAlike (T : Session) (t u k : TypeId) : Prop where
  declared : ∃ m, T.store.peekType k = some (k, m) ∧ m.kind = .declared
  erases : ∀ r, T.Erases k r ↔ T.Erases t r
  moves : k ≠ u → ¬ T.Erases k k ∧ ¬ T.Erases t u

theorem erasesAlike_self (ht : T.Shows t u n) (hn : n.kind = .declared) : T.ErasesAlike t u u where
  declared := ⟨n, ht.self, hn⟩
  erases _ := erases_node_iff ht
  moves h := absurd rfl h

/-- The node of a declared type that a substitution has changed. -/
def changedNode (e : ElementId) (outer : Option TypeId) (arguments : List TypeId) : TypeNode :=
  { shape := .declared { element := some e, enclosing := outer, arguments := arguments } }

section Change

variable {z : ElementNode} {outer : Option TypeId} {arguments : List TypeId}
  (hd : T.store.peekElement d = some (e, z))
  (hw : T.Shows n.enclosingOrNone w m)

include hd hw

theorem becomesRaw_iff : T.BecomesRaw n d r ↔
    ∃ w', (if m.kind = .declared then T.Erases w w' else w' = w) ∧ Known (rawIn w' d) T r := by
  constructor
  · rintro ⟨v, w', plain, ⟨m', hv, hw'⟩, -, hr⟩
    cases hw.symm.trans hv
    exact ⟨w', hw', hr⟩
  · rintro ⟨w', hw', hr⟩
    exact ⟨w, w', _, ⟨m, hw, hw'⟩, (known_plainTest hd).2 rfl, hr⟩

theorem becomesRaw_iff_of_declared (hm : m.kind = .declared) :
    T.BecomesRaw n d r ↔ ∃ w', T.Erases w w' ∧ Known (rawIn w' d) T r := by
  rw [becomesRaw_iff hd hw]
  simp only [if_pos hm]

theorem becomesRaw_iff_of_other (hm : m.kind ≠ .declared) :
    T.BecomesRaw n d r ↔ Known (rawIn w d) T r := by
  rw [becomesRaw_iff hd hw]
  simp only [if_neg hm, exists_eq_left]

/-- The type around a type can change and is erased to the same type as before. -/
theorem becomesRaw_changed_of_declared (hm : m.kind = .declared) (h : T.ErasesAlike w w w')
    (houter : Known (onStore (unlessNone w')) T outer) :
    T.BecomesRaw (changedNode e outer arguments) e r ↔ T.BecomesRaw n d r := by
  obtain ⟨y, hy, hk⟩ := h.declared
  obtain ⟨v, y', hy', rfl⟩ := known_unlessNone.1 houter
  cases hy.symm.trans hy'
  rw [if_neg (by rw [hk]; decide)]
  have henclosing : T.store.peekType (changedNode e (some w') arguments).enclosingOrNone =
      some (w', y) := hy
  rw [becomesRaw_iff_of_declared hd hw hm,
    becomesRaw_iff_of_declared (Store.peekElement_self hd) henclosing hk]
  refine exists_congr fun v => and_congr (h.erases v) ?_
  exact (known_rawIn_congr hd fun _ => .rfl).symm

/-- The type around a type does not change. It is left out if it is the absent type. -/
theorem becomesRaw_changed_of_other
    (habsent : ∃ n, T.Shows TypeId.none TypeId.none n ∧ n.kind = .noType .none)
    (hm : m.kind ≠ .declared) (houter : Known (onStore (unlessNone w)) T outer) :
    T.BecomesRaw (changedNode e outer arguments) e r ↔ T.BecomesRaw n d r := by
  have hself := Store.peekElement_self hd
  have hw' := hw.self
  obtain ⟨v, y, hy, rfl⟩ := known_unlessNone.1 houter
  cases hw'.symm.trans hy
  rw [becomesRaw_iff_of_other hd hw hm]
  by_cases hnone : m.kind = .noType .none
  · obtain ⟨y, hy, hk⟩ := habsent
    have henclosing : T.store.peekType (changedNode e none arguments).enclosingOrNone =
        some (TypeId.none, y) := hy
    rw [if_pos hnone, becomesRaw_iff_of_other hself henclosing (by rw [hk]; decide)]
    refine (known_rawIn_congr hd fun outer => ?_).symm
    rw [known_unlessNone_iff hw', known_unlessNone_iff hy, if_pos hnone, if_pos hk]
  · have henclosing : T.store.peekType (changedNode e (some w) arguments).enclosingOrNone =
        some (w, m) := hw'
    rw [if_neg hnone, becomesRaw_iff_of_other hself henclosing hm]
    exact (known_rawIn_congr hd fun _ => Iff.rfl).symm

end Change

theorem ErasesAround.ne_of_not_erases (h : T.ErasesAround n v x)
    (hw : T.Shows n.enclosingOrNone w m) (hm : m.kind = .declared)
    (hnot : ¬ T.Erases w w) : x ≠ v := by
  obtain ⟨m', hv, hx⟩ := h
  cases hw.symm.trans hv
  rw [if_pos hm] at hx
  rintro rfl
  exact hnot hx

section Substitution

variable (hT : T.DerivesShapes)
  (habsent : ∃ n, T.Shows TypeId.none TypeId.none n ∧ n.kind = .noType .none)

include hT habsent

/-- A type that changes in its arguments or around it becomes raw when it is erased, before the change
and after it. -/
theorem erasesAlike_of_changed {outer : Option TypeId} {arguments : List TypeId}
    (ht : T.Shows t u n) (hn : n.kind = .declared) (hfree : n.erased = false)
    (hd : n.element = some d) (he : T.store.peekElement d = some (e, z))
    (hw : T.Shows n.enclosingOrNone w m)
    (haround : m.kind = .declared → T.ErasesAlike w w w') (hother : m.kind ≠ .declared → w' = w)
    (harguments : arguments.isEmpty = n.arguments.isEmpty) (hchanged : n.arguments = [] → w' ≠ w)
    (houter : Known (onStore (unlessNone w')) T outer)
    (hk : T.store.peekType k = some (k, changedNode e outer arguments)) : T.ErasesAlike t u k := by
  have hraw : ∀ r, T.BecomesRaw (changedNode e outer arguments) e r ↔ T.BecomesRaw n d r := by
    intro r
    by_cases hm : m.kind = .declared
    · exact becomesRaw_changed_of_declared he hw hm (haround hm) houter
    · rw [hother hm] at houter
      exact becomesRaw_changed_of_other he hw habsent hm houter
  have hbefore : ∀ r, T.Erases t r ↔ T.BecomesRaw n d r := by
    refine fun r => erases_iff_becomesRaw ht hn hfree hd fun hnil v v' hv => ?_
    have hne := hchanged hnil
    have hm : m.kind = .declared := not_not.1 fun hm => hne (hother hm)
    exact hv.ne_of_not_erases hw hm ((haround hm).moves hne).2
  have hafter : ∀ r, T.Erases k r ↔ T.BecomesRaw (changedNode e outer arguments) e r := by
    refine fun r => erases_iff_becomesRaw hk rfl rfl rfl fun hnil v v' hv => ?_
    have hne := hchanged (List.isEmpty_iff.1 (harguments.symm.trans (List.isEmpty_iff.2 hnil)))
    have hm : m.kind = .declared := not_not.1 fun hm => hne (hother hm)
    obtain ⟨y, hy, hkind⟩ := (haround hm).declared
    rw [known_unlessNone_iff hy, if_neg (by rw [hkind]; decide)] at houter
    subst houter
    exact hv.ne_of_not_erases hy hkind ((haround hm).moves hne).1
  refine ⟨⟨_, hk, rfl⟩, fun r => ?_, fun _ => ⟨fun h => ?_, fun h => ?_⟩⟩
  · rw [hafter, hraw, hbefore]
  · exact BecomesRaw.not_self hT hk rfl ((hafter k).1 h)
  · exact BecomesRaw.not_self hT ht hfree ((hbefore u).1 h)

/-- What a substitution changes, erasure takes away. The induction follows the types around the type. -/
theorem erasesAlike_of_known_substitute : ∀ {fuel : Nat} {t u k : TypeId} {n : TypeNode},
    T.ErasedBare t → T.Shows t u n → n.kind = .declared →
      Known (substitute σ fuel t) T k → T.ErasesAlike t u k
  | 0, _, _, _, _, _, _, _, h => by cases h
  | fuel + 1, t, u, k, n, hbare, ht, hn, h => by
      by_cases herased : n.erased = true
      · obtain rfl := Bare.eq_of_known_substitute hT (hbare t u n .refl ht herased) ht hn h
        exact erasesAlike_self ht hn
      rcases cases_of_known_substitute hT ht hn h with
        rfl | ⟨d, e, z, w, m, w', q, outer, hd, he, hw, hw', hq, hchanged, houter, hk⟩
      · exact erasesAlike_self ht hn
      rw [if_neg herased] at hk
      refine erasesAlike_of_changed hT habsent ht hn (Bool.eq_false_iff.2 herased) hd he hw
        (fun hm => ?_) (fun hm => ?_)
        (isEmpty_of_known_changeList hq) (fun hnil => ?_) houter hk
      · rw [if_pos hm] at hw'
        exact erasesAlike_of_known_substitute (hbare.enclosing ht hw) hw.self hm hw'
      · rw [if_neg hm] at hw'
        exact known_pure.1 hw'
      · rw [hnil] at hq
        exact fun hsame => hchanged ⟨hsame, eq_none_of_known_changeList_nil hq⟩

/-- A type that is seen from an instance is erased to what the named type is erased to. -/
theorem Sees.erases_iff (hbare : T.ErasedBare k) (h : T.Sees t a k x)
    (hkind : ∀ v m, T.Shows k v m → m.kind.isDeclaredOrNone = true) :
    T.Erases x r ↔ T.Erases k r := by
  rcases h.cases with ⟨fuel, herase⟩ | ⟨σ, fuel, hsubstitute⟩ | rfl
  · obtain ⟨-, v, m, -, hk, -⟩ := node_of_known_erase herase
    have hx : T.Erases k x := ⟨fuel, herase⟩
    have hidem := hx.idem hT hk (hkind v m hk)
    exact ⟨fun hr => hidem.unique hr ▸ hx, fun hr => hx.unique hr ▸ hidem⟩
  · obtain ⟨-, v, m, -, hk, -⟩ := node_of_known_substitute hsubstitute
    rcases TypeKind.isDeclaredOrNone_iff.1 (hkind v m hk) with hm | hm
    · exact (erasesAlike_of_known_substitute hT habsent hbare hk hm hsubstitute).erases r
    · rcases h.eq_of_stays hk hm with rfl | rfl
      · exact erases_node_iff hk
      · exact .rfl
  · exact .rfl

end Substitution

end Session

end JavaTypes
