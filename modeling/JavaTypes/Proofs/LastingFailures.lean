import JavaTypes.Proofs.StickyCompletions

/-!
# Failures that last

A slot that failed stays failed, so a question that failed for its sake has no answer later either. Two
kinds of failure can pass: a handle that nothing denotes may be that of a node that is made later, and
more fuel may be given.

* `Fault.IsPassing`: the faults of these two kinds;
* `Action.Foresees x y`: if `y` is known to have an answer later, then `x` gives that answer, unless it
  fails in passing. It is stated for stores in which no supplier is running, since a supplier that is
  running may still succeed;
* `Equality.foresees_typesAssuming`, `Equality.foresees_elementsAssuming`: the comparisons, with any two
  amounts of fuel.
-/

namespace JavaTypes

open Action

/-- A fault that need not be there when the question is asked again. -/
def Fault.IsPassing (f : Fault) : Prop :=
  f = .exhausted ∨ (∃ t, f = .unknownType t) ∨ ∃ e, f = .unknownElement e

theorem Store.extends_of_le {s t : Store} (h : s ≤ t) : s.Extends t :=
  ⟨.of_kept .refl h.types h.size_types, .of_kept .refl h.elements h.size_elements⟩

namespace Action

variable {α β : Type} {x y x' y' : Build α}

/-- The answer that `y` has later is the one that `x` gives, or `x` fails in passing. -/
structure Foresees (x y : Build α) : Prop where
  settles : Settles x x
  settles_later : Settles y y
  foresees : ∀ {s s' t : Store} {r : Except Fault α} {a : α}, s.Idle → x s = (r, s') → s' ≤ t →
    Known y t a → r = .ok a ∨ ∃ f, r = .error f ∧ f.IsPassing

/-- For a question that is asked again only failures matter. -/
theorem foresees_of_failure [hx : Settles x x]
    (h : ∀ {s s' t : Store} {f : Fault} {a : α}, s.Idle → x s = (.error f, s') → s' ≤ t →
      Known x t a → f.IsPassing) : Foresees x x where
  settles := hx
  settles_later := hx
  foresees := by
    intro s s' t r a hs hr ht ha
    cases r with
    | ok b => exact .inl (congrArg Except.ok ((known_of_ok hr ht).unique ha))
    | error f => exact .inr ⟨f, rfl, h hs hr ht ha⟩

theorem foresees_pure (a : α) : Foresees (pure a : Build α) (pure a) :=
  foresees_of_failure fun _ h => by cases h

theorem foresees_throw {f : Fault} (hf : f.IsPassing) [hy : Settles y y] :
    Foresees (throw f) y where
  settles := settles_throw f _
  settles_later := hy
  foresees _ h _ _ := by
    cases h
    exact .inr ⟨f, rfl, hf⟩

theorem foresees_ite {c : Prop} [Decidable c] (hx : Foresees x x')
    (hy : Foresees y y') : Foresees (if c then x else y) (if c then x' else y') := by
  split
  · exact hx
  · exact hy

theorem Foresees.bind {f g : α → Build β} (hx : Foresees x y)
    (hf : ∀ a, Foresees (f a) (g a)) : Foresees (x >>= f) (y >>= g) where
  settles :=
    have := hx.settles
    settles_bind_of fun a => (hf a).settles
  settles_later :=
    have := hx.settles_later
    settles_bind_of fun a => (hf a).settles_later
  foresees := by
    intro s s' t r b hs hr ht hb
    have := hx.settles_later
    have := fun a => (hf a).settles_later
    obtain ⟨a, ha, hb⟩ := known_bind.1 hb
    cases hfirst : x s with
    | mk r₁ s₁ =>
      have hidle := (completion_of_leads (hx.settles.leads_of_eq hfirst)).idle hs
      cases r₁ with
      | ok c =>
        rw [bind_of_ok hfirst] at hr
        have hle := ((hf c).settles.leads_of_eq hr).le
        -- the first answer is the one that is known later
        rcases hx.foresees hs hfirst (le_trans hle ht) ha with heq | ⟨e, he, -⟩
        · cases heq
          exact (hf a).foresees hidle hr ht hb
        · cases he
      | error e =>
        rw [bind_of_error hfirst] at hr
        cases hr
        rcases hx.foresees hs hfirst ht ha with heq | ⟨e', he, hpassing⟩
        · cases heq
        · cases he
          exact .inr ⟨e, rfl, hpassing⟩

theorem Foresees.map (hx : Foresees x y) (f : α → β) :
    Foresees (x >>= fun a => pure (f a)) (y >>= fun a => pure (f a)) :=
  hx.bind fun a => foresees_pure (f a)

/-! ### Tests -/

theorem Foresees.both {x y x' y' : Build Bool} (hx : Foresees x x') (hy : Foresees y y') :
    Foresees (Action.both x y) (Action.both x' y') :=
  hx.bind fun _ => foresees_ite hy (foresees_pure false)

variable {r r' : α → β → Build Bool} (hr : ∀ a b, Foresees (r a b) (r' a b))

include hr

theorem foresees_allPairs (as : List α) :
    ∀ bs, Foresees (allPairs r as bs) (allPairs r' as bs) := by
  induction as with
  | nil => rintro (_ | _) <;> exact foresees_pure _
  | cons a as ih =>
    rintro (_ | ⟨b, bs⟩)
    · exact foresees_pure false
    · exact (hr a b).bind fun _ => foresees_ite (ih bs) (foresees_pure false)

theorem foresees_sameLists (as : List α) (bs : List β) :
    Foresees (sameLists r as bs) (sameLists r' as bs) :=
  foresees_ite (foresees_allPairs hr as bs) (foresees_pure false)

theorem foresees_sameOptions : ∀ a b, Foresees (sameOptions r a b) (sameOptions r' a b) := by
  rintro (_ | a) (_ | b)
  case some.some => exact hr a b
  all_goals exact foresees_pure _

end Action

/-! ### Completions -/

theorem foresees_viewType (k : TypeId) : Foresees (viewType k) (viewType k) := by
  refine foresees_of_failure fun {s s' t f a} hs hf ht ha => ?_
  by_contra hnot
  have hfirst : (resolveType k s).1 = .error f := by
    rw [resolveType_apply, hf]
    rfl
  have hagain : resolveType k t = ((resolveType k s).1, t) := by
    refine resolveType_later hs (fun l heq => hnot (.inr (.inl ⟨l, ?_⟩))) (Store.extends_of_le ?_)
    · rw [hfirst] at heq
      cases heq
      rfl
    · rwa [hf]
  have hok : resolveType k t = (.ok a.1, t) := known_map.2 ⟨a, ha, rfl⟩
  rw [hfirst, hok] at hagain
  cases hagain

theorem foresees_viewElement (k : ElementId) : Foresees (viewElement k) (viewElement k) := by
  refine foresees_of_failure fun {s s' t f a} hs hf ht ha => ?_
  by_contra hnot
  have hfirst : (resolveElement k s).1 = .error f := by
    rw [resolveElement_apply, hf]
    rfl
  have hagain : resolveElement k t = ((resolveElement k s).1, t) := by
    refine resolveElement_later hs (fun l heq => hnot (.inr (.inr ⟨l, ?_⟩)))
      (Store.extends_of_le ?_)
    · rw [hfirst] at heq
      cases heq
      rfl
    · rwa [hf]
  have hok : resolveElement k t = (.ok a.1, t) := known_map.2 ⟨a, ha, rfl⟩
  rw [hfirst, hok] at hagain
  cases hagain

/-! ### Comparisons -/

namespace Equality

theorem foresees_signature (n : ElementNode) : Foresees (signature n) (signature n) := by
  unfold signature
  split
  · exact (((foresees_viewType _).map _).map _).map _
  · exact foresees_pure none

section Parts

variable {types types' : TypeId → TypeId → Build Bool}
  {elements elements' : ElementId → ElementId → Build Bool}
  (ht : ∀ a b, Foresees (types a b) (types' a b))
  (he : ∀ a b, Foresees (elements a b) (elements' a b)) (q : Equality)

include ht

theorem foresees_annotations (as bs : List AnnotationUse) :
    Foresees (if q.includeAnnotations then sameAnnotations types as bs else pure true)
      (if q.includeAnnotations then sameAnnotations types' as bs else pure true) :=
  foresees_ite (foresees_sameLists
    (fun (a b : AnnotationUse) => (ht a.type b.type).both (foresees_pure _)) as bs) (foresees_pure true)

include he

theorem foresees_typeContents (m n : TypeNode) :
    Foresees (q.typeContents types elements m n) (q.typeContents types' elements' m n) := by
  refine (foresees_annotations ht q _ _).both ?_
  rw [sameTypeParts_eq, sameTypeParts_eq]
  exact foresees_ite ((foresees_allPairs (foresees_sameOptions he) _ _).both
      (foresees_allPairs (foresees_sameLists ht) _ _))
    (foresees_pure false)

theorem foresees_elementContents (m n : ElementNode) :
    Foresees (q.elementContents types elements m n) (q.elementContents types' elements' m n) := by
  refine (foresees_annotations ht q _ _).both ?_
  unfold sameElementParts
  cases m.kind with
  | package => exact foresees_pure true
  | module => exact foresees_pure true
  | executable k =>
    exact (foresees_sameOptions he _ _).both ((foresees_signature m).bind fun as =>
      (foresees_signature n).bind fun bs => foresees_sameOptions (foresees_sameLists ht) as bs)
  | _ => exact foresees_sameOptions he _ _

end Parts

variable (q : Equality)

mutual

/-- Types that are compared with success later are not found different, and the comparison fails in
passing only. -/
theorem foresees_typesAssuming : ∀ (f g : Nat) (assumed : List (ElementId × ElementId)) (a b : TypeId),
    Foresees (q.typesAssuming f assumed a b) (q.typesAssuming g assumed a b)
  | 0, g, assumed, a, b => by
      rw [typesAssuming]
      exact foresees_throw (.inl rfl)
  | f + 1, 0, assumed, a, b => by
      refine ⟨settles_typesAssuming q assumed a b, settles_typesAssuming q assumed a b,
        fun _ _ _ h => ?_⟩
      rw [typesAssuming] at h
      cases h
  | f + 1, g + 1, assumed, a, b => by
      rw [typesAssuming_succ, typesAssuming_succ]
      refine (foresees_viewType a).bind fun x => (foresees_viewType b).bind fun y => ?_
      exact foresees_ite (foresees_pure true) (foresees_ite (foresees_pure false)
        (foresees_typeContents (foresees_typesAssuming f g assumed)
          (foresees_elementsAssuming f g assumed) q x.2 y.2))

theorem foresees_elementsAssuming : ∀ (f g : Nat) (assumed : List (ElementId × ElementId))
    (a b : ElementId),
    Foresees (q.elementsAssuming f assumed a b) (q.elementsAssuming g assumed a b)
  | 0, g, assumed, a, b => by
      rw [elementsAssuming]
      exact foresees_throw (.inl rfl)
  | f + 1, 0, assumed, a, b => by
      refine ⟨settles_elementsAssuming q assumed a b,
        settles_elementsAssuming q assumed a b, fun _ _ _ h => ?_⟩
      rw [elementsAssuming] at h
      cases h
  | f + 1, g + 1, assumed, a, b => by
      rw [elementsAssuming_succ, elementsAssuming_succ]
      refine (foresees_viewElement a).bind fun x => (foresees_viewElement b).bind fun y => ?_
      exact foresees_ite (foresees_pure true) (foresees_ite (foresees_pure false)
        (foresees_ite (foresees_pure true) (foresees_elementContents (foresees_typesAssuming f g _)
            (foresees_elementsAssuming f g _) q x.2 y.2)))

end

end Equality

end JavaTypes
