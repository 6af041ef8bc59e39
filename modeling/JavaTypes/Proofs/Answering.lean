import JavaTypes.Proofs.SupertypesSettle

/-!
# Questions that are always answered

`Yields S x Q` is a triple for total correctness: in every session that comes after `S`, the question
`x` has an answer, and what `Q` says of the answer holds from then on. Nothing is said of which handles
are completed already, so a statement about a store holds however much of it is still deferred.

* `Yields.bind`, `Yields.both`, `Yields.either`: the rules for sequences and tests;
* `Yields.of_known`: what was answered in the end has the property;
* `yields_of_known`: what is known already is answered without a change;
* `Responds.yields`: it is enough that a question is answered (`Responds`), and that the answers that are
  known have the property.

`Ensures S x Q` is the same for partial correctness, where `x` may fail.
-/

namespace JavaTypes

/-! ### Later sessions -/

namespace Session

/-- The second session comes from the first by the steps of questions, and by what is remembered of
ranks and closures. -/
def Later : Session → Session → Prop :=
  Relation.ReflTransGen fun S T => Evolving.Step S T ∨
    ∃ ranks closures, T = { S with memo := { S.memo with ranks := ranks, closures := closures } }

variable {S T U : Session}

theorem Later.refl (S : Session) : Later S S :=
  Relation.ReflTransGen.refl

protected theorem Later.rfl : Later S S :=
  .refl S

theorem Later.trans (hST : Later S T) (hTU : Later T U) : Later S U :=
  Relation.ReflTransGen.trans hST hTU

theorem Later.of_leads (h : Leads S T) : Later S T :=
  Relation.ReflTransGen.mono (fun _ _ hstep => .inl hstep) _ _ h

theorem later_remember (S : Session) (ranks : List (ElementId × Nat))
    (closures : List (Fingerprint × List ClosureEntry)) :
    Later S { S with memo := { S.memo with ranks := ranks, closures := closures } } :=
  Relation.ReflTransGen.single (.inr ⟨ranks, closures, rfl⟩)

theorem Later.le (h : Later S T) : S ≤ T := by
  induction h with
  | refl => exact le_refl S
  | tail _ hstep ih =>
    refine le_trans ih ?_
    rcases hstep with hstep | ⟨ranks, closures, rfl⟩
    · exact Evolving.le_of_step hstep
    · exact ⟨le_refl _, rfl, rfl, id⟩

end Session

namespace Action

open Session

section Rules

variable {α β : Type} {S T : Session} {x y : Query α} {f : α → Query β} {P Q : Session → α → Prop}
  {a : α} {R : Session → β → Prop}

/-- Asked in any session that comes after `S`, `x` answers, and the answer has a property from then
on. -/
def Yields (S : Session) (x : Query α) (Q : Session → α → Prop) : Prop :=
  ∀ T, Later S T → ∃ a U, x T = (.ok a, U) ∧ Later T U ∧ ∀ V, Later U V → Q V a

theorem Yields.later (h : Yields S x Q) (hT : Later S T) : Yields T x Q :=
  fun U hU => h U (hT.trans hU)

theorem Yields.imp (h : Yields S x P) (hPQ : ∀ T a, Later S T → P T a → Q T a) : Yields S x Q := by
  intro T hT
  obtain ⟨a, U, hx, hU, hP⟩ := h T hT
  exact ⟨a, U, hx, hU, fun V hV => hPQ V a (hT.trans (hU.trans hV)) (hP V hV)⟩

theorem yields_pure (h : ∀ T, Later S T → Q T a) : Yields S (pure a) Q :=
  fun T hT => ⟨a, T, rfl, .refl T, fun V hV => h V (hT.trans hV)⟩

/-- The rest of a sequence starts in a state where the property of the first answer holds. -/
theorem Yields.bind (hx : Yields S x P)
    (hf : ∀ T a, Later S T → (∀ V, Later T V → P V a) → Yields T (f a) R) :
    Yields S (x >>= f) R := by
  intro T hT
  obtain ⟨a, U, hxT, hU, hP⟩ := hx T hT
  obtain ⟨b, V, hfU, hV, hR⟩ := hf U a (hT.trans hU) hP U .rfl
  exact ⟨b, V, (bind_of_ok hxT).trans hfU, hU.trans hV, hR⟩

/-- The rest of a sequence, where the first answer is given. -/
theorem Yields.bind_eq (hx : Yields S x fun _ b => b = a)
    (hf : ∀ T, Later S T → Yields T (f a) R) : Yields S (x >>= f) R :=
  hx.bind fun T _ hT ha => by
    rw [ha T .rfl]
    exact hf T hT

theorem Yields.map (hx : Yields S x P) {g : α → β}
    (h : ∀ T a, Later S T → P T a → R T (g a)) : Yields S (x >>= fun a => pure (g a)) R :=
  hx.bind fun _ a hT hP => yields_pure fun V hV => h V a (hT.trans hV) (hP V hV)

/-- An answer that is known has the property. -/
theorem Yields.of_known (h : Yields S x Q) (hT : Later S T) (ha : Known x T a) : Q T a := by
  obtain ⟨b, U, hx, -, hQ⟩ := h T hT
  cases ha.symm.trans hx
  exact hQ T .rfl

/-- An answer that was given has the property from then on. -/
theorem Yields.of_eq_ok (h : Yields S x Q) (hT : Later S T) {U : Session}
    (hx : x T = (.ok a, U)) : Later T U ∧ ∀ V, Later U V → Q V a := by
  obtain ⟨b, U', hx', hU, hQ⟩ := h T hT
  cases hx.symm.trans hx'
  exact ⟨hU, hQ⟩

/-- The answer of a question that settles is known from then on. -/
theorem Yields.and_known (h : Yields S x Q) [hs : Settles x x] :
    Yields S x (fun T a => Known x T a ∧ Q T a) := by
  intro T hT
  obtain ⟨a, U, hx, hU, hQ⟩ := h T hT
  exact ⟨a, U, hx, hU, fun V hV => ⟨known_of_ok hx hV.le, hQ V hV⟩⟩

/-- What is known is answered. -/
theorem yields_of_known [hs : Settles x y] (ha : Known x S a) : Yields S y (fun _ b => b = a) :=
  fun T hT => ⟨a, T, ha.grow hT.le, .refl T, fun _ _ => rfl⟩

/-- Asked in any session that comes after `S`, `x` answers. -/
def Responds (S : Session) (x : Query α) : Prop :=
  Yields S x fun _ _ => True

theorem Yields.responds (h : Yields S x Q) : Responds S x :=
  h.imp fun _ _ _ _ => trivial

theorem Responds.later (h : Responds S x) (hT : Later S T) : Responds T x :=
  Yields.later h hT

theorem responds_pure (a : α) : Responds S (pure a) :=
  yields_pure fun _ _ => trivial

theorem Responds.bind [Settles x x] (hx : Responds S x)
    (hf : ∀ T a, Later S T → Known x T a → Responds T (f a)) : Responds S (x >>= f) :=
  Yields.bind (Yields.and_known hx) fun T a hT ha => hf T a hT (ha T .rfl).1

/-- What is known of the answers holds of the answer of a question that is answered. -/
theorem Responds.yields [Settles x x] (hx : Responds S x)
    (h : ∀ T a, Later S T → Known x T a → Q T a) : Yields S x Q :=
  (Yields.and_known hx).imp fun T a hT ha => h T a hT ha.1

/-! ### Questions that may fail -/

/-- If `x` answers in a session that comes after `S`, the answer has a property from then on. -/
def Ensures (S : Session) (x : Query α) (Q : Session → α → Prop) : Prop :=
  ∀ T, Later S T → ∀ a U, x T = (.ok a, U) → Later T U ∧ ∀ V, Later U V → Q V a

theorem Yields.ensures (h : Yields S x Q) : Ensures S x Q :=
  fun _ hT _ _ hx => h.of_eq_ok hT hx

theorem Ensures.later (h : Ensures S x Q) (hT : Later S T) : Ensures T x Q :=
  fun U hU => h U (hT.trans hU)

theorem Ensures.imp (h : Ensures S x P) (hPQ : ∀ T a, Later S T → P T a → Q T a) :
    Ensures S x Q := by
  intro T hT a U hx
  obtain ⟨hU, hP⟩ := h T hT a U hx
  exact ⟨hU, fun V hV => hPQ V a (hT.trans (hU.trans hV)) (hP V hV)⟩

theorem ensures_pure (h : ∀ T, Later S T → Q T a) : Ensures S (pure a) Q := by
  intro T hT b U hx
  cases hx
  exact ⟨.rfl, fun V hV => h V (hT.trans hV)⟩

theorem ensures_throw {e : Fault} : Ensures S (throw e : Query α) Q := by
  intro T _ b U hx
  cases hx

theorem Ensures.bind (hx : Ensures S x P)
    (hf : ∀ T a, Later S T → (∀ V, Later T V → P V a) → Ensures T (f a) R) :
    Ensures S (x >>= f) R := by
  intro T hT b V h
  obtain ⟨a, U, hxT, hfU⟩ := bind_eq_ok h
  obtain ⟨hU, hP⟩ := hx T hT a U hxT
  obtain ⟨hV, hR⟩ := hf U a (hT.trans hU) hP U .rfl b V hfU
  exact ⟨hU.trans hV, hR⟩

/-- The answer of a question that settles is known from then on. -/
theorem ensures_of_settles [hs : Settles x x] : Ensures S x fun T a => Known x T a :=
  fun _ _ _ _ hx => ⟨.of_leads (hs.leads_of_eq hx), fun _ hV => known_of_ok hx hV.le⟩

/-- The rest of a sequence may start in any later session. -/
theorem ensures_bind_of_settles [hs : Settles x x]
    (hf : ∀ T a, Later S T → Ensures T (f a) R) : Ensures S (x >>= f) R :=
  ensures_of_settles.bind fun T a hT _ => hf T a hT

theorem ensures_ite_bind_of_settles {c : Prop} [Decidable c]
    [hx : Settles x x] [hy : Settles y y] (hf : ∀ T a, Later S T → Ensures T (f a) R) :
    Ensures S (if c then x >>= f else y >>= f) R := by
  split
  · exact ensures_bind_of_settles hf
  · exact ensures_bind_of_settles hf

theorem Ensures.of_known (h : Ensures S x Q) (ha : Known x S a) : Q S a :=
  (h S .rfl a S ha).2 S .rfl

/-! ### Tests -/

section Tests

variable {x y : Query Bool} {P Q : Session → Bool → Prop}

theorem Yields.both (hx : Yields S x P)
    (htrue : ∀ T, Later S T → (∀ V, Later T V → P V true) → Yields T y Q)
    (hfalse : ∀ T, Later S T → P T false → Q T false) : Yields S (Action.both x y) Q := by
  refine hx.bind fun T b hT hP => ?_
  cases b with
  | true => exact htrue T hT hP
  | false => exact yields_pure fun V hV => hfalse V (hT.trans hV) (hP V hV)

theorem Yields.either (hx : Yields S x P) (htrue : ∀ T, Later S T → P T true → Q T true)
    (hfalse : ∀ T, Later S T → (∀ V, Later T V → P V false) → Yields T y Q) :
    Yields S (Action.either x y) Q := by
  refine hx.bind fun T b hT hP => ?_
  cases b with
  | true => exact yields_pure fun V hV => htrue V (hT.trans hV) (hP V hV)
  | false => exact hfalse T hT hP

theorem Responds.either (hx : Responds S x) (hy : ∀ T, Later S T → Responds T y) :
    Responds S (Action.either x y) :=
  Yields.either hx (fun _ _ _ => trivial) fun T hT _ => hy T hT

end Tests

end Rules

end Action

open Action

/-! ### Sessions -/

theorem onStore_bind {α β : Type} (x : Build α) (f : α → Build β) :
    onStore (x >>= f) = onStore x >>= fun a => onStore (f a) := by
  funext s
  rw [bind_apply, onStore_apply, onStore_apply, bind_apply]
  cases x s.store with
  | mk r store => cases r <;> rfl

theorem onStore_ite {α : Type} {c : Prop} [Decidable c] (x y : Build α) :
    onStore (if c then x else y) = if c then onStore x else onStore y := by
  split <;> rfl

theorem onStore_either (x y : Build Bool) :
    onStore (Action.either x y) = Action.either (onStore x) (onStore y) := by
  rw [Action.either, onStore_bind]
  refine congrArg _ (funext fun b => ?_)
  rw [onStore_ite]
  rfl

namespace Action

section Readings

variable {S : Session} {α : Type}

variable {e : ElementId} {t : TypeId}

/-- What can be peeked at is what a completion gives. -/
theorem yields_viewType_of_peek {found : TypeId × TypeNode}
    (h : S.store.peekType t = some found) : Yields S (onStore (viewType t)) (fun _ x => x = found) :=
  yields_of_known (known_onStore.2 (known_viewType.2 h))

theorem yields_viewElement_of_peek {found : ElementId × ElementNode}
    (h : S.store.peekElement e = some found) :
    Yields S (onStore (viewElement e)) (fun _ x => x = found) :=
  yields_of_known (known_onStore.2 (known_viewElement.2 h))

/-- What a completion gave can be peeked at. -/
theorem Yields.peekType {Q : Session → TypeId × TypeNode → Prop}
    (h : Yields S (onStore (viewType t)) Q) :
    Yields S (onStore (viewType t)) (fun T x => T.store.peekType t = some x ∧ Q T x) :=
  (h.and_known).imp fun _ _ _ hx => ⟨known_viewType.1 (known_onStore.1 hx.1), hx.2⟩

theorem Yields.peekElement {Q : Session → ElementId × ElementNode → Prop}
    (h : Yields S (onStore (viewElement e)) Q) :
    Yields S (onStore (viewElement e)) (fun T x => T.store.peekElement e = some x ∧ Q T x) :=
  (h.and_known).imp fun _ _ _ hx => ⟨known_viewElement.1 (known_onStore.1 hx.1), hx.2⟩

theorem Yields.typeNode {Q : Session → TypeNode → Prop}
    (h : Yields S (onStore (viewType t)) fun T x => Q T x.2) :
    Yields S (onStore (typeNode t)) Q := by
  rw [JavaTypes.typeNode, onStore_bind]
  exact h.map fun _ _ _ hx => hx

theorem Yields.typeKind {Q : Session → TypeKind → Prop}
    (h : Yields S (onStore (viewType t)) fun T x => Q T x.2.kind) :
    Yields S (onStore (typeKind t)) Q := by
  rw [JavaTypes.typeKind, onStore_bind]
  exact (Yields.typeNode (Q := fun T n => Q T n.kind) h).map fun _ _ _ hx => hx

theorem Yields.resolveType {Q : Session → TypeId → Prop}
    (h : Yields S (onStore (viewType t)) fun T x => Q T x.1) :
    Yields S (onStore (resolveType t)) Q := by
  rw [JavaTypes.resolveType, onStore_bind]
  exact h.map fun _ _ _ hx => hx

theorem Yields.elementNode {Q : Session → ElementNode → Prop}
    (h : Yields S (onStore (viewElement e)) fun T x => Q T x.2) :
    Yields S (onStore (elementNode e)) Q := by
  rw [JavaTypes.elementNode, onStore_bind]
  exact h.map fun _ _ _ hx => hx

theorem Yields.resolveElement {Q : Session → ElementId → Prop}
    (h : Yields S (onStore (viewElement e)) fun T x => Q T x.1) :
    Yields S (onStore (resolveElement e)) Q := by
  rw [JavaTypes.resolveElement, onStore_bind]
  exact h.map fun _ _ _ hx => hx

end Readings

end Action

end JavaTypes
