import JavaTypes.Action
import Mathlib.Data.List.Forall2
import Mathlib.Logic.Relation
import Mathlib.Order.Defs.PartialOrder

/-!
# Questions that stay answered

A question to a store can change it: deferred slots are completed and new types are made. It never
takes anything back, so what it found can be found again.

* `Evolving`: states that only gain, with an order `s ≤ t` (what is known in `s` is known in `t`)
  and the single steps that questions take; `Leads s t` says that steps lead from `s` to `t`;
* `Action.Repeats x y`: where `x` answers, `y` gives the same answer and leaves the same state;
* `Action.Settles x y`: the action `x` takes steps only, and once it has answered, `y` gives the same
  answer in every later state and changes nothing. Asked in place of `x`, it does what `x` does. For
  two amounts of fuel, `x` with less and `y` with more, this says at once that answers last and that
  more fuel does not change them;
* `Action.Known x s a`: in the state `s` the answer of `x` is `a`, and finding it changes nothing.

Whatever was asked on the way to a state is known in it. A claim about several questions, asked one
after the other, becomes a claim about what is known in the last state.
-/

namespace JavaTypes

/-- States that computations only add to. -/
class Evolving (σ : Type) extends Preorder σ where
  /-- A change that a question can make. -/
  Step : σ → σ → Prop
  le_of_step : ∀ {s t : σ}, Step s t → s ≤ t

section Leads

variable {σ : Type} [Evolving σ]

/-- The second state can be reached from the first by the changes that questions make. -/
def Leads : σ → σ → Prop :=
  Relation.ReflTransGen Evolving.Step

theorem Leads.refl (s : σ) : Leads s s :=
  Relation.ReflTransGen.refl

theorem Leads.trans {s t u : σ} (h₁ : Leads s t) (h₂ : Leads t u) : Leads s u :=
  Relation.ReflTransGen.trans h₁ h₂

theorem Leads.single {s t : σ} (h : Evolving.Step s t) : Leads s t :=
  Relation.ReflTransGen.single h

theorem Leads.le {s t : σ} (h : Leads s t) : s ≤ t := by
  induction h with
  | refl => exact le_refl s
  | tail _ hstep ih => exact le_trans ih (Evolving.le_of_step hstep)

end Leads

namespace Action

/-! ### What is known -/

section Known

variable {σ α β : Type} {x : Action σ α} {s : σ} {a b : α} {f : α → Action σ β}

/-- The answer of an action in a state that it does not change. -/
def Known (x : Action σ α) (s : σ) (a : α) : Prop :=
  x s = (.ok a, s)

theorem Known.unique (ha : Known x s a) (hb : Known x s b) : a = b := by
  have h : (Except.ok a, s) = (.ok b, s) := ha.symm.trans hb
  cases h
  rfl

theorem known_pure : Known (pure a : Action σ α) s b ↔ b = a := by
  constructor
  · intro h
    cases h
    rfl
  · rintro rfl
    rfl

theorem Known.bind {b : β} (hx : Known x s a) (hf : Known (f a) s b) : Known (x >>= f) s b :=
  (bind_of_ok hx).trans hf

/-- What is known of a sequence whose first answer is known is known of the rest. -/
theorem Known.of_bind {b : β} (hx : Known x s a) (h : Known (x >>= f) s b) : Known (f a) s b :=
  (bind_of_ok hx).symm.trans h

theorem not_known_throw {e : Fault} : ¬ Known (throw e : Action σ α) s a := by
  intro h
  cases h

/-- A test that holds wherever its answer is known. -/
def Certain (x : Action σ Bool) (s : σ) : Prop :=
  ∀ b, Known x s b → b = true

theorem certain_true : Certain (pure true : Action σ Bool) s :=
  fun _ h => known_pure.1 h

end Known

/-! ### Answers that do not change -/

section Repeats

variable {σ α β : Type} {c : Prop} {x y x' y' : Action σ α} {f g : α → Action σ β}

/-- Where `x` answers, `y` gives the same answer and leaves the same state. -/
def Repeats (x y : Action σ α) : Prop :=
  ∀ s a s', x s = (.ok a, s') → y s = (.ok a, s')

theorem Repeats.refl (x : Action σ α) : Repeats x x :=
  fun _ _ _ h => h

theorem repeats_throw (e : Fault) (y : Action σ α) : Repeats (throw e) y := by
  intro s a s' h
  cases h

theorem repeats_ite [Decidable c] (hx : Repeats x x')
    (hy : Repeats y y') : Repeats (if c then x else y) (if c then x' else y') := by
  split
  · exact hx
  · exact hy

theorem Repeats.bind (hx : Repeats x y)
    (hf : ∀ a, Repeats (f a) (g a)) : Repeats (x >>= f) (y >>= g) := by
  intro s b s'' h
  obtain ⟨a, s', h₁, h₂⟩ := bind_eq_ok h
  exact (bind_of_ok (hx s a s' h₁)).trans (hf a s' b s'' h₂)

theorem repeats_ite_bind [Decidable c]
    (hx : Repeats x x') (hy : Repeats y y') (hf : ∀ a, Repeats (f a) (g a)) :
    Repeats (if c then x >>= f else y >>= f) (if c then x' >>= g else y' >>= g) :=
  repeats_ite (hx.bind hf) (hy.bind hf)

end Repeats

variable {σ : Type} [Evolving σ] {α β : Type} {x y : Action σ α} {s s' t : σ} {a : α} {c : Prop}
  {f g : α → Action σ β} {b : β} {r : α → β → Action σ Bool} {as : List α} {bs : List β}

/-! ### Answers that last -/

/-- Once `x` has answered, `y` gives the same answer ever after, without changing the state. -/
structure Settles (x y : Action σ α) : Prop where
  leads : ∀ s, Leads s (x s).2
  stays : ∀ {s s' t : σ} {a : α}, x s = (.ok a, s') → s' ≤ t → y t = (.ok a, t)
  repeats : Repeats x y

-- An action settles if the actions that it is made of do, so instance search finds out. The amounts
-- of fuel are compared by `Fact`.
attribute [class] Settles

instance fact_le_self (n : Nat) : Fact (n ≤ n) := ⟨Nat.le_refl n⟩

instance fact_le_add (n m : Nat) : Fact (n ≤ n + m) := ⟨Nat.le_add_right n m⟩

instance fact_le_max_left (n m : Nat) : Fact (n ≤ max n m) := ⟨Nat.le_max_left n m⟩

instance fact_le_max_right (n m : Nat) : Fact (m ≤ max n m) := ⟨Nat.le_max_right n m⟩

theorem Settles.le (h : Settles x y) (s : σ) : s ≤ (x s).2 :=
  (h.leads s).le

theorem le_of_ok [h : Settles x x] {r : Except Fault α} (hx : x s = (r, s')) : s ≤ s' := by
  have hle := h.le s
  rwa [hx] at hle

theorem Settles.leads_of_eq (h : Settles x y) {r : Except Fault α}
    (hx : x s = (r, s')) : Leads s s' := by
  have hle := h.leads s
  rwa [hx] at hle

theorem leads_run (x : Action σ α) [h : Settles x x] (s : σ) : Leads s (x s).2 :=
  h.leads s

theorem leads_of_ok [h : Settles x x] {r : Except Fault α} (hx : x s = (r, s')) : Leads s s' :=
  h.leads_of_eq hx

/-- What was answered is known later. -/
theorem known_of_ok [h : Settles x x] (hx : x s = (.ok a, s')) (ht : s' ≤ t) : Known x t a :=
  h.stays hx ht

/-- What is known stays known, also with more fuel. -/
theorem Known.grow [h : Settles x y] (hx : Known x s a) (ht : s ≤ t) : Known y t a :=
  h.stays hx ht

theorem Known.mono [h : Settles x x] (hx : Known x s a) (ht : s ≤ t) : Known x t a :=
  h.stays hx ht

instance settles_pure (a : α) : Settles (pure a : Action σ α) (pure a) where
  leads s := .refl s
  stays h _ := by cases h; rfl
  repeats := .refl _

instance settles_throw (e : Fault) (y : Action σ α) : Settles (throw e) y where
  leads s := .refl s
  stays h _ := by cases h
  repeats := repeats_throw e y

instance settles_ite [Decidable c] {x y x' y' : Action σ α} [hx : Settles x x']
    [hy : Settles y y'] : Settles (if c then x else y) (if c then x' else y') := by
  split
  · exact hx
  · exact hy

/-- One action after the other. -/
instance settles_bind [hx : Settles x y]
    [hf : ∀ a, Settles (f a) (g a)] : Settles (x >>= f) (y >>= g) where
  leads s := by
    rw [bind_apply]
    cases hs : x s with
    | mk r s' =>
      cases r with
      | ok a => exact (hx.leads_of_eq hs).trans ((hf a).leads s')
      | error e => exact hx.leads_of_eq hs
  stays := by
    intro s s' t b h ht
    obtain ⟨a, s₁, h₁, h₂⟩ := bind_eq_ok h
    have hle : s₁ ≤ t := le_trans ((hf a).leads_of_eq h₂).le ht
    rw [bind_of_ok (hx.stays h₁ hle)]
    exact (hf a).stays h₂ ht
  repeats := hx.repeats.bind fun a => (hf a).repeats

/-- One action after the other, of which the second goes by cases. -/
theorem settles_bind_of [Settles x y]
    (hf : ∀ a, Settles (f a) (g a)) : Settles (x >>= f) (y >>= g) :=
  settles_bind

/-- An action whose outcome only goes into a failure. -/
instance settles_outcome_throw [hx : Settles x x] (f : Except Fault α → Fault)
    (z : Action σ β) : Settles (x.outcome >>= fun r => throw (f r)) z where
  leads s := hx.leads s
  stays h _ := by cases h
  repeats _ _ _ h := by cases h

theorem repeats_bind_of_settles [h : Settles x y]
    (hf : ∀ a, Repeats (f a) (g a)) : Repeats (x >>= f) (y >>= g) :=
  h.repeats.bind hf

/-- A question with fuel settles if it does so step by step. -/
theorem settles_of_succ {ι : Type} {f : Nat → ι → Action σ α}
    (hzero : ∀ i, f 0 i = throw .exhausted)
    (hsucc : ∀ {m n : Nat} [Fact (m ≤ n)] [∀ i, Settles (f m i) (f n i)] (i : ι),
      Settles (f (m + 1) i) (f (n + 1) i)) :
    ∀ {m n : Nat} [Fact (m ≤ n)] (i : ι), Settles (f m i) (f n i)
  | 0, _, _, i => by
      rw [hzero]
      infer_instance
  | m + 1, 0, h, _ => absurd h.out (Nat.not_succ_le_zero m)
  | m + 1, n + 1, h, i => by
      have : Fact (m ≤ n) := ⟨Nat.le_of_succ_le_succ h.out⟩
      have := fun i => settles_of_succ hzero hsucc (m := m) (n := n) i
      exact hsucc i

/-- In a state that a sequence does not change, its parts are known. -/
theorem known_bind [hx : Settles x x] [hf : ∀ a, Settles (f a) (f a)] :
    Known (x >>= f) s b ↔ ∃ a, Known x s a ∧ Known (f a) s b := by
  constructor
  · intro h
    obtain ⟨a, s₁, h₁, h₂⟩ := bind_eq_ok h
    have hx₁ := hx.stays h₁ (le_of_ok h₂)
    have hs : s₁ = s := by
      rw [h₁] at hx₁
      cases hx₁
      rfl
    subst hs
    exact ⟨a, h₁, h₂⟩
  · rintro ⟨a, h₁, h₂⟩
    exact (bind_of_ok h₁).trans h₂

/-- The same for a sequence whose second part goes by cases. -/
theorem known_bind_of [Settles x x] (hf : ∀ a, Settles (f a) (f a)) :
    Known (x >>= f) s b ↔ ∃ a, Known x s a ∧ Known (f a) s b :=
  known_bind

theorem known_ite_bind [Decidable c] [Settles x x] [Settles y y] (hf : ∀ a, Settles (f a) (f a)) :
    Known (if c then x >>= f else y >>= f) s b ↔
      ∃ a, Known (if c then x else y) s a ∧ Known (f a) s b := by
  split
  · exact known_bind
  · exact known_bind

theorem known_map [Settles x x] {f : α → β} :
    Known (x >>= fun a => pure (f a)) s b ↔ ∃ a, Known x s a ∧ b = f a := by
  simp only [known_bind, known_pure]

/-! ### Tests -/

instance settles_both {x y x' y' : Action σ Bool} [Settles x x'] [Settles y y'] :
    Settles (both x y) (both x' y') :=
  settles_bind

instance settles_either {x y x' y' : Action σ Bool} [Settles x x'] [Settles y y'] :
    Settles (either x y) (either x' y') :=
  settles_bind

section Lists

variable {r r' : α → β → Action σ Bool} [hr : ∀ a b, Settles (r a b) (r' a b)]

instance settles_allPairs : ∀ as bs, Settles (allPairs r as bs) (allPairs r' as bs)
  | [], [] => settles_pure true
  | [], _ :: _ => settles_pure false
  | _ :: _, [] => settles_pure false
  | _ :: as, _ :: bs =>
      have := settles_allPairs as bs
      settles_bind

instance settles_sameLists (as : List α) (bs : List β) :
    Settles (sameLists r as bs) (sameLists r' as bs) :=
  settles_ite

instance settles_sameOptions : ∀ a b, Settles (sameOptions r a b) (sameOptions r' a b)
  | some a, some b => hr a b
  | none, none => settles_pure true
  | none, some _ => settles_pure false
  | some _, none => settles_pure false

end Lists

/-! ### What is known about tests -/

theorem known_both {x y : Action σ Bool} [Settles x x] [Settles y y] {b : Bool} :
    Known (Action.both x y) s b ↔
      (Known x s true ∧ Known y s b) ∨ (Known x s false ∧ b = false) := by
  rw [Action.both, known_bind]
  constructor
  · rintro ⟨c, hc, h⟩
    cases c with
    | true => exact .inl ⟨hc, h⟩
    | false => exact .inr ⟨hc, known_pure.1 h⟩
  · rintro (⟨hc, h⟩ | ⟨hc, rfl⟩)
    · exact ⟨true, hc, h⟩
    · exact ⟨false, hc, rfl⟩

theorem known_either {x y : Action σ Bool} [Settles x x] [Settles y y] {b : Bool} :
    Known (Action.either x y) s b ↔
      (Known x s true ∧ b = true) ∨ (Known x s false ∧ Known y s b) := by
  rw [Action.either, known_bind]
  constructor
  · rintro ⟨c, hc, h⟩
    cases c with
    | true => exact .inl ⟨hc, known_pure.1 h⟩
    | false => exact .inr ⟨hc, h⟩
  · rintro (⟨hc, rfl⟩ | ⟨hc, h⟩)
    · exact ⟨true, hc, rfl⟩
    · exact ⟨false, hc, h⟩

theorem known_both_true {x y : Action σ Bool} [Settles x x] [Settles y y] :
    Known (Action.both x y) s true ↔ Known x s true ∧ Known y s true := by
  simp [known_both]

theorem known_allPairs_cons [∀ a b, Settles (r a b) (r a b)] {c : Bool} :
    Known (allPairs r (a :: as) (b :: bs)) s c ↔
      (Known (r a b) s true ∧ Known (allPairs r as bs) s c) ∨ (Known (r a b) s false ∧ c = false) :=
  known_both

/-- All pairs hold if two lists match item by item. -/
theorem known_allPairs_true [∀ a b, Settles (r a b) (r a b)] : ∀ {as : List α} {bs : List β},
      Known (allPairs r as bs) s true ↔ List.Forall₂ (fun a b => Known (r a b) s true) as bs
  | [], [] => iff_of_true rfl List.Forall₂.nil
  | [], _ :: _ => iff_of_false (fun h => Bool.noConfusion (known_pure.1 h)) (fun h => by cases h)
  | _ :: _, [] => iff_of_false (fun h => Bool.noConfusion (known_pure.1 h)) (fun h => by cases h)
  | a :: as, b :: bs => by
      rw [known_allPairs_cons, known_allPairs_true]
      simp

theorem known_sameLists_true [∀ a b, Settles (r a b) (r a b)] :
    Known (sameLists r as bs) s true ↔ List.Forall₂ (fun a b => Known (r a b) s true) as bs := by
  unfold sameLists
  split
  · exact known_allPairs_true
  · next hlen =>
    exact iff_of_false (fun h => Bool.noConfusion (known_pure.1 h)) fun h => hlen h.length_eq

omit [Evolving σ] in
theorem known_sameOptions_true : ∀ {a : Option α} {b : Option β},
      Known (sameOptions r a b) s true ↔ Option.Rel (fun a b => Known (r a b) s true) a b
  | some _, some _ => ⟨fun h => .some h, fun h => by cases h; assumption⟩
  | none, none => iff_of_true rfl Option.Rel.none
  | none, some _ => iff_of_false (fun h => Bool.noConfusion (known_pure.1 h)) (fun h => by cases h)
  | some _, none => iff_of_false (fun h => Bool.noConfusion (known_pure.1 h)) (fun h => by cases h)

/-! ### Tests that cannot fail -/

theorem Certain.both {x y : Action σ Bool} [Settles x x] [Settles y y]
    (hx : Certain x s) (hy : Certain y s) : Certain (Action.both x y) s := by
  intro b h
  rcases known_both.1 h with ⟨-, h⟩ | ⟨h, -⟩
  · exact hy b h
  · exact absurd (hx false h) Bool.false_ne_true

theorem Certain.bind {f : α → Action σ Bool} [Settles x x]
    [∀ a, Settles (f a) (f a)] (h : ∀ a, Known x s a → Certain (f a) s) : Certain (x >>= f) s := by
  intro b hb
  obtain ⟨a, ha, hb⟩ := known_bind.1 hb
  exact h a ha b hb

omit [Evolving σ] in
theorem Certain.of_known {f : α → Action σ Bool} (hx : Known x s a)
    (h : Certain (f a) s) : Certain (x >>= f) s :=
  fun b hb => h b (.of_bind hx hb)

theorem Certain.either_left {x y : Action σ Bool} [Settles x x] [Settles y y]
    (hx : Certain x s) : Certain (Action.either x y) s := by
  intro b h
  rcases known_either.1 h with ⟨-, rfl⟩ | ⟨h, -⟩
  · rfl
  · exact absurd (hx false h) Bool.false_ne_true

theorem Certain.either_right {x y : Action σ Bool} [Settles x x] [Settles y y]
    (hy : Certain y s) : Certain (Action.either x y) s := by
  intro b h
  rcases known_either.1 h with ⟨-, rfl⟩ | ⟨-, h⟩
  · rfl
  · exact hy b h

theorem certain_allPairs [∀ a b, Settles (r a b) (r a b)]
    (h : List.Forall₂ (fun a b => Certain (r a b) s) as bs) : Certain (allPairs r as bs) s := by
  induction h with
  | nil => exact certain_true
  | cons hab _ ih => exact hab.both ih

theorem certain_sameLists [∀ a b, Settles (r a b) (r a b)]
    (h : List.Forall₂ (fun a b => Certain (r a b) s) as bs) : Certain (sameLists r as bs) s := by
  unfold sameLists
  rw [if_pos h.length_eq]
  exact certain_allPairs h

omit [Evolving σ] in
theorem certain_sameOptions {a : Option α} {b : Option β}
    (h : Option.Rel (fun a b => Certain (r a b) s) a b) : Certain (sameOptions r a b) s := by
  cases h with
  | some h => exact h
  | none => exact certain_true

end Action

end JavaTypes
