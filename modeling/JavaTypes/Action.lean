import JavaTypes.Fault

/-!
# Actions

An `Action σ α` reads and changes a state of type `σ` and either answers with an `α` or fails. The
state stands outside the answer, so what an action changed before it failed stays changed: nodes
that were made remain, and slots that were completed stay completed.

* the monad laws, and `bind_apply`, `throw_apply`, `get_apply`, `set_apply`: what one step does;
* `Action.allPairs`: a comparison of two lists, item by item, that stops at the first difference.
-/

namespace JavaTypes

/-- A computation on a state that may fail, and that keeps the state when it does. -/
def Action (σ α : Type) : Type :=
  σ → Except Fault α × σ

namespace Action

variable {σ α β : Type}

/-- Answer with a value. -/
@[always_inline, inline]
protected def pure (a : α) : Action σ α :=
  fun s => (.ok a, s)

/-- Run an action and hand its answer on. A failure ends the computation. -/
@[always_inline, inline]
protected def bind (x : Action σ α) (f : α → Action σ β) : Action σ β :=
  fun s =>
    match x s with
    | (.ok a, s') => f a s'
    | (.error e, s') => (.error e, s')

@[always_inline]
instance : Monad (Action σ) where
  pure := Action.pure
  bind := Action.bind

/-- Fail. -/
@[always_inline, inline]
protected def throw (e : Fault) : Action σ α :=
  fun s => (.error e, s)

/-- Run an action and, if it fails, go on from the state that it left. -/
@[always_inline, inline]
protected def tryCatch (x : Action σ α) (handle : Fault → Action σ α) : Action σ α :=
  fun s =>
    match x s with
    | (.ok a, s') => (.ok a, s')
    | (.error e, s') => handle e s'

@[always_inline]
instance : MonadExceptOf Fault (Action σ) where
  throw := Action.throw
  tryCatch := Action.tryCatch

@[always_inline]
instance : MonadStateOf σ (Action σ) where
  get := fun s => (.ok s, s)
  set s := fun _ => (.ok (), s)
  modifyGet f := fun s => let p := f s; (.ok p.1, p.2)

/-- A pure computation that may fail. -/
@[always_inline, inline]
def ofExcept (r : Except Fault α) : Action σ α :=
  fun s => (r, s)

/-- The answer of an action, failure included, as a value. -/
@[always_inline, inline]
def outcome (x : Action σ α) : Action σ (Except Fault α) :=
  fun s =>
    let p := x s
    (.ok p.1, p.2)

/-! ### What one step does -/

@[simp] theorem pure_apply (a : α) (s : σ) : (pure a : Action σ α) s = (.ok a, s) := rfl

theorem bind_apply (x : Action σ α) (f : α → Action σ β) (s : σ) :
    (x >>= f) s =
      match x s with
      | (.ok a, s') => f a s'
      | (.error e, s') => (.error e, s') := rfl

@[simp] theorem throw_apply (e : Fault) (s : σ) :
    (throw e : Action σ α) s = (.error e, s) := rfl

@[simp] theorem get_apply (s : σ) : (get : Action σ σ) s = (.ok s, s) := rfl

@[simp] theorem set_apply (s t : σ) : (set t : Action σ Unit) s = (.ok (), t) := rfl

@[simp] theorem ofExcept_apply (r : Except Fault α) (s : σ) :
    (ofExcept r : Action σ α) s = (r, s) := rfl

theorem bind_of_ok {x : Action σ α} {f : α → Action σ β} {s s' : σ} {a : α}
    (h : x s = (.ok a, s')) : (x >>= f) s = f a s' := by
  rw [bind_apply, h]

theorem bind_of_error {x : Action σ α} {f : α → Action σ β} {s s' : σ} {e : Fault}
    (h : x s = (.error e, s')) : (x >>= f) s = (.error e, s') := by
  rw [bind_apply, h]

/-- An answer of a sequence comes from answers of both parts. -/
theorem bind_eq_ok {x : Action σ α} {f : α → Action σ β} {s s'' : σ} {b : β}
    (h : (x >>= f) s = (.ok b, s'')) :
    ∃ a s', x s = (.ok a, s') ∧ f a s' = (.ok b, s'') := by
  rw [bind_apply] at h
  split at h
  · next a s' hx => exact ⟨a, s', hx, h⟩
  · cases h

instance : LawfulMonad (Action σ) :=
  LawfulMonad.mk' (Action σ)
    (fun x => by
      funext s
      show (x >>= fun a => pure a) s = x s
      rw [bind_apply]
      split <;> simp_all)
    (fun _ _ => rfl)
    (fun x f g => by
      funext s
      simp only [bind_apply]
      cases x s with
      | mk r s' => cases r <;> rfl)

/-! ### Lists -/

/-- Compare two lists item by item, from the left, up to the first pair that differs. -/
def allPairs (r : α → β → Action σ Bool) : List α → List β → Action σ Bool
  | a :: as, b :: bs => do
      if ← r a b then allPairs r as bs else return false
  | [], [] => return true
  | _, _ => return false

/-- Compare two lists of the same length item by item. Lists of different lengths differ, and
then no item is looked at. -/
def sameLists (r : α → β → Action σ Bool) (as : List α) (bs : List β) : Action σ Bool :=
  if as.length = bs.length then allPairs r as bs else return false

/-- Compare two optional values: both absent, or both present and the same. -/
def sameOptions (r : α → β → Action σ Bool) : Option α → Option β → Action σ Bool
  | some a, some b => r a b
  | none, none => return true
  | _, _ => return false

/-- The two tests one after the other. The second is run only if the first holds. -/
@[always_inline, inline]
def both (x y : Action σ Bool) : Action σ Bool := do
  if ← x then y else return false

/-- The two tests one after the other. The second is run only if the first fails to hold. -/
@[always_inline, inline]
def either (x y : Action σ Bool) : Action σ Bool := do
  if ← x then return true else y

/-- An action that is run only under a condition. -/
@[always_inline, inline]
def onlyIf (c : Bool) (x : Action σ Unit) : Action σ Unit :=
  if c then x else return ()

end Action

end JavaTypes
