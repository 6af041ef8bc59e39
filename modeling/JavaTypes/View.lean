import JavaTypes.Equality
import JavaTypes.Fingerprint

/-!
# Views

A `View` is a handle that is completed when something is asked of it, and that remembers the node it
stands for from then on. Views can be compared and hashed even if their handle cannot be completed:

* two views of one handle are equal, and the handle is not completed for that;
* a view that cannot be completed equals no view of another handle;
* all views that cannot be completed have the same hash, which is not that of any other view.

What is read through a view has a default where a type or element does not have the part.
-/

namespace JavaTypes

/-- A handle, and the handle of the node that it stands for once that is known. -/
structure View (κ : Type) where
  /-- Which of several stores the view looks into. -/
  store : Nat := 0
  handle : κ
  target : Option κ := none
  deriving DecidableEq, Repr

/-- How the things that handles denote are completed, compared and hashed. -/
structure Viewing (κ : Type) where
  resolve : κ → Build κ
  same : Nat → κ → κ → Build Bool
  fingerprint : κ → Build Fingerprint

def Viewing.types (q : Equality) : Viewing TypeId where
  resolve := resolveType
  same := q.types
  fingerprint := typeFingerprint

def Viewing.elements (q : Equality) : Viewing ElementId where
  resolve := resolveElement
  same := q.elements
  fingerprint := elementFingerprint

namespace View

variable {κ : Type}

def isCompleted (v : View κ) : Bool :=
  v.target.isSome

def resolve (w : Viewing κ) (v : View κ) : Build κ :=
  match v.target with
  | some k => return k
  | none => w.resolve v.handle

def complete (w : Viewing κ) (v : View κ) : Build (View κ) := do
  return { v with target := some (← v.resolve w) }

/-- The view that knows its node, if there is one. -/
def attempt (w : Viewing κ) (v : View κ) : Build (View κ) := do
  match ← (v.complete w).outcome with
  | .ok v' => return v'
  | .error _ => return v

def equals [DecidableEq κ] (w : Viewing κ) (fuel : Nat) (a b : View κ) : Build Bool := do
  if a.store ≠ b.store then
    return false
  else if a.handle = b.handle then
    return true
  else
    let k ← a.resolve w
    let k' ← b.resolve w
    w.same fuel k k'

/-- Compare two views; where that fails they differ. -/
def same [DecidableEq κ] (w : Viewing κ) (fuel : Nat) (a b : View κ) : Build Bool := do
  match ← (a.equals w fuel b).outcome with
  | .ok answer => return answer
  | .error _ => return false

/-- What the hash of a view is computed from; nothing if that fails. -/
def fingerprint (w : Viewing κ) (v : View κ) : Build (Option Fingerprint) := do
  let found : Build Fingerprint := do w.fingerprint (← v.resolve w)
  return (← found.outcome).toOption

end View

structure ViewComparison where
  /-- Whether the views are equal, failures counting as different. -/
  same : Bool
  sameHash : Bool
  /-- Whether each view knows its node afterwards. -/
  completed : Bool × Bool
  /-- Whether the first view, taken as a view again, knows its node, and whether it equals itself. -/
  again : Bool × Bool
  equals : Bool

def View.compare {κ : Type} [DecidableEq κ] (w : Viewing κ) (fuel : Nat) (a b : View κ) :
    Build ViewComparison := do
  let same ← a.same w fuel b
  let hashA ← a.fingerprint w
  let a ← a.attempt w
  let hashB ← b.fingerprint w
  let b ← b.attempt w
  let itself ← a.same w fuel a
  let equals ← a.equals w fuel b
  return {
    same
    sameHash := hashA = hashB
    completed := (a.isCompleted, b.isCompleted)
    again := (a.isCompleted, itself)
    equals }

/-! ### Readings with defaults -/

namespace TypeNode

def componentOrNone (n : TypeNode) : TypeId :=
  n.component.getD TypeId.none

/-- The lower bound of a type variable, or the null type. Other types have none. -/
def lowerBoundOrNull (n : TypeNode) : Option TypeId :=
  if n.kind = .typeVar then some (n.lowerBound.getD TypeId.null) else none

end TypeNode

namespace ElementNode

def typeOrNone (n : ElementNode) : TypeId :=
  n.type.getD TypeId.none

def superclassOrNone (n : ElementNode) : TypeId :=
  n.superclass.getD TypeId.none

def genericElement (n : ElementNode) : Option ElementId :=
  if n.kind = .typeParameter then n.enclosing else none

end ElementNode

end JavaTypes
