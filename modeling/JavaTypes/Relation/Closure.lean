import JavaTypes.Relation.Rank

/-!
# Closures

The closure of a type is the list of the type itself and of all its supertypes, one for each element,
in the order of `precedes`. An intersection is not in its own closure.

* `closureInsert`: put a type into a closure, unless its element has an entry;
* `closureUnion`: merge two closures;
* `closure`: the closure of a type. The session remembers the closures that it has found, and gives
  the closure of an equal type if there is one.
-/

namespace JavaTypes

/-- Whether two types share an entry in a closure: the same node, or types of the same element. -/
def sameEntry (fuel : Nat) (a b : TypeId) : Query Bool := do
  let (a, m) ← viewType a
  let (b, n) ← viewType b
  if a = b then
    return true
  else
    let d ← m.elementOf
    let e ← n.elementOf
    match d, e with
    | some d, some e => sameElement fuel d e
    | _, _ => return false

/-- Put a type into a closure, unless its element has an entry. -/
def closureInsert (fuel : Nat) (t : TypeId) : List TypeId → Query (List TypeId)
  | [] => return [t]
  | entry :: rest => do
      if ← sameEntry fuel t entry then
        return entry :: rest
      else if ← precedes fuel t entry then
        return t :: entry :: rest
      else
        return entry :: (← closureInsert fuel t rest)

/-- Merge the closure `a :: as` with another one, given how `as` is merged. -/
def mergeEntry (fuel : Nat) (a : TypeId) (as : List TypeId)
    (merge : List TypeId → Query (List TypeId)) : List TypeId → Query (List TypeId)
  | [] => return a :: as
  | b :: bs => do
      if ← sameEntry fuel a b then
        return a :: (← merge bs)
      else if ← precedes fuel a b then
        return a :: (← merge (b :: bs))
      else if ← precedes fuel b a then
        return b :: (← mergeEntry fuel a as merge bs)
      else
        return a :: b :: (← merge bs)

def closureUnion (fuel : Nat) : List TypeId → List TypeId → Query (List TypeId)
  | [], bs => return bs
  | a :: as, bs => mergeEntry fuel a as (closureUnion fuel as) bs

/-! ### Closures that were found before -/

namespace Memo

def closuresAt (m : Memo) (key : Fingerprint) : List ClosureEntry :=
  (m.closures.lookup key).getD []

/-- Make room for the closures of types with a fingerprint. -/
def openClosures (m : Memo) (key : Fingerprint) : Memo :=
  match m.closures.lookup key with
  | some _ => m
  | none => { m with closures := m.closures ++ [(key, [])] }

def addClosure (m : Memo) (key : Fingerprint) (entry : ClosureEntry) : Memo :=
  { m with closures := m.closures.map fun (k, entries) =>
      if k = key then (k, entries ++ [entry]) else (k, entries) }

end Memo

/-- The first closure of an equal type in a list. -/
def findClosure (fuel : Nat) (q : Equality) (t : TypeId) :
    List ClosureEntry → Build (Option (List TypeId))
  | [] => return none
  | entry :: rest => do
      if ← q.types fuel entry.type t then
        return some entry.closure
      else
        findClosure fuel q t rest

def rememberedClosure (fuel : Nat) (key : Fingerprint) (t : TypeId) :
    Query (Option (List TypeId)) := do
  let s ← get
  findClosure fuel s.config.equality t (s.memo.closuresAt key)

/-- Remember the closure of a type, unless there is one for an equal type. -/
def rememberClosure (fuel : Nat) (key : Fingerprint) (t : TypeId) (closure : List TypeId) :
    Query Unit := do
  modifyMemo fun m => m.openClosures key
  match ← rememberedClosure fuel key t with
  | some _ => return ()
  | none => modifyMemo fun m => m.addClosure key { type := t, closure }

/-! ### The closure of a type -/

def unionEach (fuel : Nat) (closureOf : TypeId → Query (List TypeId)) :
    List TypeId → List TypeId → Query (List TypeId)
  | closure, [] => return closure
  | closure, t :: ts => do
      let other ← closureOf t
      unionEach fuel closureOf (← closureUnion fuel closure other) ts

/-- The closure of a type without its interfaces, given the closures of other types. -/
def classClosure (fuel : Nat) (closureOf : TypeId → Query (List TypeId)) (t : TypeId)
    (n : TypeNode) : Query (List TypeId) := do
  let above ← supertype fuel t
  if n.kind = .intersection then
    closureOf above
  else
    match ← typeKind above with
    | .declared | .error => closureInsert fuel t (← closureOf above)
    | .typeVar => return t :: (← closureOf above)
    | _ => return [t]

def closureOf : Nat → TypeId → Query (List TypeId)
  | 0, _ => throw .exhausted
  | fuel + 1, t => do
      let (t, n) ← viewType t
      let key ← typeFingerprint t
      match ← rememberedClosure fuel key t with
      | some closure => return closure
      | none =>
          let classes ← classClosure fuel (closureOf fuel) t n
          let closure ← unionEach fuel (closureOf fuel) classes (← interfaces fuel t)
          rememberClosure fuel key t closure
          return closure

def closure (fuel : Nat) (t : TypeId) : Query (List TypeId) := do
  let kind ← typeKind t
  if kind.hasClosure then
    closureOf fuel t
  else
    throw (.undefinedRelation "closure" kind)

end JavaTypes
