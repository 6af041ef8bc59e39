import JavaTypes.Relation.Levels

/-!
# Adaptation

`adapt` matches a generic type, such as `List<E>`, against another, such as `List<String>`, and finds
which type stands for each variable. A variable that is met twice keeps the tighter of two wildcards
that bound it in the same direction; any other disagreement is a conflict.
-/

namespace JavaTypes

/-- Which type stands for each variable, in the order in which the variables were met. -/
structure Adaptation where
  pairs : List (TypeId × TypeId) := []
  deriving DecidableEq, Repr

namespace Adaptation

def vars (a : Adaptation) : List TypeId :=
  a.pairs.map Prod.fst

def vals (a : Adaptation) : List TypeId :=
  a.pairs.map Prod.snd

def isEmpty (a : Adaptation) : Bool :=
  a.pairs.isEmpty

def get? (a : Adaptation) (v : TypeId) : Option TypeId :=
  a.pairs.lookup v

end Adaptation

/-- Whether both of two types pass a test. The second is tested only if the first passes. -/
def bothPass (test : TypeId → Build Bool) (a b : TypeId) : Query Bool :=
  Action.both (test a) (test b)

/-- The type that stands for a variable for which there was a type already. -/
def reconcile (fuel : Nat) (var value target : TypeId) : Query TypeId := do
  if ← bothPass isSuperBound value target then
    let lower ← wildLowerBound fuel value
    let tighter ← subtype fuel true lower (← wildLowerBound fuel target)
    return if tighter then target else value
  else if ← bothPass isExtendsBound value target then
    let upper ← wildUpperBound fuel value
    let tighter ← subtype fuel true upper (← wildUpperBound fuel target)
    return if tighter then value else target
  else if ← sameType fuel value target then
    return value
  else
    throw (.conflictingAdaptation var)

def adaptVariable (fuel : Nat) (var target : TypeId) :
    List (TypeId × TypeId) → Query (List (TypeId × TypeId))
  | [] => return [(var, target)]
  | (v, value) :: rest => do
      if ← sameTypeVariable fuel v var then
        return (v, ← reconcile fuel var value target) :: rest
      else
        return (v, value) :: (← adaptVariable fuel var target rest)

def adaptPairs (adapt : Adaptation → TypeId → TypeId → Query Adaptation) :
    Adaptation → List TypeId → List TypeId → Query Adaptation
  | a, s :: ss, t :: ts => do adaptPairs adapt (← adapt a s t) ss ts
  | a, _, _ => return a

/-- Match the types of two lists. Lists of different lengths are not matched. -/
def adaptLists (adapt : Adaptation → TypeId → TypeId → Query Adaptation) (a : Adaptation)
    (ss ts : List TypeId) : Query Adaptation :=
  if ss.length = ts.length then adaptPairs adapt a ss ts else return a

/-- Match a type against another. The pairs in `visited` are being matched already. -/
def adaptFrom : Nat → List (TypeId × TypeId) → Adaptation → TypeId → TypeId → Query Adaptation
  | 0, _, _, _, _ => throw .exhausted
  | fuel + 1, visited, a, source, target => do
      let (source, m) ← viewType source
      let (target, n) ← viewType target
      if (source, target) ∈ visited then
        return a
      else
        let within := adaptFrom fuel ((source, target) :: visited)
        match m.shape, n.shape with
        | .declared _, .declared _ =>
            let ss ← allTypeArguments fuel source
            let ts ← allTypeArguments fuel target
            adaptLists within a ss ts
        | .array (some s), .array (some t) => within a s t
        | .wildcard _, _ =>
            if ← isExtendsBound source then
              let s ← wildUpperBound fuel source
              within a s (← wildUpperBound fuel target)
            else
              let s ← wildLowerBound fuel source
              within a s (← wildLowerBound fuel target)
        | .typeVar _, _ => return { pairs := ← adaptVariable fuel source target a.pairs }
        | _, _ => return a

def adapt (fuel : Nat) (source target : TypeId) : Query Adaptation :=
  adaptFrom fuel [] {} source target

end JavaTypes
