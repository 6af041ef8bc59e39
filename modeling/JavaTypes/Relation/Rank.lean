import JavaTypes.Relation.Levels

/-!
# Ranks and the order of closures

The rank of a type is its greatest distance from `Object` along superclasses and interfaces.
`precedes` is the order of the types in a closure: type variables first, then by falling rank, then
by qualified name in the direction that the settings give.

The session remembers the rank of each element. An element whose rank is being computed counts as
rank zero, so the computation ends on cyclic declarations too.
-/

namespace JavaTypes

/-- The greatest of a number and the ranks of types. -/
def highestRank (rank : TypeId → Query Nat) : Nat → List TypeId → Query Nat
  | highest, [] => return highest
  | highest, t :: ts => do
      highestRank rank (max highest (← rank t)) ts

/-- One more than the ranks of the superclass and of the interfaces of a type. -/
def rankAbove (fuel : Nat) (rank : TypeId → Query Nat) (t : TypeId) : Query Nat := do
  let superclass ← unlessNone (← supertype fuel t)
  let highest ← highestRank rank 0 superclass.toList
  let highest ← highestRank rank highest (← interfaces fuel t)
  return highest + 1

def Memo.setRank (m : Memo) (e : ElementId) (rank : Nat) : Memo :=
  { m with ranks := (e, rank) :: m.ranks }

/-- The rank of a type, where the ranks of the elements in `pending` are being computed. -/
def rankFrom : Nat → List ElementId → TypeId → Query Nat
  | 0, _, _ => throw .exhausted
  | fuel + 1, pending, t => do
      let (t, n) ← viewType t
      match n.shape with
      | .declared _ | .error _ =>
          match ← n.elementOf with
          | none => return 0
          | some e =>
              if e = (← objectElement) then
                return 0
              else
                match (← get).memo.ranks.lookup e with
                | some rank => return rank
                | none =>
                    if e ∈ pending then
                      return 0
                    else
                      let rank ←
                        match ← elementType e with
                        | some own => rankAbove fuel (rankFrom fuel (e :: pending)) own
                        | none => pure 1
                      modifyMemo fun m => m.setRank e rank
                      return rank
      | .typeVar _ | .intersection _ => rankAbove fuel (rankFrom fuel pending) t
      | _ => return 0

/-- Whether types of a kind have a rank and a closure. -/
def TypeKind.hasClosure : TypeKind → Bool
  | declared | error | typeVar | intersection => true
  | _ => false

def rank (fuel : Nat) (t : TypeId) : Query Nat := do
  let kind ← typeKind t
  if kind.hasClosure then
    rankFrom fuel [] t
  else
    throw (.undefinedRelation "rank" kind)

/-- The qualified name of the element that a type belongs to. -/
def TypeNode.qualifiedName (n : TypeNode) : Build String := do
  match ← n.elementOf with
  | some e => JavaTypes.qualifiedName e
  | none => return ""

def ClosureOrder.before : ClosureOrder → String → String → Bool
  | nameAscending, a, b => a < b
  | nameDescending, a, b => b < a

def precedes (fuel : Nat) (t s : TypeId) : Query Bool := do
  let (t, m) ← viewType t
  let (s, n) ← viewType s
  match m.kind, n.kind with
  | .typeVar, .typeVar => Action.both (return t ≠ s) (isSubtypeNoCapture fuel t s)
  | .typeVar, _ => return true
  | _, .typeVar => return false
  | k, k' =>
      if k.isDeclaredLike && k'.isDeclaredLike then
        let rankT ← rankFrom fuel [] t
        let rankS ← rankFrom fuel [] s
        if rankT = rankS then
          let nameT ← m.qualifiedName
          let nameS ← n.qualifiedName
          return (← config).closureOrder.before nameT nameS
        else
          return rankT > rankS
      else
        return false

end JavaTypes
