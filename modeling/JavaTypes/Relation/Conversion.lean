import JavaTypes.Relation.Levels

/-!
# Conversion and assignment

* `isSubtypeUnchecked`: subtyping that also accepts a raw type where an instance of it is expected;
* `isConvertible`: the same with boxing and unboxing between primitive and reference types;
* `isAssignable`: the same type, or convertible;
* `boxedClass`, `unboxedType`: the two directions of boxing.
-/

namespace JavaTypes

/-! ### Boxing -/

/-- The class that values of a kind are boxed to, as the host sees it. -/
def boxClassOf (k : TypeKind) : Query (Option ElementId) :=
  match k.primitive? with
  | some p => typeElement p.boxName
  | none => return none

def boxedClass (k : TypeKind) : Query (Option ElementId) :=
  if k.isPrimitive then boxClassOf k else throw (.typeKind "boxed_class" k)

def boxedType (k : TypeKind) : Query (Option TypeId) := do
  match ← boxedClass k with
  | some e => elementType e
  | none => return none

/-- The first primitive type of a list whose box is among the supertypes of a type. -/
def unboxAmong (fuel : Nat) (t : TypeId) : List Primitive → Query (Option TypeId)
  | [] => return none
  | p :: ps => do
      match ← boxedClass (.primitive p) with
      | none => unboxAmong fuel t ps
      | some e =>
          match ← asSuper fuel t e with
          | some _ => return some (TypeId.primitive p)
          | none => unboxAmong fuel t ps

def unboxedType (fuel : Nat) (t : TypeId) : Query (Option TypeId) := do
  let (t, n) ← viewType t
  match n.kind with
  | .declared | .typeVar | .intersection => unboxAmong fuel t Primitive.all
  | _ => return none

/-! ### Conversion -/

/-- Whether a type is a raw form of the element that declares the type `n`. -/
def isRawFormOf (fuel : Nat) (t s : TypeId) (n : TypeNode) : Query Bool := do
  let asked ← Action.both (return n.kind = .declared) (do return !(← isRaw fuel s))
  if asked then
    match ← n.elementOf with
    | none => return false
    | some e =>
        match ← superAt fuel t e with
        | some above => isRaw fuel above
        | none => return false
  else
    return false

/-- Whether a type is a subtype of another, where a raw type may stand for its instances. -/
def isSubtypeUnchecked : Nat → TypeId → TypeId → Query Bool
  | 0, _, _ => throw .exhausted
  | fuel + 1, t, s => do
      let (t, m) ← viewType t
      let (s, n) ← viewType s
      match m.shape, n.shape with
      | .array (some c), .array (some d) =>
          if (← typeKind c).isPrimitive then sameType fuel c d else isSubtypeUnchecked fuel c d
      | .array _, .array _ => return false
      | _, _ =>
          Action.either (subtype fuel true t s) do
            if m.kind = .typeVar then
              isSubtypeUnchecked fuel (← upperBound t) s
            else
              isRawFormOf fuel t s n

/-- Whether a type that may be absent is a subtype of another. -/
def subtypeIfAny (fuel : Nat) (t : Option TypeId) (s : TypeId) : Query Bool :=
  match t with
  | some t => subtype fuel true t s
  | none => return false

def isConvertible (fuel : Nat) (t s : TypeId) : Query Bool := do
  let k ← typeKind t
  if k = .error then
    return true
  else
    let k' ← typeKind s
    if k.isPrimitive = k'.isPrimitive then
      isSubtypeUnchecked fuel t s
    else if k.isPrimitive then
      subtypeIfAny fuel (← boxedType k) s
    else
      subtypeIfAny fuel (← unboxedType fuel t) s

def isAssignable (fuel : Nat) (t s : TypeId) : Query Bool :=
  answeredBy (fun h => h.isAssignable t s) <|
    Action.either (sameType fuel t s) (isConvertible fuel t s)

end JavaTypes
