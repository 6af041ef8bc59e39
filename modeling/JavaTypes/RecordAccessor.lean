import JavaTypes.Equality

/-!
# Accessors of record components

Every component of a record has an accessor: a public method of the record, neither static nor
with parameters, that has the name of the component and returns its type.
-/

namespace JavaTypes

/-- The first thing wrong with a method as the accessor of a component, as far as the two elements
themselves show it. -/
def accessorFlaw? (component method : ElementNode) : Option AccessorFlaw :=
  if method.kind ≠ .executable .method then some .notMethod
  else if !method.hasModifier .publicAccess then some .notPublic
  else if method.hasModifier .static then some .isStatic
  else if !method.parameters.isEmpty then some .takesParameters
  else if component.name ≠ method.name then some .otherName
  else none

/-- The return type that the type of a method gives. -/
def statedReturnType (method : ElementNode) : Build (Option TypeId) := do
  match method.type with
  | some t => return (← typeNode t).returnType
  | none => return none

/-- Whether the component has a type, the method returns one, and the two are equal. -/
def returnsComponentType (fuel : Nat) (component method : ElementNode) : Build Bool := do
  match component.type, ← statedReturnType method with
  | some expected, some actual => Equality.types ⟨false⟩ fuel expected actual
  | _, _ => return false

/-- Whether the two elements, as far as both are members of something, are members of the same
element. -/
def sameOwner (component method : ElementNode) : Build Bool := do
  match component.enclosing, method.enclosing with
  | some record, some owner => return (← resolveElement record) = (← resolveElement owner)
  | _, _ => return true

/-- Test whether a method can be the accessor of a component. `fuel` is for the comparison of the two
types. -/
def checkAccessor (fuel : Nat) (component method : ElementNode) : Build Unit := do
  match accessorFlaw? component method with
  | some flaw => throw (.accessor flaw)
  | none =>
      let sameType ← returnsComponentType fuel component method
      Action.onlyIf (!sameType) (throw (.accessor .otherType))
      let sameRecord ← sameOwner component method
      Action.onlyIf (!sameRecord) (throw (.accessor .otherRecord))

/-- Give a record component its accessor. `fuel` is for the comparison of the two types. -/
def setAccessor (fuel : Nat) (component accessor : ElementId) : Build Unit := do
  let (component, n) ← viewElement component
  match n.detail with
  | .recordComponent old =>
      let method ← elementNode accessor
      checkAccessor fuel n method
      let new ← Action.ofExcept (setOnce "accessor" old accessor)
      modify fun s => s.setElementNode component { n with detail := .recordComponent new }
  | detail => throw (.elementKind "set_accessor" detail.kind)

end JavaTypes
