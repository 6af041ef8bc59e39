import JavaTypes.Elements

/-!
# Qualified names

The qualified name of a type is its simple name after the name of the package or type that
encloses it. Packages and modules have their full name as simple name. Every other element, and a
type declared inside code, is known by its simple name.
-/

namespace JavaTypes

/-- Put a name after the name of what it is in. Nothing stands before a name in an unnamed
package. -/
def qualify (outer name : String) : String :=
  if outer.isEmpty then name else outer ++ "." ++ name

namespace Store

/-- The qualified name of an element, if at most the given number of elements are around one
another. -/
def qualifiedNameWithin (s : Store) : Nat → ElementNode → Except Fault String
  | 0, _ => .error .exhausted
  | fuel + 1, n =>
      match n.kind, n.enclosing with
      | .type _, some parent =>
          match s.peekElement parent with
          | none => .error (.unknownElement parent)
          | some (_, parentNode) =>
              match parentNode.kind with
              | .package | .type _ => do
                  return qualify (← s.qualifiedNameWithin fuel parentNode) n.simpleName
              | _ => .ok n.simpleName
      | _, _ => .ok n.simpleName

/-- The qualified name of an element. Elements around one another are all different, unless one
encloses itself, so there are no more of them than the store has elements. -/
def qualifiedNameOf (s : Store) (n : ElementNode) : Except Fault String :=
  s.qualifiedNameWithin (s.elements.size + 1) n

end Store

def qualifiedName (e : ElementId) : Build String := do
  let n ← elementNode e
  let s ← get
  Action.ofExcept (s.qualifiedNameOf n)

end JavaTypes
