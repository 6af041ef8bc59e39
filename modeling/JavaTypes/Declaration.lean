import JavaTypes.QualifiedName
import JavaTypes.RecordAccessor

/-!
# Declarations

The usual ways of adding a declaration to a store: make the element, name it, make it a member of
what encloses it, give it its type and, for a type, register it under its qualified name.

* `declareModule`, `declarePackage`, `declareType`, `declareTypeParameter`, `declareMethod`,
  `declareField`, `declareRecordComponent`;
* `register`: let a type element be found by its qualified name;
* `lazyTypeElement`, `lazyDeclaredType`: handles of types that may be registered later.

A declaration that is refused half-way stays in the store as far as it was made.
-/

namespace JavaTypes

/-! ### Modules, packages and names -/

def declareModule (name : String) : Build ElementId := do
  let e ← newNamedElement .module name
  setElementType e (.noType .module)
  return e

/-- Declare a package, by its full name, inside a module or outside of all modules. -/
def declarePackage (module? : Option ElementId) (name : String) : Build ElementId := do
  let e ← newNamedElement .package name
  setElementType e (.noType .package)
  if let some m := module? then
    attach .enclosed m e
  return e

/-- The name of the innermost module around an element, if at most the given number of elements
are around one another. -/
def Store.moduleWithin (s : Store) : Nat → ElementNode → Except Fault (Option String)
  | 0, _ => .error .exhausted
  | fuel + 1, n =>
      match n.enclosing with
      | none => .ok none
      | some parent =>
          match s.peekElement parent with
          | none => .error (.unknownElement parent)
          | some (_, parentNode) =>
              if parentNode.kind = .module then
                .ok (some parentNode.simpleName)
              else
                s.moduleWithin fuel parentNode

/-- The name of the innermost module around an element. -/
def moduleOf (e : ElementId) : Build (Option String) := do
  let n ← elementNode e
  let s ← get
  Action.ofExcept (s.moduleWithin (s.elements.size + 1) n)

/-- Let an element be found by its qualified name. -/
def register (e : ElementId) : Build Unit := do
  let name ← qualifiedName e
  let module? ← moduleOf e
  modify fun s => { s with registry := s.registry.register module? name e }

/-! ### Types and type parameters -/

/-- Add a type parameter to a type, method or constructor, and answer with its variable. The
variable has no bounds yet. -/
def declareTypeParameter (generic : ElementId) (name : String) : Build TypeId := do
  let parameter ← newNamedElement .typeParameter name
  let v ← blankType .typeVar
  setElementType parameter v
  attach .typeParameter generic parameter
  let n ← elementNode generic
  match n.kind, n.type with
  | .executable _, some x => editType x (.typeVariable v)
  | _, _ => pure ()
  return v

def declareTypeParameters (generic : ElementId) : List String → Build (List TypeId)
  | [] => return []
  | name :: names => do
      let v ← declareTypeParameter generic name
      let vs ← declareTypeParameters generic names
      return v :: vs

/-- Where a type is declared, from the kind of what encloses it. -/
def Nesting.inside : ElementKind → Nesting
  | .package => .topLevel
  | .type _ => .member
  | _ => .local

/-- Declare a public type with type parameters, and register it. Its type is the declared type
over its own variables. A class inside a type is an inner class, and its type is enclosed by the
type around it. -/
def declareType (k : ElementKind) (enclosing : ElementId) (name : String)
    (typeParameters : List String) : Build ElementId := do
  if !k.isType then
    throw (.elementKind "declare_type" k)
  let e ← newNamedElement k name
  editElement e (.modifier .publicAccess)
  attach .enclosed enclosing e
  let nesting := Nesting.inside (← elementKind enclosing)
  editElement e (.nesting nesting)
  let vars ← declareTypeParameters e typeParameters
  let outer ←
    if nesting = .member ∧ k = .type .plain then elementType enclosing else pure none
  let t ← declaredType outer e vars
  setElementType e t
  register e
  return e

def declareClass (enclosing : ElementId) (name : String) (typeParameters : List String) :
    Build ElementId :=
  declareType (.type .plain) enclosing name typeParameters

def declareInterface (enclosing : ElementId) (name : String) (typeParameters : List String) :
    Build ElementId := do
  let e ← declareType (.type .interface) enclosing name typeParameters
  editElement e (.modifier .abstract)
  return e

/-- The variable of the first type parameter in a list that has a name and a variable. -/
def variableNamed (name : String) : List ElementId → Build TypeId
  | [] => throw (.missingElement name)
  | parameter :: parameters => do
      let n ← elementNode parameter
      match n.type with
      | some v => if n.simpleName = name then return v else variableNamed name parameters
      | none => variableNamed name parameters

def typeVariable (generic : ElementId) (name : String) : Build TypeId := do
  variableNamed name (← typeParameters generic)

/-- Bound a type variable from above. Several bounds are one intersection. -/
def setBounds (v : TypeId) : List TypeId → Build Unit
  | [] => return ()
  | [bound] => editType v (.upperBound bound)
  | bounds => do
      let t ← intersectionType bounds
      editType v (.upperBound t)

/-- The type of an element, which it must have. -/
def typeOf (e : ElementId) : Build TypeId := do
  match ← elementType e with
  | some t => return t
  | none => throw (.missingElement (← qualifiedName e))

/-! ### Members -/

/-- Declare the parameters of a method, and add their types to the type of the method. -/
def declareParameters (method : ElementId) (executable : TypeId) :
    List (String × TypeId) → Build Unit
  | [] => return ()
  | (name, t) :: rest => do
      let parameter ← newNamedElement (.var .parameter) name
      setElementType parameter t
      attach .parameter method parameter
      editType executable (.parameter t)
      declareParameters method executable rest

def declareMethod (owner : ElementId) (name : String) (result : TypeId)
    (parameters : List (String × TypeId)) : Build ElementId := do
  let method ← newNamedElement (.executable .method) name
  editElement method (.modifier .publicAccess)
  attach .enclosed owner method
  let executable ← blankType .executable
  declareParameters method executable parameters
  editType executable (.returnType result)
  setElementType method executable
  return method

def declareField (owner : ElementId) (name : String) (t : TypeId) : Build ElementId := do
  let field ← newNamedElement (.var .field) name
  editElement field (.modifier .publicAccess)
  setElementType field t
  attach .enclosed owner field
  return field

/-- Declare a record component together with its accessor. -/
def declareRecordComponent (fuel : Nat) (record : ElementId) (name : String) (t : TypeId) :
    Build ElementId := do
  let component ← newNamedElement .recordComponent name
  setElementType component t
  attach .enclosed record component
  let method ← declareMethod record name t []
  setAccessor fuel component method
  return component

/-! ### Later declarations -/

/-- A handle for the type element that is registered under a name when it is first needed. -/
def lazyTypeElement (name : String) : Build ElementId :=
  deferElement (.registeredElement name .give)

/-- A handle for a declared type whose element is found by name when it is first needed. -/
def lazyDeclaredType (name : String) (arguments : List TypeId) : Build TypeId :=
  deferType (.registeredElement name fun e => .newDeclared e arguments .ofExcept)

end JavaTypes
