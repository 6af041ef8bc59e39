import JavaTypes.TypeEdit

/-!
# Edits of elements

An element, like a type, is made empty and then filled in. `ElementEdit` lists the ways of filling
one in that concern the element alone; `ElementEdit.applyTo` says what each does to a node, or why
it is refused.

Two elements become container and member by one of the three ways of `Membership`. Which one is
fixed by the kind of the member (`Membership.of`): type parameters and parameters have lists of
their own, everything else is an enclosed element.
-/

namespace JavaTypes

inductive ElementEdit
  | simpleName (name : String)
  | modifier (m : Modifier)
  | annotate (a : AnnotationUse)
  | nesting (k : Nesting)
  | superclass (t : TypeId)
  | interface (t : TypeId)
  | permitted (t : TypeId)
  | varargs (value : Bool)
  | isDefault (value : Bool)
  | defaultValue (value : AnnotationValue)
  | constant (value : Constant)

namespace ElementEdit

def operation : ElementEdit → String
  | simpleName _ => "set_simple_name"
  | modifier _ => "add_modifier"
  | annotate _ => "add_element_annotation"
  | nesting _ => "set_nesting_kind"
  | superclass _ => "set_superclass"
  | interface _ => "add_interface"
  | permitted _ => "add_permitted_subclass"
  | varargs _ => "set_varargs"
  | isDefault _ => "set_default"
  | defaultValue _ => "set_default_value"
  | constant _ => "set_constant_value"

/-- The test of the edit itself, made before the element is looked at: a supertype or subtype
must be declared, or the absent type. -/
def admissible (s : Store) (edit : ElementEdit) : Except Fault Unit :=
  match edit with
  | superclass t | interface t | permitted t =>
      s.admitType edit.operation TypeKind.isDeclaredOrNone t
  | _ => .ok ()

def applyToClass (edit : ElementEdit) (k : ClassKind) (d : ClassDecl) : Except Fault ClassDecl :=
  match edit with
  | nesting new => do return { d with nesting := ← setOnce "nesting kind" d.nesting new }
  | superclass t => do return { d with superclass := ← setOnce "superclass" d.superclass t }
  | interface t => .ok { d with interfaces := d.interfaces ++ [t] }
  | permitted t => .ok { d with permitted := d.permitted ++ [t] }
  | edit => .error (.elementKind edit.operation (.type k))

def applyToExecutable (edit : ElementEdit) (k : ExecutableKind) (d : ExecutableDecl) :
    Except Fault ExecutableDecl :=
  match edit with
  | varargs value => do return { d with varargs := ← setOnce "varargs" d.varargs value }
  | isDefault value => do return { d with isDefault := ← setOnce "default" d.isDefault value }
  | defaultValue value => do
      return { d with
        defaultValue := ← setOnceBy AnnotationValue.same "default value" d.defaultValue value }
  | edit => .error (.elementKind edit.operation (.executable k))

def applyToDetail (edit : ElementEdit) : ElementDetail → Except Fault ElementDetail
  | .type k d => do return .type k (← edit.applyToClass k d)
  | .executable k d => do return .executable k (← edit.applyToExecutable k d)
  | .var k c =>
      match edit with
      | constant value => do
          return .var k (← setOnceBy Constant.same "constant value" c value)
      | edit => .error (.elementKind edit.operation (.var k))
  | detail => .error (.elementKind edit.operation detail.kind)

def applyTo (edit : ElementEdit) (n : ElementNode) : Except Fault ElementNode :=
  match edit with
  | simpleName name => do return { n with name := ← setOnce "simple name" n.name name }
  | modifier m =>
      .ok (if n.modifiers.contains m then n else { n with modifiers := n.modifiers ++ [m] })
  | annotate a => .ok { n with annotations := n.annotations ++ [a] }
  | edit => do return { n with detail := ← edit.applyToDetail n.detail }

end ElementEdit

/-! ### Membership -/

/-- A way in which one element belongs to another. -/
inductive Membership
  | enclosed
  | typeParameter
  | parameter
  deriving DecidableEq, Repr

namespace Membership

/-- The way in which elements of a kind belong to their container. -/
def of : ElementKind → Membership
  | .typeParameter => typeParameter
  | .var .parameter => parameter
  | _ => enclosed

def operation : Membership → String
  | enclosed => "add_enclosed_element"
  | typeParameter => "add_type_parameter"
  | parameter => "add_parameter"

end Membership

def insertNew {α : Type} [BEq α] (a : α) (as : List α) : List α :=
  if as.contains a then as else as ++ [a]

namespace ElementNode

def members (n : ElementNode) : Membership → List ElementId
  | .enclosed => n.enclosed
  | .typeParameter => n.typeParameters
  | .parameter => n.parameters

/-- Whether an element has a list for members of a sort. -/
def takesMembers (n : ElementNode) (role : Membership) : Bool :=
  match role, n.detail with
  | .enclosed, _ | .typeParameter, .type _ _ | .typeParameter, .executable _ _
  | .parameter, .executable _ _ => true
  | _, _ => false

def addMember (n : ElementNode) (role : Membership) (child : ElementId) : ElementNode :=
  match role, n.detail with
  | .enclosed, _ => { n with enclosed := insertNew child n.enclosed }
  | .typeParameter, .type k d =>
      { n with detail := .type k { d with typeParameters := insertNew child d.typeParameters } }
  | .typeParameter, .executable k d =>
      { n with detail :=
          .executable k { d with typeParameters := insertNew child d.typeParameters } }
  | .parameter, .executable k d =>
      { n with detail := .executable k { d with parameters := insertNew child d.parameters } }
  | _, _ => n

/-- The element as a member of `parent`, an element of kind `outer`. -/
def enclosedBy (n : ElementNode) (parent : ElementId) (outer : ElementKind) :
    Except Fault ElementNode :=
  if outer.canEnclose n.kind then do
    return { n with enclosing := ← setOnce "enclosing element" n.enclosing parent }
  else
    .error (.enclosure outer n.kind)

end ElementNode

end JavaTypes
