import JavaTypes.Store

/-!
# Edits of types

A type is made empty and then filled in. `TypeEdit` lists the ways of filling one in, and
`TypeEdit.applyTo` says what each does to a node, or why it is refused. The rules are tried in this
order: types that are shared, or that stand for an error, never change; the type must be of a kind
that has the part; a type is not a part of itself; the part must be of a kind that can stand there;
a part that is there already can only be given again.

The kind of a part that is still deferred is not known, and is not tested.

`makeShape` makes a type and fills it in. The constructors at the end are all made by it. A type
whose filling in is refused stays in the store as far as it was filled in.
-/

namespace JavaTypes

/-! ### What can stand where -/

namespace TypeKind

/-- The kinds of array components and of parameters. -/
def isComponent (k : TypeKind) : Bool :=
  k.isPrimitive || k.isNonNullReference

def isArgument (k : TypeKind) : Bool :=
  k.isNonNullReference || k == wildcard

/-- The kinds of enclosing types, receivers, superclasses and interfaces. -/
def isDeclaredOrNone (k : TypeKind) : Bool :=
  k.isDeclaredLike || k == noType .none

def isResult (k : TypeKind) : Bool :=
  k == noType .void || k.isComponent

end TypeKind

namespace Store

/-- Refuse a type that is known to be of the wrong kind. -/
def admitType (s : Store) (operation : String) (accepts : TypeKind → Bool) (t : TypeId) :
    Except Fault Unit :=
  match s.peekTypeKind t with
  | some k => if accepts k then .ok () else .error (.typeKind operation k)
  | none => .ok ()

def admitElement (s : Store) (operation : String) (accepts : ElementKind → Bool)
    (e : ElementId) : Except Fault Unit :=
  match s.peekElementKind e with
  | some k => if accepts k then .ok () else .error (.elementKind operation k)
  | none => .ok ()

/-- Refuse a type that is known to be the owner of the part. -/
def refuseSelf (s : Store) (owner part : TypeId) (field : String) : Except Fault Unit :=
  if (s.peekType part).map Prod.fst = some owner then .error (.selfReference field) else .ok ()

end Store

/-- Give a part that can be given once, where `same` tells whether it is given again. -/
def setOnceBy {α : Type} (same : α → α → Bool) (field : String) (old : Option α) (new : α) :
    Except Fault (Option α) :=
  match old with
  | none => .ok (some new)
  | some v => if same v new then .ok (some v) else .error (.alreadySet field)

def setOnce {α : Type} [BEq α] (field : String) (old : Option α) (new : α) :
    Except Fault (Option α) :=
  setOnceBy (· == ·) field old new

/-- Refuse to give a part that is there already with another value. -/
def checkOnce {α : Type} [BEq α] (field : String) (old : Option α) (new : α) :
    Except Fault Unit :=
  match old with
  | none => .ok ()
  | some v => if v == new then .ok () else .error (.alreadySet field)

/-- Whether the type with this handle and shape never changes. -/
def TypeShape.isFrozen (t : TypeId) : TypeShape → Bool
  | primitive _ | noType _ | null | error _ => true
  | union _ => t == TypeId.emptyUnion
  | _ => false

/-! ### Edits -/

inductive TypeEdit
  | component (t : TypeId)
  | definingElement (e : ElementId)
  | enclosing (t : TypeId)
  | argument (t : TypeId)
  | erased (value : Bool)
  | parameter (t : TypeId)
  | returnType (t : TypeId)
  | receiver (t : TypeId)
  | thrown (t : TypeId)
  | typeVariable (t : TypeId)
  | intersectionBound (t : TypeId)
  | unionAlternative (t : TypeId)
  | upperBound (t : TypeId)
  | lowerBound (t : TypeId)
  | capturedWildcard (t : TypeId)
  | extendsBound (t : TypeId)
  | superBound (t : TypeId)
  | annotate (a : AnnotationUse)

namespace TypeEdit

def operation : TypeEdit → String
  | component _ => "set_component_type"
  | definingElement _ => "set_defining_element"
  | enclosing _ => "set_enclosing_type"
  | argument _ => "add_type_argument"
  | erased _ => "set_erased"
  | parameter _ => "add_parameter_type"
  | returnType _ => "set_return_type"
  | receiver _ => "set_receiver_type"
  | thrown _ => "add_thrown_type"
  | typeVariable _ => "add_executable_type_variable"
  | intersectionBound _ => "add_intersection_bound"
  | unionAlternative _ => "add_union_alternative"
  | upperBound _ => "set_upper_bound"
  | lowerBound _ => "set_lower_bound"
  | capturedWildcard _ => "set_captured_wildcard"
  | extendsBound _ => "set_extends_bound"
  | superBound _ => "set_super_bound"
  | annotate _ => "add_type_annotation"

/-- What an edit does to the shape of the type `owner`. -/
def reshape (s : Store) (owner : TypeId) (edit : TypeEdit) (shape : TypeShape) :
    Except Fault TypeShape :=
  match edit, shape with
  | .component t, .array c => do
      s.refuseSelf owner t "component type"
      s.admitType edit.operation TypeKind.isComponent t
      return .array (← setOnce "component type" c t)
  | .definingElement e, .declared d => do
      s.admitElement edit.operation ElementKind.isType e
      return .declared { d with element := ← setOnce "element" d.element e }
  | .definingElement e, .typeVar v => do
      s.admitElement edit.operation (· == .typeParameter) e
      return .typeVar { v with element := ← setOnce "element" v.element e }
  | .enclosing t, .declared d => do
      s.refuseSelf owner t "enclosing type"
      s.admitType edit.operation TypeKind.isDeclaredOrNone t
      return .declared { d with enclosing := ← setOnce "enclosing type" d.enclosing t }
  | .argument t, .declared d => do
      if d.erased = some true then throw .erasedArguments
      s.refuseSelf owner t "type argument"
      s.admitType edit.operation TypeKind.isArgument t
      return .declared { d with arguments := d.arguments ++ [t] }
  | .erased value, .declared d => do
      if value && !d.arguments.isEmpty then throw .erasedArguments
      return .declared { d with erased := ← setOnce "erased" d.erased value }
  | .parameter t, .executable x => do
      s.admitType edit.operation TypeKind.isComponent t
      return .executable { x with parameters := x.parameters ++ [t] }
  | .returnType t, .executable x => do
      s.admitType edit.operation TypeKind.isResult t
      return .executable { x with returnType := ← setOnce "return type" x.returnType t }
  | .receiver t, .executable x => do
      s.admitType edit.operation TypeKind.isDeclaredOrNone t
      return .executable { x with receiver := ← setOnce "receiver type" x.receiver t }
  | .thrown t, .executable x => do
      s.admitType edit.operation TypeKind.isNonNullReference t
      return .executable { x with thrown := x.thrown ++ [t] }
  | .typeVariable t, .executable x => do
      s.admitType edit.operation (· == .typeVar) t
      return .executable { x with typeVariables := x.typeVariables ++ [t] }
  | .intersectionBound t, .intersection bs => do
      s.refuseSelf owner t "intersection bound"
      s.admitType edit.operation TypeKind.isNonNullReference t
      return .intersection (bs ++ [t])
  | .unionAlternative t, .union bs => do
      s.refuseSelf owner t "union alternative"
      s.admitType edit.operation TypeKind.isNonNullReference t
      return .union (bs ++ [t])
  | .upperBound t, .typeVar v => do
      s.refuseSelf owner t "upper bound"
      s.admitType edit.operation TypeKind.isNonNullReference t
      return .typeVar { v with upper := ← setOnce "upper bound" v.upper t }
  | .lowerBound t, .typeVar v => do
      s.refuseSelf owner t "lower bound"
      s.admitType edit.operation TypeKind.isReference t
      return .typeVar { v with lower := ← setOnce "lower bound" v.lower t }
  | .capturedWildcard t, .typeVar v => do
      s.admitType edit.operation (· == .wildcard) t
      return .typeVar { v with capturedFrom := ← setOnce "captured wildcard" v.capturedFrom t }
  | .extendsBound t, .wildcard w => do
      if w.lower.isSome then throw (.alreadySet "wildcard bound")
      s.refuseSelf owner t "extends bound"
      s.admitType edit.operation TypeKind.isNonNullReference t
      return .wildcard { w with upper := ← setOnce "extends bound" w.upper t }
  | .superBound t, .wildcard w => do
      if w.upper.isSome then throw (.alreadySet "wildcard bound")
      s.refuseSelf owner t "super bound"
      s.admitType edit.operation TypeKind.isNonNullReference t
      return .wildcard { w with lower := ← setOnce "super bound" w.lower t }
  | edit, shape => .error (.typeKind edit.operation shape.kind)

/-- What an edit does to the node of the type `owner`. -/
def applyTo (s : Store) (owner : TypeId) (n : TypeNode) (edit : TypeEdit) :
    Except Fault TypeNode :=
  if n.shape.isFrozen owner then
    .error (.frozen n.kind)
  else
    match edit with
    | .annotate a => .ok { n with annotations := n.annotations ++ [a] }
    | edit => do return { n with shape := ← edit.reshape s owner n.shape }

end TypeEdit

def editTypeNode (owner : TypeId) (n : TypeNode) (edit : TypeEdit) : Build TypeNode :=
  fun s =>
    match edit.applyTo s owner n with
    | .ok n' => (.ok n', s.setTypeNode owner n')
    | .error f => (.error f, s)

/-- Fill in a type whose node is known, edit by edit. -/
def editTypeNodeAll (owner : TypeId) : TypeNode → List TypeEdit → Build Unit
  | _, [] => return ()
  | n, edit :: edits => do
      let n' ← editTypeNode owner n edit
      editTypeNodeAll owner n' edits

/-! ### Construction -/

namespace TypeShape

def blank : TypeShape → TypeShape
  | array _ => array none
  | declared _ => declared {}
  | error _ => error none
  | executable _ => executable {}
  | intersection _ => intersection []
  | typeVar _ => typeVar {}
  | union _ => union []
  | wildcard _ => wildcard {}
  | shape => shape

/-- The edits that give a type the parts of a shape, in the order in which they are made. -/
def edits : TypeShape → List TypeEdit
  | array c => (c.map .component).toList
  | declared d =>
      (d.element.map .definingElement).toList ++ (d.enclosing.map .enclosing).toList ++
        d.arguments.map .argument ++ (d.erased.map .erased).toList
  | executable x =>
      x.typeVariables.map .typeVariable ++ x.parameters.map .parameter ++
        (x.returnType.map .returnType).toList ++ (x.receiver.map .receiver).toList ++
        x.thrown.map .thrown
  | intersection bs => bs.map .intersectionBound
  | typeVar v =>
      (v.element.map .definingElement).toList ++ (v.upper.map .upperBound).toList ++
        (v.lower.map .lowerBound).toList ++ (v.capturedFrom.map .capturedWildcard).toList
  | union bs => bs.map .unionAlternative
  | wildcard w => (w.upper.map .extendsBound).toList ++ (w.lower.map .superBound).toList
  | _ => []

end TypeShape

/-- Make a type of a kind and give it the parts of a shape, one after the other. -/
def makeShape (shape : TypeShape) : Build TypeId := do
  let n : TypeNode := { shape := shape.blank }
  let t ← makeType n
  editTypeNodeAll t n shape.edits
  return t

def arrayType (component : TypeId) : Build TypeId :=
  makeShape (.array (some component))

def declaredType (enclosing : Option TypeId) (element : ElementId) (arguments : List TypeId) :
    Build TypeId :=
  makeShape (.declared { element := element, enclosing := enclosing, arguments := arguments })

def wildcardType (upper lower : Option TypeId) : Build TypeId :=
  makeShape (.wildcard { upper := upper, lower := lower })

def intersectionType (bounds : List TypeId) : Build TypeId :=
  makeShape (.intersection bounds)

/-- The union of the given alternatives. The empty union is shared. -/
def unionType (alternatives : List TypeId) : Build TypeId :=
  if alternatives.isEmpty then
    return TypeId.emptyUnion
  else
    makeShape (.union alternatives)

def errorType (element : Option ElementId) : Build TypeId :=
  makeType { shape := .error element }

/-- The kinds of types that are made empty and filled in. -/
inductive BlankType
  | array
  | declared
  | executable
  | intersection
  | typeVar
  | union
  | wildcard
  deriving DecidableEq, Repr

def BlankType.shape : BlankType → TypeShape
  | array => .array none
  | declared => .declared {}
  | executable => .executable {}
  | intersection => .intersection []
  | typeVar => .typeVar {}
  | union => .union []
  | wildcard => .wildcard {}

def blankType (b : BlankType) : Build TypeId :=
  makeType { shape := b.shape }

end JavaTypes
