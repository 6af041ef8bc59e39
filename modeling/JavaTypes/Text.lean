import JavaTypes.View
import JavaTypes.Relation.Closure

/-!
# Texts

How types, elements and the larger parts of the model are written for a reader. Writing completes
nothing: what is still deferred is written as such.

* `Store.typeText`, `Store.elementText`: a type, to a depth, and an element;
* `Store.text`, `Session.text`, `View.text`: a summary of each.
-/

namespace JavaTypes

/-! ### Kinds -/

/-- A name without its first letter in capitals, with a line before each word. -/
def capitalTail : List Char → List Char
  | [] => []
  | c :: cs => if c.isUpper then '_' :: c :: capitalTail cs else c.toUpper :: capitalTail cs

def inCapitals (name : String) : String :=
  match name.toList with
  | [] => ""
  | c :: cs => String.ofList (c.toUpper :: capitalTail cs)

def TypeKind.word (k : TypeKind) : String :=
  inCapitals k.name

def TypeKind.ofWord? (word : String) : Option TypeKind :=
  TypeKind.all.find? fun k => k.word == word

def ElementKind.word (k : ElementKind) : String :=
  inCapitals k.name

def ElementKind.ofWord? (word : String) : Option ElementKind :=
  ElementKind.all.find? fun k => k.word == word

def Modifier.ofWord? (word : String) : Option Modifier :=
  Modifier.all.find? fun m => m.word == word

def Nesting.ofWord? (word : String) : Option Nesting :=
  Nesting.all.find? fun n => n.word == word

/-! ### Types and elements -/

def NoType.text : NoType → String
  | none => "<none>"
  | void => "<void>"
  | module => "<module>"
  | package => "<package>"

def joined (separator : String) : List String → String
  | [] => ""
  | [s] => s
  | s :: ss => s ++ separator ++ joined separator ss

/-- A list between two brackets, or nothing if it is empty. -/
def angled (items : List String) : String :=
  if items.isEmpty then "" else "<" ++ joined ", " items ++ ">"

namespace Store

/-- The qualified name of an element, as far as it has one. -/
def nameText (s : Store) (n : ElementNode) : String :=
  (s.qualifiedNameOf n).toOption.getD ""

/-- The element of a declared type. Inside another type the simple name is enough. -/
def ownerText (s : Store) (inside : Bool) (element : Option ElementId) : String :=
  match element with
  | none => "<unset>"
  | some e =>
      match s.peekElement e with
      | none => "<deferred>"
      | some (_, n) => if inside then n.simpleName else s.nameText n

def genericText (s : Store) (n : ElementNode) : String :=
  match n.enclosing with
  | none => ""
  | some generic =>
      match s.peekElement generic with
      | none => "@"
      | some (_, outer) => "@" ++ s.nameText outer

def variableText (s : Store) (element : Option ElementId) : String :=
  match element with
  | none => "<var>"
  | some e =>
      match s.peekElement e with
      | none => "<deferred>"
      | some (_, n) => n.simpleName ++ s.genericText n

def declaredText (s : Store) (text : TypeId → String) (n : TypeNode) : String :=
  let outer := n.enclosingOrNone
  let inside := (s.peekType outer).map Prod.fst ≠ some TypeId.none
  (if inside then text outer ++ "." else "") ++ s.ownerText inside n.element ++
    angled (n.arguments.map text) ++ (if n.erased then "!" else "")

def executableText (text : TypeId → String) (n : TypeNode) : String :=
  angled (n.typeVariables.map text) ++ "(" ++ joined ", " (n.parameters.map text) ++ ")->" ++
    text n.returnOrVoid ++
    (if n.receiverOrNone = TypeId.none then "" else " this " ++ text n.receiverOrNone) ++
    (if n.thrown.isEmpty then "" else " throws " ++ joined ", " (n.thrown.map text))

def nodeText (s : Store) (text : TypeId → String) (n : TypeNode) : String :=
  match n.shape with
  | .primitive p => p.keyword
  | .noType k => k.text
  | .null => "<null>"
  | .array (some component) => text component ++ "[]"
  | .array none => "<unset>[]"
  | .declared _ => s.declaredText text n
  | .error _ => "error:" ++ s.declaredText text n
  | .executable _ => executableText text n
  | .intersection bounds => "(" ++ joined " & " (bounds.map text) ++ ")"
  | .union alternatives => "(" ++ joined " | " (alternatives.map text) ++ ")"
  | .typeVar v => s.variableText v.element
  | .wildcard w =>
      "?" ++ (w.upper.map fun t => " extends " ++ text t).getD "" ++
        (w.lower.map fun t => " super " ++ text t).getD ""

/-- A type, with types inside one another up to a depth. -/
def typeTextTo (s : Store) : Nat → TypeId → String
  | 0, t => if (s.peekType t).isSome then "..." else "<deferred>"
  | depth + 1, t =>
      match s.peekType t with
      | none => "<deferred>"
      | some (_, n) => s.nodeText (s.typeTextTo depth) n

def typeText (s : Store) (t : TypeId) : String :=
  s.typeTextTo 6 t

def elementText (s : Store) (e : ElementId) : String :=
  match s.peekElement e with
  | none => "<deferred>"
  | some (_, n) => n.kind.word ++ " " ++ s.nameText n

end Store

/-! ### Summaries -/

def fieldsText (name : String) (fields : List (String × String)) (more : Bool) : String :=
  let items := fields.map fun (field, value) => field ++ ": " ++ value
  name ++ " \x7b " ++ joined ", " (if more then items ++ [".."] else items) ++ " \x7d"

def flagText (b : Bool) : String :=
  if b then "true" else "false"

def ClosureOrder.name : ClosureOrder → String
  | nameAscending => "NameAscending"
  | nameDescending => "NameDescending"

def Config.text (c : Config) : String :=
  fieldsText "VisitorsConfig"
    [("include_annotations", flagText c.includeAnnotations),
      ("closure_order", c.closureOrder.name),
      ("capture_in_subtyping", flagText c.captureInSubtyping)] false

def Store.text (s : Store) : String :=
  fieldsText "Model"
    [("types", toString s.types.size), ("elements", toString s.elements.size)] false

def Store.sourceText (s : Store) : String :=
  fieldsText "MemorySource"
    [("model", s.text), ("registered", toString s.registry.size)] false

/-- The settings of a session, and how many closures it remembers. -/
def Session.text (s : Session) : String :=
  fieldsText "Visitors"
    [("config", s.config.text), ("closures", toString s.memo.closures.length)] true

def Equality.viewsText (q : Equality) : String :=
  fieldsText "Delegates"
    [("equality",
      fieldsText "Equality" [("include_annotations", flagText q.includeAnnotations)] false)] true

/-- A view: its handle, and its node if that is known. -/
def View.text {κ : Type} (name : String) (handleText : κ → String) (v : View κ) : String :=
  fieldsText name
    [("handle", handleText v.handle),
      ("resolved", (v.target.map handleText).getD "<pending>")] false

def typeViewText (v : View TypeId) : String :=
  v.text "DelegatingType" TypeId.text

def elementViewText (v : View ElementId) : String :=
  v.text "DelegatingElement" ElementId.text

end JavaTypes
