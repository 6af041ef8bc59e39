/-!
# Settings

The settings of a session, how they are read, and how they are described to others.

* `Config`: the settings, with their usual values;
* `Config.ofFields?`, `Config.ofList?`: settings from named fields, or from their values in order. Fields
  that are left out have their usual values; an unknown field or a value of the wrong sort is
  refused;
* `Config.schema`: the description of the fields, as a JSON schema.
-/

namespace JavaTypes

/-- The order of types in a closure that are equally far from `Object`. -/
inductive ClosureOrder
  | nameAscending
  | nameDescending
  deriving DecidableEq, Repr

structure Config where
  /-- Whether annotations count when types and elements are compared. -/
  includeAnnotations : Bool := false
  closureOrder : ClosureOrder := .nameAscending
  /-- Whether the first type is captured when it is asked to be a subtype. -/
  captureInSubtyping : Bool := true
  deriving DecidableEq, Repr

/-- The value of a setting as it is written down. -/
inductive Setting
  | flag (value : Bool)
  | word (value : String)
  | other
  deriving DecidableEq, Repr

def Setting.flag? : Setting → Option Bool
  | flag value => some value
  | _ => none

def Setting.order? : Setting → Option ClosureOrder
  | word "name_ascending" => some .nameAscending
  | word "name_descending" => some .nameDescending
  | _ => none

def ClosureOrder.word : ClosureOrder → String
  | nameAscending => "name_ascending"
  | nameDescending => "name_descending"

namespace Config

def setField? (c : Config) (name : String) (value : Setting) : Option Config :=
  match name with
  | "include_annotations" => value.flag?.map fun v => { c with includeAnnotations := v }
  | "closure_order" => value.order?.map fun v => { c with closureOrder := v }
  | "capture_in_subtyping" => value.flag?.map fun v => { c with captureInSubtyping := v }
  | _ => none

def setFields? (c : Config) : List (String × Setting) → Option Config
  | [] => some c
  | (name, value) :: rest => do (← c.setField? name value).setFields? rest

def ofFields? (fields : List (String × Setting)) : Option Config :=
  setFields? {} fields

def fieldNames : List String :=
  ["include_annotations", "closure_order", "capture_in_subtyping"]

/-- Read settings from the values of the first fields. -/
def ofList? (values : List Setting) : Option Config :=
  if values.length ≤ fieldNames.length then ofFields? (fieldNames.zip values) else none

/-- The description of the fields, as a JSON schema. -/
def schema : String :=
  "\x7b\"$schema\":\"http://json-schema.org/draft-07/schema#\",\"additionalProperties\":false," ++
    "\"definitions\":\x7b\"ClosureOrder\":\x7b\"description\":\"Tie-break direction " ++
    "for closure entries of equal rank.\",\"oneOf\":[\x7b\"description\":\"Lexicographically " ++
    "smaller qualified names come first.\",\"enum\":[\"name_ascending\"]," ++
    "\"type\":\"string\"\x7d,\x7b\"description\":\"Lexicographically larger " ++
    "qualified names come first (the older runtime behaviour).\"," ++
    "\"enum\":[\"name_descending\"],\"type\":\"string\"\x7d]\x7d\x7d,\"description\":\"Settings " ++
    "for one [`crate::Visitors`] session.\",\"properties\":\x7b" ++
    "\"capture_in_subtyping\":\x7b\"default\":true," ++
    "\"description\":\"Whether `is_subtype` applies capture conversion " ++
    "to the subtype before comparing.\\n\\n`is_subtype_no_capture` " ++
    "never captures regardless of this setting.\",\"type\":\"boolean\"\x7d," ++
    "\"closure_order\":\x7b\"allOf\":[\x7b\"$ref\":\"#/definitions/ClosureOrder\"\x7d]," ++
    "\"default\":\"name_ascending\"\x7d,\"include_annotations\":\x7b\"default\":false," ++
    "\"description\":\"Whether type annotations participate in node " ++
    "equality.\",\"type\":\"boolean\"\x7d\x7d,\"title\":\"VisitorsConfig\",\"type\":\"object\"\x7d"

end Config

end JavaTypes
