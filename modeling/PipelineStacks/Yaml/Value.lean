import PipelineStacks.Decimal.Shortest
import PipelineStacks.Json.Basic

/-!
# The values of documents

What a document means: dynamic values with two things more than those of the wire format have.  A
key may be any value, and a value may carry a tag.

`Value.toJson?` is the step to the wire format.  Keys that have a text become that text; a tag
becomes the one field of an object.
-/

namespace PipelineStacks.Yaml

/-- A value of a document. -/
inductive Value
  | null
  | bool (value : Bool)
  | number (value : Number)
  | string (value : String)
  | sequence (items : List Value)
  | mapping (entries : List (Value × Value))
  /-- A value with a tag of its own; the text of the tag lacks its first exclamation mark. -/
  | tagged (tag : String) (value : Value)
deriving Repr, Inhabited

/-- The value is null, whatever tags it carries. -/
def Value.isNull : Value → Bool
  | .null => true
  | .tagged _ v => v.isNull
  | _ => false

/-- Two keys that one mapping cannot have both.  Other keys than these are refused later anyway. -/
def Value.sameKey : Value → Value → Bool
  | .null, .null => true
  | .bool a, .bool b => a == b
  | .number (.int a), .number (.int b) => a == b
  | .number (.float a), .number (.float b) => a.sameNumber b
  | .string a, .string b => a == b
  | _, _ => false

/-- The name that a key becomes. -/
def Value.fieldName? : Value → Option String
  | .bool b => some (if b then "true" else "false")
  | .number (.int n) => some (toString n)
  | .number (.float x) => if x.isFinite then some (x.text .document) else none
  | .string s => some s
  | .null | .sequence _ | .mapping _ | .tagged .. => none

/-- The name of the field that a tag becomes. -/
def Value.tagField (tag : String) : String :=
  let bare := match tag.toList with
    | '!' :: c :: cs => String.ofList (c :: cs)
    | _ => tag
  "!" ++ bare

mutual

/-- The value of the wire format; none if a key has no text.  Of keys with one text the last one
counts. -/
def Value.toJson? : Value → Option Json
  | .null => some .null
  | .bool b => some (.bool b)
  | .number (.int n) => some (.num (.int n))
  | .number (.float x) => some (if x.isFinite then .num (.float x) else .null)
  | .string s => some (.str s)
  | .sequence items => (Value.toJsonItems? items).map .arr
  | .mapping entries => (Value.toJsonFields? entries).map fun fs => .obj (Fields.ofList fs)
  | .tagged tag v => v.toJson?.map fun j => .obj [(Value.tagField tag, j)]

/-- The items of an array. -/
def Value.toJsonItems? : List Value → Option (List Json)
  | [] => some []
  | v :: vs =>
    match v.toJson?, Value.toJsonItems? vs with
    | some j, some js => some (j :: js)
    | _, _ => none

/-- The fields of an object, in the order of the mapping. -/
def Value.toJsonFields? : List (Value × Value) → Option (List (String × Json))
  | [] => some []
  | (k, v) :: es =>
    match k.fieldName?, v.toJson?, Value.toJsonFields? es with
    | some name, some j, some fs => some ((name, j) :: fs)
    | _, _, _ => none

end

end PipelineStacks.Yaml
