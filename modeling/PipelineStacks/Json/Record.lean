import PipelineStacks.Json.Basic

/-!
# Records as values

A record is written as an object of its fields, and may be read from an object, where unknown
fields are ignored, or from a list of its fields in declared order.  `Json.row?` brings both forms
to one: a list with the value of each field, if there is one.  A field is then required, has a
default when it is absent, or is optional, absent and null being the same.
-/

namespace PipelineStacks.Json

/-- The values of the named fields.  A list holds at least `least` of them, and no more than
there are. -/
def row? (names : List String) (least : Nat) : Json → Option (List (Option Json))
  | .obj fields => some (names.map fun name => Fields.get? name fields)
  | .arr items =>
    if least ≤ items.length ∧ items.length ≤ names.length then
      some (items.map some ++ List.replicate (names.length - items.length) none)
    else none
  | _ => none

/-- A field that has to be there. -/
def required {α : Type} (read : Json → Option α) : Option Json → Option α
  | some v => read v
  | none => none

/-- A field with a default for when it is absent. -/
def defaulted {α : Type} (value : α) (read : Json → Option α) : Option Json → Option α
  | some v => read v
  | none => some value

/-- A field that may be absent or null. -/
def optional {α : Type} (read : Json → Option α) : Option Json → Option (Option α)
  | none => some none
  | some .null => some none
  | some v => (read v).map some

/-- A list, each item of which can be read. -/
def list? {α : Type} (read : Json → Option α) : Json → Option (List α)
  | .arr items => items.mapM read
  | _ => none

/-- One of some words, alone or as the name of a field with no value. -/
def word? : Json → Option String
  | .str s => some s
  | .obj [(name, .null)] => some name
  | _ => none

/-- The field that an optional value makes. -/
def fieldOf {α : Type} (name : String) (write : α → Json) : Option α → List (String × Json)
  | some v => [(name, write v)]
  | none => []

end PipelineStacks.Json
