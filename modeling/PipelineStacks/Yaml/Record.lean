import PipelineStacks.Yaml.Resolve

/-!
# Records in documents

A document whose shape is known is read without giving its scalars values: where a text is
expected, every scalar stands for its own text.  A missing collection counts as an empty one, and
the fields that a record does not know are passed over.
-/

namespace PipelineStacks.Yaml.Resolve

/-- A refusal of a node that has another shape than expected. -/
def refuse {α : Type} (text : String) : Reader α :=
  StateT.lift (.error (.invalidScalar text))

/-- A text. -/
def text (d : Document) (n : Node) : Reader String := do
  match ← follow d n with
  | .scalar _ text _ => return text
  | _ => refuse "a collection"

/-- The items of a sequence. -/
def items (d : Document) (n : Node) : Reader (List Node) := do
  match ← follow d n with
  | .sequence _ items => return items
  | .scalar _ "" true => return []
  | _ => refuse "no sequence"

/-- The values of those entries whose keys are the given names, each of which comes at most once.
The names are told apart even if the value is passed over. -/
def fieldsOf (d : Document) (names : List String) (entries : List (Node × Node)) :
    Reader (List (Option Node)) := do
  let named ← entries.mapM fun (k, v) => do return (← text d k, v)
  let known := named.filter fun e => names.contains e.1
  if (known.map (·.1)).eraseDups.length < known.length then StateT.lift (.error .duplicateKey)
  else return names.map fun name => known.lookup name

/-- The values of the named fields of a record. -/
def fields (d : Document) (names : List String) (n : Node) : Reader (List (Option Node)) := do
  match ← follow d n with
  | .mapping _ entries => fieldsOf d names entries
  | .scalar _ "" true => return names.map fun _ => none
  | _ => refuse "no mapping"

/-- The text of a field, empty if the field is absent. -/
def textField (d : Document) : Option Node → Reader String
  | some n => text d n
  | none => pure ""

/-- The items of a field, none if the field is absent. -/
def itemsField (d : Document) : Option Node → Reader (List Node)
  | some n => items d n
  | none => pure []

end PipelineStacks.Yaml.Resolve
