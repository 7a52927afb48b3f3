import PipelineStacks.Yaml.Document
import PipelineStacks.Yaml.Plain

/-!
# The value of a document

`Document.value` gives nodes their values: plain scalars by their spelling, others by their text,
aliases by the node that they stand for.  Collections nest at most 128 deep, a number of aliases
that grows with the document may be followed, and a mapping has each of its keys once.
-/

namespace PipelineStacks.Yaml

/-- Why nodes have no value. -/
inductive Unresolved
  | invalidScalar (text : String)
  | tooDeep
  | tooManyAliases
  | unknownAlias
  | duplicateKey
deriving DecidableEq, Repr

/-- The wording of a failure. -/
def Unresolved.message : Unresolved → String
  | .invalidScalar text => "invalid value: string \"" ++ text ++ "\""
  | .tooDeep => "recursion limit exceeded"
  | .tooManyAliases => "repetition limit exceeded"
  | .unknownAlias => "unknown anchor"
  | .duplicateKey => "duplicate entry with the same key"

namespace Resolve

/-- Reads nodes; the state is the number of aliases that may yet be followed. -/
abbrev Reader := StateT Nat (Except Unresolved)

/-- The node itself, or the one that an alias stands for. -/
def follow (d : Document) (n : Node) : Reader Node :=
  match n with
  | .alias anchor => fun left =>
    match left, d.target? anchor with
    | 0, _ => .error .tooManyAliases
    | _, none => .error .unknownAlias
    | left + 1, some n => .ok (n, left)
  | n => pure n

/-- Whether the node is an alias. -/
def isAlias : Node → Bool
  | .alias _ => true
  | _ => false

/-- What precedes a node that is no alias. -/
def propertiesOf : Node → Properties
  | .scalar p _ _ | .sequence p _ | .mapping p _ => p
  | .alias _ => {}

/-- The text of a tag that belongs to the document and not to the standard. -/
def localTag? (p : Properties) : Option String :=
  match p.tag.map String.toList with
  | some ['!'] => some "!"
  | some ('!' :: rest) => some (String.ofList rest)
  | _ => none

/-- The value of a scalar whose tag is none of the document's own.  Tags of the standard ask for a
kind of value; any other makes the text stand for itself. -/
def scalar (tag : Option String) (text : String) (plain : Bool) : Except Unresolved Value :=
  let require := fun (v : Option Value) => match v with
    | some v => Except.ok v
    | none => .error (.invalidScalar text)
  match tag with
  | none => if plain then require (Plain.value? text) else .ok (.string text)
  | some tag =>
    if tag = "tag:yaml.org,2002:bool" then require ((Plain.bool? text).map .bool)
    else if tag = "tag:yaml.org,2002:int" then
      require ((Plain.taggedInt? text).map fun n => .number (.int n))
    else if tag = "tag:yaml.org,2002:float" then
      require ((Plain.float? text).map fun x => .number (.float x))
    else if tag = "tag:yaml.org,2002:null" then
      require (if Plain.isNull text then some .null else none)
    else .ok (.string text)

/-- Whether no key comes twice. -/
def keysDiffer : List (Value × Value) → Bool
  | [] => true
  | (k, _) :: es => !es.any (fun e => k.sameKey e.1) && keysDiffer es

/-- The value of a node inside of which collections may nest `depth` deep.  The tag of a node is
passed over where one of the document's own was already read; that is so for the node itself and
for the keys of a mapping. -/
def value (d : Document) (depth : Nat) (tagged : Bool) (n : Node) : Reader Value := do
  let tagged := tagged && !isAlias n
  let n ← follow d n
  let p := propertiesOf n
  let tag := if tagged then none else localTag? p
  let inner := tagged || tag.isSome
  let v ← match n, depth with
    | .scalar p text plain, _ =>
      StateT.lift (scalar (if inner then none else p.tag) text plain)
    | .sequence _ items, depth + 1 =>
      Value.sequence <$> items.mapM (value d depth false)
    | .mapping _ entries, depth + 1 => do
      let entries ← entries.mapM fun (k, v) =>
        return (← value d depth inner k, ← value d depth false v)
      if keysDiffer entries then pure (.mapping entries)
      else StateT.lift (.error .duplicateKey)
    | .alias _, _ => StateT.lift (.error .unknownAlias)
    | _, 0 => StateT.lift (.error .tooDeep)
  return match tag with
    | some tag => .tagged tag v
    | none => v

end Resolve

/-- The value of a document; null where there is no root. -/
def Document.value (d : Document) : Except Unresolved Value :=
  match d.root with
  | some n => (Resolve.value d 128 false n).run' d.aliasLimit
  | none => .ok .null

end PipelineStacks.Yaml
