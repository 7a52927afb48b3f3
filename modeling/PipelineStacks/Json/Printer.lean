import PipelineStacks.Json.Basic
import PipelineStacks.Decimal.Shortest
import PipelineStacks.Text.Hex

/-!
# Writing dynamic values

The compact text of a value: no blanks, fields in order, control characters escaped, floating
point numbers by their shortest digits.
-/

namespace PipelineStacks.Json

/-- A character inside of a quoted text. -/
def escape (c : Char) : List Char :=
  if c = '"' then ['\\', '"']
  else if c = '\\' then ['\\', '\\']
  else if c = '\n' then ['\\', 'n']
  else if c = '\r' then ['\\', 'r']
  else if c = '\t' then ['\\', 't']
  else if c = '\x08' then ['\\', 'b']
  else if c = '\x0c' then ['\\', 'f']
  else if c.toNat < 0x20 then '\\' :: 'u' :: Hex.ofNat 4 c.toNat
  else [c]

/-- A string between quotes. -/
def quoted (s : String) : List Char :=
  '"' :: s.toList.flatMap escape ++ ['"']

/-- A number; one that is not finite has no text and is written as no value. -/
def Number.text : Number → String
  | .int i => toString i
  | .float x => if x.isFinite then x.text .document else "null"

mutual

/-- The text of a value. -/
def print : Json → List Char
  | .null => "null".toList
  | .bool true => "true".toList
  | .bool false => "false".toList
  | .num n => (Number.text n).toList
  | .str s => quoted s
  | .arr items => '[' :: printItems items ++ [']']
  | .obj fields => '\x7b' :: printFields fields ++ ['\x7d']

/-- The texts of the items of a list, separated by commas. -/
def printItems : List Json → List Char
  | [] => []
  | [v] => print v
  | v :: vs => print v ++ ',' :: printItems vs

/-- The texts of the fields of an object, separated by commas. -/
def printFields : List (String × Json) → List Char
  | [] => []
  | [(name, v)] => quoted name ++ ':' :: print v
  | (name, v) :: fields => quoted name ++ ':' :: print v ++ ',' :: printFields fields

end

/-- The text of a value as a string. -/
def text (v : Json) : String :=
  String.ofList (print v)

end PipelineStacks.Json
