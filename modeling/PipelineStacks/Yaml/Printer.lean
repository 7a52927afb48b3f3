import PipelineStacks.Json.Printer
import PipelineStacks.Text.Chars
import PipelineStacks.Yaml.Plain

/-!
# Writing documents

The block form of a value: a field or an item a line, nested parts indented by two blanks under
their field, items of a list at the margin of their field.  A text is written plainly where that
reads back as the same text, as a literal block if it has several lines, and else in quotes.
-/

namespace PipelineStacks.Yaml.Printer

/-- The lines of a text. -/
def linesOf (s : String) : List String :=
  (Text.splitWhere (· = '\n') s.toList).map String.ofList

/-- A character that gives the text behind it a meaning of its own. -/
def isIndicator (c : Char) : Bool :=
  c ∈ ['-', '?', ':', ',', '[', ']', '{', '}', '#', '&', '*', '!', '|', '>', '\'', '"', '%', '@',
    '\x60']

/-- The text would be cut at a colon before a blank or at a number sign behind one. -/
def isCut (cs : List Char) : Bool :=
  Text.occursIn [':', ' '] cs || Text.occursIn [' ', '#'] cs || Text.endsWith [':'] cs

/-- A text of one line that can be written without quotes. -/
def isPlain (s : String) : Bool :=
  let cs := s.toList
  !cs.isEmpty && !cs.head?.any isIndicator && !isCut cs && cs.head? != some ' ' &&
    cs.getLast? != some ' ' && (Plain.value? s matches some (.string _))

/-- A text in quotes; a quote inside is written twice. -/
def quoted (s : String) : String :=
  "'" ++ String.ofList (s.toList.flatMap fun c => if c = '\'' then ['\'', '\''] else [c]) ++ "'"

/-- A text of one line. -/
def scalar (s : String) : String :=
  if isPlain s then s else quoted s

/-- A line moved to the right; an empty line stays empty. -/
def indented (line : String) : String :=
  if line = "" then line else "  " ++ line

/-- What is written for a value: on the line that it starts on, or below it. -/
inductive Written
  | inline (text : String)
  /-- The lines of a field stand to the right of it, those of a list at its margin. -/
  | below (lines : List String) (isList : Bool)
  /-- A literal block: its mark, then its lines. -/
  | block (mark : String) (lines : List String)

/-- The mark of a literal block keeps one line break at the end if the text has one. -/
def blockMark (lines : List String) : String :=
  if lines.getLast? = some "" then "|" else "|-"

/-- What is written for a text. -/
def writeText (s : String) : Written :=
  let lines := linesOf s
  match lines with
  | [_] => .inline (scalar s)
  | _ => .block (blockMark lines) (if lines.getLast? = some "" then lines.dropLast else lines)

/-- The lines of a field. -/
def fieldLines (name : String) : Written → List String
  | .inline text => [scalar name ++ ": " ++ text]
  | .below lines isList => (scalar name ++ ":") :: if isList then lines else lines.map indented
  | .block mark lines => (scalar name ++ ": " ++ mark) :: lines.map indented

/-- The lines of an item. -/
def itemLines : Written → List String
  | .inline text => ["- " ++ text]
  | .below (first :: rest) _ => ("- " ++ first) :: rest.map indented
  | .below [] _ => []
  | .block mark lines => ("- " ++ mark) :: lines.map indented

mutual

/-- What is written for a value. -/
def write : Json → Written
  | .str s => writeText s
  | .arr [] => .inline "[]"
  | .arr (v :: vs) => .below (itemLines (write v) ++ writeItems vs) true
  | .obj [] => .inline "\x7b\x7d"
  | .obj ((name, v) :: fields) => .below (fieldLines name (write v) ++ writeFields fields) false
  | .null => .inline "null"
  | .bool b => .inline (Json.text (.bool b))
  | .num n => .inline (Json.text (.num n))

/-- The lines of the items of a list. -/
def writeItems : List Json → List String
  | [] => []
  | v :: vs => itemLines (write v) ++ writeItems vs

/-- The lines of the fields of an object. -/
def writeFields : List (String × Json) → List String
  | [] => []
  | (name, v) :: fields => fieldLines name (write v) ++ writeFields fields

end

/-- The document of a value. -/
def document (v : Json) : String :=
  let lines := match write v with
    | .inline text => [text]
    | .below lines _ => lines
    | .block mark lines => mark :: lines.map indented
  String.join (lines.map (· ++ "\n"))

end PipelineStacks.Yaml.Printer
