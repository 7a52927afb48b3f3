import PipelineStacks.Text.Hex
import PipelineStacks.Yaml.Cursor
import PipelineStacks.Yaml.Token

/-!
# Anchors, tags and directives

The tokens that stand in front of a node or of a document: the name that an anchor gives, the two
parts of a tag, and the directives for the version and for tag handles.
-/

namespace PipelineStacks.Yaml

open Cursor (isBreakOrEnd isSpaceOrEnd at_)

/-! ## Anchors -/

/-- The name behind an anchor or alias indicator; something that ends a name has to follow. -/
def anchorName (c : Cursor) : Except SyntaxError (String × Cursor) :=
  let (name, c) := c.skip.run isWordChar
  let ends : List Char := ['?', ':', ',', ']', '\x7d', '%', '@', '\x60']
  if name.isEmpty || !(isSpaceOrEnd c.peek || at_ (· ∈ ends) c.peek) then
    c.fault "did not find expected alphabetic or numeric character"
  else .ok (String.ofList name, c)

/-! ## Tags -/

/-- A character of a tag as such; a verbatim tag may also hold commas and square brackets. -/
def isTagChar (verbatim : Bool) (c : Char) : Bool :=
  isWordChar c || c ∈ [';', '/', '?', ':', '@', '&', '=', '+', '$', '.', '!', '~', '*', '\'', '(',
    ')'] || (verbatim && (c = ',' || c = '[' || c = ']'))

/-- One byte written as a percent sign and two hexadecimal digits. -/
def percentByte (cs : List Char) : Option UInt8 :=
  match cs with
  | '%' :: a :: b :: _ => do
    let high ← Hex.digitValue? a
    let low ← Hex.digitValue? b
    return UInt8.ofNat (high * 16 + low)
  | _ => none

/-- The character written by the bytes at this place, the first of which tells how many there
are. -/
def percentChar (c : Cursor) : Except SyntaxError (Char × Cursor) :=
  match percentByte c.rest with
  | none => c.fault "did not find URI escaped octet"
  | some lead =>
    let n := lead.toNat
    let width := if n < 0x80 then 1 else if 0xC0 ≤ n ∧ n < 0xE0 then 2
      else if 0xE0 ≤ n ∧ n < 0xF0 then 3 else if 0xF0 ≤ n ∧ n < 0xF8 then 4 else 0
    match (List.range width).mapM fun i => percentByte (c.rest.drop (3 * i)) with
    | none => c.fault "did not find URI escaped octet"
    | some bytes =>
      match Utf8.decode bytes with
      | .ok [ch] => .ok (ch, c.skipMany (3 * width))
      | _ => c.fault "found an incorrect UTF-8 octet"

/-- The characters of a tag, escapes being read. -/
def tagChars (fuel : Nat) (verbatim : Bool) (c : Cursor) :
    Except SyntaxError (List Char × Cursor) :=
  match fuel with
  | 0 => .ok ([], c)
  | fuel + 1 =>
    match c.peek with
    | none => .ok ([], c)
    | some ch =>
      if ch = '%' then
        match percentChar c with
        | .error e => .error e
        | .ok (d, c) =>
          match tagChars fuel verbatim c with
          | .error e => .error e
          | .ok (ds, c) => .ok (d :: ds, c)
      else if isTagChar verbatim ch then
        match tagChars fuel verbatim c.skip with
        | .error e => .error e
        | .ok (ds, c) => .ok (ch :: ds, c)
      else .ok ([], c)

/-- The characters of a tag behind the head that was read already; there is at least one in all. -/
def tagText (verbatim : Bool) (head : List Char) (c : Cursor) :
    Except SyntaxError (List Char × Cursor) := do
  let (chars, c) ← tagChars (c.rest.length + 1) verbatim c
  if head.isEmpty && chars.isEmpty then c.fault "did not find expected tag URI"
  else return (head.drop 1 ++ chars, c)

/-- A tag handle: an exclamation mark, word characters, and perhaps a second mark. -/
def tagHandle (c : Cursor) : Except SyntaxError (List Char × Cursor) :=
  if !c.starts '!' then c.fault "did not find expected '!'"
  else
    let (name, c) := c.skip.run isWordChar
    if c.starts '!' then .ok ('!' :: name ++ ['!'], c.skip) else .ok ('!' :: name, c)

/-- The handle and the suffix of a tag.  The lone mark has no handle and itself as its suffix. -/
def tagToken (inFlow : Bool) (c : Cursor) : Except SyntaxError (Token × Cursor) := do
  let (handle, suffix, c) ←
    if c.peekAt 1 == some '<' then do
      let (suffix, c) ← tagText true [] (c.skipMany 2)
      if c.starts '>' then pure ([], suffix, c.skip) else c.fault "did not find the expected '>'"
    else do
      let (handle, c) ← tagHandle c
      if 1 < handle.length && handle.getLast? == some '!' then do
        let (suffix, c) ← tagText false [] c
        pure (handle, suffix, c)
      else do
        let (suffix, c) ← tagText false handle c
        if suffix.isEmpty then pure ([], ['!'], c) else pure (['!'], suffix, c)
  if isSpaceOrEnd c.peek || (inFlow && c.starts ',') then
    return (.tag (String.ofList handle) (String.ofList suffix), c)
  else c.fault "did not find expected whitespace or line break"

/-! ## Directives -/

/-- A number of at most nine digits. -/
def versionNumber (c : Cursor) : Except SyntaxError (Nat × Cursor) :=
  let (digits, c) := c.run Char.isDigit
  if digits.isEmpty then c.fault "did not find expected version number"
  else if 9 < digits.length then c.fault "found extremely long version number"
  else .ok (digits.foldl (fun n d => n * 10 + (d.toNat - 48)) 0, c)

/-- The version behind the name of its directive. -/
def versionDirective (c : Cursor) : Except SyntaxError (Token × Cursor) := do
  let (major, c) ← versionNumber (c.skipWhile isBlank)
  if !c.starts '.' then c.fault "did not find expected digit or '.' character"
  else
    let (minor, c) ← versionNumber c.skip
    return (.versionDirective major minor, c)

/-- The handle and what it stands for behind the name of their directive. -/
def tagDirective (c : Cursor) : Except SyntaxError (Token × Cursor) := do
  let (handle, c) ← tagHandle (c.skipWhile isBlank)
  if handle ≠ ['!'] ∧ (handle.length = 1 ∨ handle.getLast? ≠ some '!') then
    c.fault "did not find expected '!'"
  else if !at_ isBlank c.peek then c.fault "did not find expected whitespace"
  else
    let (expansion, c) ← tagText true [] (c.skipWhile isBlank)
    if isSpaceOrEnd c.peek then
      return (.tagDirective (String.ofList handle) (String.ofList expansion), c)
    else c.fault "did not find expected whitespace or line break"

/-- A directive with the rest of its line. -/
def directive (c : Cursor) : Except SyntaxError (Token × Cursor) := do
  let (name, c) := c.skip.run isWordChar
  if name.isEmpty then c.fault "could not find expected directive name"
  else if !isSpaceOrEnd c.peek then c.fault "found unexpected non-alphabetical character"
  else
    let (token, c) ←
      if name = "YAML".toList then versionDirective c
      else if name = "TAG".toList then tagDirective c
      else c.fault "found unknown directive name"
    let c := c.skipWhile isBlank
    let c := if c.starts '#' then c.skipWhile (! isBreak ·) else c
    if isBreakOrEnd c.peek then return (token, c.skipBreak)
    else c.fault "did not find expected comment or line break"

end PipelineStacks.Yaml
