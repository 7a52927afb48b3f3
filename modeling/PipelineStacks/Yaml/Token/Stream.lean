import PipelineStacks.Yaml.Token.Property
import PipelineStacks.Yaml.Token.Scalar

/-!
# The tokens of a text

`Token.stream` cuts a text into tokens.  A key in its simple form is told only by the colon behind
it, so each place where one may start is kept in mind until its line ends; when the colon comes,
the tokens for the key are put in at that place.

A fault ends the tokens.  What stands behind a place that may yet become a key is not settled, so
those tokens are withheld then.
-/

namespace PipelineStacks.Yaml

open Cursor (isBreakOrEnd isSpaceOrEnd at_)

/-- A place where a key may start. -/
structure KeyStart where
  /-- The block can go on only if this is a key. -/
  required : Bool
  /-- How many tokens stand before it. -/
  number : Nat
  index : Nat
  line : Nat
  column : Nat

/-- A key has to stay on its line and to be followed by its colon within 1024 characters. -/
def KeyStart.isStale (k : KeyStart) (c : Cursor) : Bool :=
  k.line < c.line || k.index + 1024 < c.index

/-- The tokens of a text, up to its first fault. -/
structure TokenStream where
  tokens : List Token
  fault : Option SyntaxError

/-- The state in which a text is cut into tokens. -/
structure Scanner where
  cursor : Cursor
  /-- The tokens found, the last one first. -/
  found : List Token := []
  /-- The columns of the open blocks, the innermost first. -/
  indents : List Nat := []
  /-- A key may start here. -/
  keyAllowed : Bool := true
  /-- Where a key may have started in the innermost collection in flow style, or in the blocks. -/
  keyStart : Option KeyStart := none
  /-- The same for the collections around it; empty outside of flow style. -/
  outerKeyStarts : List (Option KeyStart) := []

namespace Scanner

/-- Inside of a collection in flow style. -/
def inFlow (s : Scanner) : Bool :=
  !s.outerKeyStarts.isEmpty

/-- The column of the innermost block; −1 outside of all. -/
def indent (s : Scanner) : Int :=
  match s.indents with
  | n :: _ => n
  | [] => -1

/-- Adds a token. -/
def push (s : Scanner) (t : Token) : Scanner :=
  { s with found := t :: s.found }

/-- Puts a token behind the first `number` ones. -/
def insertAt (s : Scanner) (number : Nat) (t : Token) : Scanner :=
  let later := s.found.length - number
  { s with found := s.found.take later ++ t :: s.found.drop later }

/-- A fault at the place that was reached. -/
def fault {α : Type} (s : Scanner) (problem : String) : Except SyntaxError α :=
  s.cursor.fault problem

/-! ## Keys -/

/-- Gives up one key start if it is out of reach of a colon. -/
def expire (c : Cursor) : Option KeyStart → Except SyntaxError (Option KeyStart)
  | some k =>
    if k.isStale c then
      if k.required then c.fault "could not find expected ':'" else .ok none
    else .ok (some k)
  | none => .ok none

/-- Gives up the key starts that are out of reach of a colon. -/
def expireKeys (s : Scanner) : Except SyntaxError Scanner := do
  let outer ← s.outerKeyStarts.mapM (expire s.cursor)
  let inner ← expire s.cursor s.keyStart
  return { s with keyStart := inner, outerKeyStarts := outer }

/-- What was kept in mind at this level is no key. -/
def dropKey (s : Scanner) : Except SyntaxError Scanner :=
  if s.keyStart.any (·.required) then s.fault "could not find expected ':'"
  else .ok { s with keyStart := none }

/-- Keeps in mind that a key may start here. -/
def markKey (s : Scanner) : Except SyntaxError Scanner :=
  if s.keyAllowed then do
    let c := s.cursor
    let required := !s.inFlow && s.indent == (c.column : Int)
    let s ← s.dropKey
    return { s with keyStart := some ⟨required, s.found.length, c.index, c.line, c.column⟩ }
  else .ok s

/-! ## Blocks -/

/-- Opens a block at a column that lies inside of the present one.  The token is put behind the
first `number` ones, or at the end. -/
def openBlock (s : Scanner) (column : Nat) (number : Option Nat) (t : Token) : Scanner :=
  if !s.inFlow && s.indent < (column : Int) then
    let s := { s with indents := column :: s.indents }
    match number with
    | some n => s.insertAt n t
    | none => s.push t
  else s

/-- Closes the blocks that start behind a column. -/
def closeBlocks (s : Scanner) (column : Int) : Scanner :=
  if s.inFlow then s
  else
    let closed := s.indents.takeWhile fun n : Nat => column < (n : Int)
    { s with
      indents := s.indents.drop closed.length
      found := closed.map (fun _ => Token.blockEnd) ++ s.found }

/-! ## Blanks -/

/-- Skips blanks, comments and breaks.  A tab is no blank where a key of a block may start. -/
def skipBlanks (fuel : Nat) (s : Scanner) : Scanner :=
  match fuel with
  | 0 => s
  | fuel + 1 =>
    let tabs := s.inFlow || !s.keyAllowed
    let c := s.cursor.skipWhile fun ch => ch = ' ' || (tabs && ch = '\t')
    let c := if c.starts '#' then c.skipWhile (! isBreak ·) else c
    if at_ isBreak c.peek then
      skipBlanks fuel { s with cursor := c.skipBreak, keyAllowed := s.keyAllowed || !s.inFlow }
    else { s with cursor := c }

/-! ## Single tokens -/

/-- A token of `n` characters. -/
def take (s : Scanner) (n : Nat) (t : Token) : Scanner :=
  { s with cursor := s.cursor.skipMany n, found := t :: s.found }

/-- The end of the text. -/
def finish (s : Scanner) : Except SyntaxError Scanner := do
  let c := s.cursor
  let c := if c.column = 0 then c else { c with column := 0, line := c.line + 1 }
  let s ← ({ s with cursor := c }.closeBlocks (-1)).dropKey
  return { s with keyAllowed := false }.push .streamEnd

/-- A token that stands between documents. -/
def betweenDocuments (s : Scanner) (token : Cursor → Except SyntaxError (Token × Cursor)) :
    Except SyntaxError Scanner := do
  let s ← (s.closeBlocks (-1)).dropKey
  let (t, c) ← token s.cursor
  return { s with cursor := c, keyAllowed := false }.push t

/-- The start of a collection in flow style. -/
def openFlow (s : Scanner) (t : Token) : Except SyntaxError Scanner := do
  let s ← s.markKey
  return { s with
    keyStart := none, outerKeyStarts := s.keyStart :: s.outerKeyStarts,
    keyAllowed := true }.take 1 t

/-- The end of a collection in flow style. -/
def closeFlow (s : Scanner) (t : Token) : Except SyntaxError Scanner := do
  let s ← s.dropKey
  let s := match s.outerKeyStarts with
    | k :: rest => { s with keyStart := k, outerKeyStarts := rest }
    | [] => s
  return { s with keyAllowed := false }.take 1 t

/-- The comma between the entries of a collection in flow style. -/
def flowEntry (s : Scanner) : Except SyntaxError Scanner := do
  let s ← s.dropKey
  return { s with keyAllowed := true }.take 1 .flowEntry

/-- The hyphen before an entry of a block sequence.  In flow style it is left to the grammar to
refuse it. -/
def blockEntry (s : Scanner) : Except SyntaxError Scanner := do
  if !s.inFlow && !s.keyAllowed then
    s.fault "block sequence entries are not allowed in this context"
  else
    let s ← (s.openBlock s.cursor.column none .blockSequenceStart).dropKey
    return { s with keyAllowed := true }.take 1 .blockEntry

/-- The question mark before a key. -/
def explicitKey (s : Scanner) : Except SyntaxError Scanner := do
  if !s.inFlow && !s.keyAllowed then
    s.fault "mapping keys are not allowed in this context"
  else
    let s ← (s.openBlock s.cursor.column none .blockMappingStart).dropKey
    return { s with keyAllowed := !s.inFlow }.take 1 .key

/-- The colon before a value.  It tells that a key started at the place kept in mind. -/
def valueIndicator (s : Scanner) : Except SyntaxError Scanner :=
  match s.keyStart with
  | some k =>
    let s := (s.insertAt k.number .key).openBlock k.column (some k.number) .blockMappingStart
    .ok ({ s with keyStart := none, keyAllowed := false }.take 1 .value)
  | none =>
    if !s.inFlow && !s.keyAllowed then
      s.fault "mapping values are not allowed in this context"
    else
      let s := s.openBlock s.cursor.column none .blockMappingStart
      .ok ({ s with keyAllowed := !s.inFlow }.take 1 .value)

/-- A token at which a key may start. -/
def keyCandidate (s : Scanner) (token : Cursor → Except SyntaxError (Token × Cursor)) :
    Except SyntaxError Scanner := do
  let s ← s.markKey
  let (t, c) ← token s.cursor
  return { s with cursor := c, keyAllowed := false }.push t

/-- A scalar as a block. -/
def block (s : Scanner) (literal : Bool) : Except SyntaxError Scanner := do
  let s ← s.dropKey
  let (text, c) ← blockScalar s.indent literal s.cursor
  return { s with cursor := c, keyAllowed := true }.push (.scalar text false)

/-- A scalar between quotes. -/
def quoted (s : Scanner) (quote : Char) : Except SyntaxError Scanner :=
  s.keyCandidate fun c => do
    let (text, c) ← quotedScalar quote c
    return (.scalar text false, c)

/-- A plain scalar.  Where breaks stand behind it, a key may start. -/
def plain (s : Scanner) : Except SyntaxError Scanner := do
  let s ← s.markKey
  let (text, broken, c) ← plainScalar s.indent s.inFlow s.cursor
  return { s with cursor := c, keyAllowed := broken }.push (.scalar text true)

/-- Characters that start no plain scalar by themselves. -/
def isIndicator (c : Char) : Bool :=
  c ∈ ['-', '?', ':', ',', '[', ']', '\x7b', '\x7d', '#', '&', '*', '!', '|', '>', '\'', '"', '%',
    '@', '\x60']

/-- The token at this place, which is not the end of the text. -/
def token (s : Scanner) (ch : Char) : Except SyntaxError Scanner :=
  let next := s.cursor.peekAt 1
  if s.cursor.column = 0 && ch = '%' then s.betweenDocuments directive
  else if s.cursor.atMarker '-' then
    s.betweenDocuments fun c => .ok (.documentStart, c.skipMany 3)
  else if s.cursor.atMarker '.' then
    s.betweenDocuments fun c => .ok (.documentEnd, c.skipMany 3)
  else if ch = '[' then s.openFlow .flowSequenceStart
  else if ch = '\x7b' then s.openFlow .flowMappingStart
  else if ch = ']' then s.closeFlow .flowSequenceEnd
  else if ch = '\x7d' then s.closeFlow .flowMappingEnd
  else if ch = ',' then s.flowEntry
  else if ch = '-' && isSpaceOrEnd next then s.blockEntry
  else if ch = '?' && (s.inFlow || isSpaceOrEnd next) then s.explicitKey
  else if ch = ':' && (s.inFlow || isSpaceOrEnd next) then s.valueIndicator
  else if ch = '*' then s.keyCandidate fun c => do
    let (name, c) ← anchorName c
    return (.alias name, c)
  else if ch = '&' then s.keyCandidate fun c => do
    let (name, c) ← anchorName c
    return (.anchor name, c)
  else if ch = '!' then s.keyCandidate (tagToken s.inFlow)
  else if (ch = '|' || ch = '>') && !s.inFlow then s.block (ch = '|')
  else if ch = '\'' || ch = '"' then s.quoted ch
  else if !(isBlank ch || isIndicator ch) || (ch = '-' && !at_ isBlank next) ||
      (!s.inFlow && (ch = '?' || ch = ':') && !isSpaceOrEnd next) then s.plain
  else s.fault "found character that cannot start any token"

/-- Finds the next token, and perhaps others that it brings with it.  The flag tells that the end
of the text was found. -/
def next (s : Scanner) : Except SyntaxError (Scanner × Bool) := do
  let s ← (s.skipBlanks (s.cursor.rest.length + 1)).expireKeys
  let s := s.closeBlocks s.cursor.column
  match s.cursor.peek with
  | none => return (← s.finish, true)
  | some ch => return (← (← s.token ch).expireKeys, false)

/-- The tokens that no colon to come can change. -/
def settled (s : Scanner) : List Token :=
  let starts := (s.keyStart :: s.outerKeyStarts).filterMap id
  s.found.reverse.take (starts.foldl (fun n k => min n k.number) s.found.length)

/-- Finds all tokens. -/
def scan (fuel : Nat) (s : Scanner) : TokenStream :=
  match fuel with
  | 0 => ⟨s.found.reverse, none⟩
  | fuel + 1 =>
    match s.next with
    | .error e => ⟨s.settled, some e⟩
    | .ok (s, true) => ⟨s.found.reverse, none⟩
    | .ok (s, false) => scan fuel s

end Scanner

/-- The tokens of a text.  A character that no document may hold is a fault of the whole text. -/
def Token.stream (text : List Char) : TokenStream :=
  if text.all isAllowed then
    ({ cursor := ⟨text, 0, 0, 0⟩, found := [.streamStart] } : Scanner).scan (text.length + 2)
  else ⟨[], some ⟨"control characters are not allowed", 0, 0⟩⟩

end PipelineStacks.Yaml
