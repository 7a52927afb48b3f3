import PipelineStacks.Text.Hex
import PipelineStacks.Yaml.Cursor

/-!
# Scalars

The texts of the three styles of scalars: blocks, whose lines are kept or folded; flow scalars
between quotes; and plain ones.  Folding is the same in the latter two: a single break between
words becomes a space, and of several breaks the first is dropped.
-/

namespace PipelineStacks.Yaml

open Cursor (isBreakOrEnd isSpaceOrEnd at_)

/-! ## Blocks -/

/-- What happens to the breaks at the end of a block. -/
inductive Chomping
  | strip
  | clip
  | keep
deriving DecidableEq, Repr

/-- Blank lines and indentation up to the next text.  An indentation of zero is still to be
found. -/
def blockBreaks (fuel indent deepest : Nat) (breaks : List Char) (c : Cursor) :
    Except SyntaxError (Nat × List Char × Cursor) :=
  match fuel with
  | 0 => .ok (deepest, breaks, c)
  | fuel + 1 =>
    let spaces := (c.rest.takeWhile (· = ' ')).length
    let c := c.skipMany (if indent = 0 then spaces else min spaces (indent - c.column))
    let deepest := max deepest c.column
    if (indent = 0 || c.column < indent) && c.starts '\t' then
      c.fault "found a tab character where an indentation space is expected"
    else if at_ isBreak c.peek then
      let (br, c) := c.readBreak
      blockBreaks fuel indent deepest (breaks ++ br) c
    else .ok (deepest, breaks, c)

/-- Blank lines and indentation, with the indentation of the block, which is found here if it was
not given. -/
def blockIndent (outer : Int) (indent : Nat) (c : Cursor) :
    Except SyntaxError (Nat × List Char × Cursor) := do
  let (deepest, breaks, c) ← blockBreaks (c.rest.length + 1) indent 0 [] c
  if indent = 0 then
    return (max (max deepest (outer + 1).toNat) 1, breaks, c)
  else return (indent, breaks, c)

/-- The state of a block while its lines are read. -/
structure BlockLines where
  text : List Char := []
  leadingBreak : List Char := []
  trailingBreaks : List Char := []
  /-- The line before started with a blank. -/
  leadingBlank : Bool := false

/-- The lines of a block with a known indentation. -/
def blockLines (fuel : Nat) (outer : Int) (literal : Bool) (indent : Nat) (b : BlockLines)
    (c : Cursor) : Except SyntaxError (BlockLines × Cursor) :=
  match fuel with
  | 0 => .ok (b, c)
  | fuel + 1 =>
    if c.column = indent && c.peek.isSome then
      let blank := at_ isBlank c.peek
      let joint :=
        if !literal && b.leadingBreak.head? == some '\n' && !b.leadingBlank && !blank then
          if b.trailingBreaks.isEmpty then [' '] else []
        else b.leadingBreak
      let (line, c) := c.run fun ch => !isBreak ch
      let text := b.text ++ joint ++ b.trailingBreaks ++ line
      let (br, c) := c.readBreak
      match blockIndent outer indent c with
      | .error e => .error e
      | .ok (_, breaks, c) => blockLines fuel outer literal indent ⟨text, br, breaks, blank⟩ c
    else .ok (b, c)

/-- The value of a digit from one to nine. -/
def indentDigit (c : Cursor) : Except SyntaxError (Option Nat × Cursor) :=
  match c.peek with
  | some d =>
    if d = '0' then c.fault "found an indentation indicator equal to 0"
    else if d.isDigit then .ok (some (d.toNat - 48), c.skip)
    else .ok (none, c)
  | none => .ok (none, c)

/-- An indicator for the breaks at the end of a block. -/
def chompingIndicator (c : Cursor) : Option Chomping × Cursor :=
  if c.starts '+' then (some .keep, c.skip)
  else if c.starts '-' then (some .strip, c.skip)
  else (none, c)

/-- The two indicators behind the start of a block, in either order. -/
def blockHeader (c : Cursor) : Except SyntaxError (Chomping × Option Nat × Cursor) := do
  match chompingIndicator c with
  | (some chomping, c) =>
    let (digit, c) ← indentDigit c
    return (chomping, digit, c)
  | (none, c) =>
    let (digit, c) ← indentDigit c
    if digit.isSome then
      let (chomping, c) := chompingIndicator c
      return (chomping.getD .clip, digit, c)
    else return (.clip, none, c)

/-- The text of a block that starts with its indicator; `outer` is the indentation around it. -/
def blockScalar (outer : Int) (literal : Bool) (c : Cursor) :
    Except SyntaxError (String × Cursor) := do
  let (chomping, increment, c) ← blockHeader c.skip
  let c := c.skipWhile isBlank
  let c := if c.starts '#' then c.skipWhile (! isBreak ·) else c
  if !isBreakOrEnd c.peek then
    c.fault "did not find expected comment or line break"
  else
    let c := c.skipBreak
    let given := match increment with
      | some n => (if 0 ≤ outer then outer.toNat else 0) + n
      | none => 0
    let (indent, breaks, c) ← blockIndent outer given c
    let (b, c) ← blockLines (c.rest.length + 1) outer literal indent { trailingBreaks := breaks } c
    let text := b.text ++
      (if chomping = .strip then [] else b.leadingBreak) ++
      (if chomping = .keep then b.trailingBreaks else [])
    return (String.ofList text, c)

/-! ## Folding -/

/-- The blanks and breaks between two words. -/
structure Gap where
  blanks : List Char := []
  leadingBreak : List Char := []
  trailingBreaks : List Char := []
  /-- A break was seen. -/
  broken : Bool := false

/-- Reads blanks and breaks up to the next word.  In a plain scalar a tab must not stand where
indentation is expected: before column `indent` behind a break. -/
def gap (fuel : Nat) (indent : Option Int) (g : Gap) (c : Cursor) :
    Except SyntaxError (Gap × Cursor) :=
  match fuel with
  | 0 => .ok (g, c)
  | fuel + 1 =>
    match c.peek with
    | none => .ok (g, c)
    | some ch =>
      if isBlank ch then
        let early := match indent with
          | some n => (c.column : Int) < n
          | none => false
        if g.broken && early && ch = '\t' then
          c.fault "found a tab character that violates indentation"
        else gap fuel indent (if g.broken then g else { g with blanks := g.blanks ++ [ch] }) c.skip
      else if isBreak ch then
        let (br, c) := c.readBreak
        let g := if g.broken then { g with trailingBreaks := g.trailingBreaks ++ br }
          else
            { blanks := [], leadingBreak := br, trailingBreaks := g.trailingBreaks, broken := true }
        gap fuel indent g c
      else .ok (g, c)

/-- What a gap between two words becomes. -/
def Gap.folded (g : Gap) : List Char :=
  if g.broken then
    if g.leadingBreak.head? == some '\n' then
      if g.trailingBreaks.isEmpty then [' '] else g.trailingBreaks
    else g.leadingBreak ++ g.trailingBreaks
  else g.blanks

/-! ## Quoted scalars -/

/-- The value of the hexadecimal digits of an escape. -/
def hexEscape (digits : List Char) : Option Nat :=
  digits.foldlM (fun n c => (Hex.digitValue? c).map (n * 16 + ·)) 0

/-- The character of an escape behind a backslash, and how many characters it takes. -/
def escape (c : Cursor) : Except SyntaxError (Char × Cursor) :=
  let single := fun ch : Char => Except.ok (ch, c.skipMany 2)
  let coded := fun count : Nat =>
    let digits := (c.rest.drop 2).take count
    match hexEscape digits with
    | some n =>
      if digits.length < count then c.fault "did not find expected hexdecimal number"
      else if (0xD800 ≤ n ∧ n ≤ 0xDFFF) ∨ 0x10FFFF < n then
        c.fault "found invalid Unicode character escape code"
      else .ok (Char.ofNat n, c.skipMany (2 + count))
    | none => c.fault "did not find expected hexdecimal number"
  match c.peekAt 1 with
  | some '0' => single '\x00'
  | some 'a' => single '\x07'
  | some 'b' => single '\x08'
  | some 't' => single '\t'
  | some '\t' => single '\t'
  | some 'n' => single '\n'
  | some 'v' => single '\x0b'
  | some 'f' => single '\x0c'
  | some 'r' => single '\r'
  | some 'e' => single '\x1b'
  | some ' ' => single ' '
  | some '"' => single '"'
  | some '/' => single '/'
  | some '\\' => single '\\'
  | some 'N' => single '\x85'
  | some '_' => single '\xa0'
  | some 'L' => single '\u2028'
  | some 'P' => single '\u2029'
  | some 'x' => coded 2
  | some 'u' => coded 4
  | some 'U' => coded 8
  | _ => c.fault "found unknown escape character"

/-- One word of a quoted scalar: up to a blank, a break, the closing quote or the end.  The flag
tells that the word ended with an escaped break. -/
def quotedWord (fuel : Nat) (quote : Char) (c : Cursor) :
    Except SyntaxError (List Char × Bool × Cursor) :=
  match fuel with
  | 0 => .ok ([], false, c)
  | fuel + 1 =>
    match c.peek with
    | none => .ok ([], false, c)
    | some ch =>
      let go := fun (d : Char) (c : Cursor) => do
        let (word, broken, c) ← quotedWord fuel quote c
        return (d :: word, broken, c)
      if isBlank ch || isBreak ch then .ok ([], false, c)
      else if quote = '\'' && ch = '\'' && c.peekAt 1 == some '\'' then go '\'' (c.skipMany 2)
      else if ch = quote then .ok ([], false, c)
      else if quote = '"' && ch = '\\' then
        if at_ isBreak (c.peekAt 1) then .ok ([], true, c.skip.skipBreak)
        else
          match escape c with
          | .error e => .error e
          | .ok (d, c) => go d c
      else go ch c.skip

/-- The words and gaps of a quoted scalar up to its closing quote. -/
def quotedWords (fuel : Nat) (quote : Char) (text : List Char) (c : Cursor) :
    Except SyntaxError (List Char × Cursor) :=
  match fuel with
  | 0 => c.fault "found unexpected end of stream"
  | fuel + 1 =>
    if c.atDocumentMarker then c.fault "found unexpected document indicator"
    else if c.peek.isNone then c.fault "found unexpected end of stream"
    else
      match quotedWord (c.rest.length + 1) quote c with
      | .error e => .error e
      | .ok (word, broken, c) =>
        if c.starts quote then .ok (text ++ word, c.skip)
        else
          match gap (c.rest.length + 1) none { broken } c with
          | .error e => .error e
          | .ok (g, c) => quotedWords fuel quote (text ++ word ++ g.folded) c

/-- The text of a scalar between quotes. -/
def quotedScalar (quote : Char) (c : Cursor) : Except SyntaxError (String × Cursor) := do
  let (text, c) ← quotedWords (c.rest.length + 1) quote [] c.skip
  return (String.ofList text, c)

/-! ## Plain scalars -/

/-- An indicator of collections in flow style. -/
def isFlowIndicator (c : Char) : Bool :=
  c = ',' || c = '[' || c = ']' || c = '\x7b' || c = '\x7d'

/-- A plain scalar may end here: before a colon that is a value indicator, and in flow style before
the indicators of collections. -/
def endsPlain (inFlow : Bool) (c : Cursor) : Bool :=
  (c.starts ':' && isSpaceOrEnd (c.peekAt 1)) || (inFlow && at_ isFlowIndicator c.peek)

/-- One word of a plain scalar. -/
def plainWord (fuel : Nat) (inFlow : Bool) (c : Cursor) :
    Except SyntaxError (List Char × Cursor) :=
  match fuel with
  | 0 => .ok ([], c)
  | fuel + 1 =>
    match c.peek with
    | none => .ok ([], c)
    | some ch =>
      if isBlank ch || isBreak ch then .ok ([], c)
      else if inFlow && ch = ':' && at_ (fun d => isFlowIndicator d || d = '?') (c.peekAt 1) then
        c.fault "found unexpected ':'"
      else if endsPlain inFlow c then .ok ([], c)
      else
        match plainWord fuel inFlow c.skip with
        | .error e => .error e
        | .ok (word, c) => .ok (ch :: word, c)

/-- The words and gaps of a plain scalar.  The flag tells that breaks stand behind it. -/
def plainWords (fuel : Nat) (inFlow : Bool) (indent : Int) (text : List Char) (g : Gap)
    (c : Cursor) : Except SyntaxError (List Char × Bool × Cursor) :=
  match fuel with
  | 0 => .ok (text, g.broken, c)
  | fuel + 1 =>
    if c.atDocumentMarker || c.starts '#' then .ok (text, g.broken, c)
    else
      match plainWord (c.rest.length + 1) inFlow c with
      | .error e => .error e
      | .ok (word, c) =>
        let (text, g) := if word.isEmpty then (text, g) else (text ++ g.folded ++ word, {})
        if !(at_ isBlank c.peek || at_ isBreak c.peek) then .ok (text, g.broken, c)
        else
          match gap (c.rest.length + 1) (some indent) g c with
          | .error e => .error e
          | .ok (g, c) =>
            if !inFlow && (c.column : Int) < indent then .ok (text, g.broken, c)
            else plainWords fuel inFlow indent text g c

/-- The text of a plain scalar inside of the indentation `outer`, and whether breaks stand behind
it. -/
def plainScalar (outer : Int) (inFlow : Bool) (c : Cursor) :
    Except SyntaxError (String × Bool × Cursor) := do
  let (text, broken, c) ← plainWords (c.rest.length + 1) inFlow (outer + 1) [] {} c
  return (String.ofList text, broken, c)

end PipelineStacks.Yaml
