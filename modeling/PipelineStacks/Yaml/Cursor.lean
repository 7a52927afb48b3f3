import PipelineStacks.Text.Chars

/-!
# A place in a document text

The structure of a document hangs on lines and columns, so the rest of a text is carried with the
place where it starts.  A line ends with one of five breaks, and a carriage return with a line feed
behind it is one break; a break is read as a line feed, but for the two separators of Unicode,
which stay themselves.

`Cursor.skip_rest_length_lt` says that going on by one character makes the rest shorter.
-/

namespace PipelineStacks.Yaml

/-- A fault in the syntax of a document. -/
structure SyntaxError where
  problem : String
  line : Nat
  column : Nat
deriving DecidableEq, Repr

/-- The wording of a fault. -/
def SyntaxError.message (e : SyntaxError) : String :=
  e.problem ++ " at line " ++ toString (e.line + 1) ++ " column " ++ toString (e.column + 1)

/-- The rest of a text and the place where it starts. -/
structure Cursor where
  rest : List Char
  index : Nat := 0
  line : Nat := 0
  column : Nat := 0
deriving Inhabited

/-! ## Classes of characters -/

/-- A space or a tab. -/
def isBlank (c : Char) : Bool :=
  c = ' ' || c = '\t'

/-- A character that ends a line. -/
def isBreak (c : Char) : Bool :=
  c = '\n' || c = '\r' || c = '\x85' || c = '\u2028' || c = '\u2029'

/-- A character of names: letters and digits of ASCII, the underscore and the hyphen. -/
def isWordChar (c : Char) : Bool :=
  c.isAlphanum || c = '_' || c = '-'

/-- A character that a document may hold. -/
def isAllowed (c : Char) : Bool :=
  let n := c.toNat
  n = 0x09 || n = 0x0A || n = 0x0D || (0x20 ≤ n && n ≤ 0x7E) || n = 0x85 ||
    (0xA0 ≤ n && n ≤ 0xD7FF) || (0xE000 ≤ n && n ≤ 0xFFFD && n ≠ 0xFEFF) || 0x10000 ≤ n

namespace Cursor

/-- A fault at this place. -/
def fault {α : Type} (c : Cursor) (problem : String) : Except SyntaxError α :=
  .error ⟨problem, c.line, c.column⟩

/-- The next character. -/
def peek (c : Cursor) : Option Char :=
  c.rest.head?

/-- The character `n` places ahead. -/
def peekAt (c : Cursor) (n : Nat) : Option Char :=
  (c.rest.drop n).head?

/-- The character at a place satisfies `p`. -/
def at_ (p : Char → Bool) : Option Char → Bool
  | some c => p c
  | none => false

/-- A break or the end of the text. -/
def isBreakOrEnd : Option Char → Bool
  | some c => isBreak c
  | none => true

/-- A blank, a break or the end of the text. -/
def isSpaceOrEnd : Option Char → Bool
  | some c => isBlank c || isBreak c
  | none => true

/-- The next character is `d`. -/
def starts (c : Cursor) (d : Char) : Bool :=
  c.peek == some d

/-- Goes on by one character, which is no break. -/
def skip (c : Cursor) : Cursor :=
  match c.rest with
  | [] => c
  | _ :: rest => ⟨rest, c.index + 1, c.line, c.column + 1⟩

/-- Goes on by `n` characters, none of which is a break. -/
def skipMany (c : Cursor) (n : Nat) : Cursor :=
  ⟨c.rest.drop n, c.index + n, c.line, c.column + n⟩

theorem skip_rest_length_lt (c : Cursor) (h : c.rest ≠ []) :
    c.skip.rest.length < c.rest.length := by
  unfold skip
  split
  · next h' => exact absurd h' h
  · next h' => simp [h']

/-- The longest run of `p`, and the place behind it. -/
def run (c : Cursor) (p : Char → Bool) : List Char × Cursor :=
  let word := c.rest.takeWhile p
  (word, c.skipMany word.length)

/-- The place behind the longest run of `p`. -/
def skipWhile (c : Cursor) (p : Char → Bool) : Cursor :=
  (c.run p).2

/-- The break at this place as it is read, and the place behind it. -/
def readBreak (c : Cursor) : List Char × Cursor :=
  match c.rest with
  | '\r' :: '\n' :: rest => (['\n'], ⟨rest, c.index + 2, c.line + 1, 0⟩)
  | b :: rest =>
    if b = '\u2028' ∨ b = '\u2029' then ([b], ⟨rest, c.index + 1, c.line + 1, 0⟩)
    else if isBreak b then (['\n'], ⟨rest, c.index + 1, c.line + 1, 0⟩)
    else ([], c)
  | [] => ([], c)

/-- The place behind the break at this place. -/
def skipBreak (c : Cursor) : Cursor :=
  c.readBreak.2

/-- A document marker of three characters stands at the start of this line. -/
def atMarker (c : Cursor) (d : Char) : Bool :=
  c.column = 0 && c.rest.take 3 == [d, d, d] && isSpaceOrEnd (c.peekAt 3)

/-- The start or the end of a document is marked here. -/
def atDocumentMarker (c : Cursor) : Bool :=
  c.atMarker '-' || c.atMarker '.'

end Cursor

end PipelineStacks.Yaml
