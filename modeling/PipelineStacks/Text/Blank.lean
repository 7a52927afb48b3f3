/-!
# Blank characters

The white space of the Unicode standard (the property `White_Space`), and trimming of lists of
characters at either end.  Settings, owner lists, log specifications and directives all trim by
this class; the narrower classes of single formats live with those formats.

`head_dropWhile_not` says that nothing of the class is left at the start, and
`dropWhile_eq_self_of_head` that a text without one there is left alone.
-/

namespace PipelineStacks.Text

/-- A character of the Unicode property `White_Space`. -/
def isBlank (c : Char) : Bool :=
  let n := c.toNat
  (0x09 ≤ n && n ≤ 0x0D) || n == 0x20 || n == 0x85 || n == 0xA0 || n == 0x1680 ||
    (0x2000 ≤ n && n ≤ 0x200A) || n == 0x2028 || n == 0x2029 || n == 0x202F ||
    n == 0x205F || n == 0x3000

/-- Every character that core counts as white space is blank. -/
theorem isBlank_of_isWhitespace {c : Char} (h : c.isWhitespace = true) : isBlank c = true := by
  simp only [Char.isWhitespace, Bool.or_eq_true, decide_eq_true_eq] at h
  rcases h with ((h | h) | h) | h <;> subst h <;> decide

/-! ## Trimming by a class of characters -/

/-- Drops the longest run of `p` at the end. -/
def dropEndWhile (p : Char → Bool) (cs : List Char) : List Char :=
  (cs.reverse.dropWhile p).reverse

/-- Drops the longest runs of `p` at both ends. -/
def trimWhile (p : Char → Bool) (cs : List Char) : List Char :=
  dropEndWhile p (cs.dropWhile p)

/-- The text without blanks at its start. -/
def trimStart (cs : List Char) : List Char :=
  cs.dropWhile isBlank

/-- The text without blanks at its ends. -/
def trim (cs : List Char) : List Char :=
  trimWhile isBlank cs

/-- `trim` on strings. -/
def trimmed (s : String) : String :=
  String.ofList (trim s.toList)

/-- After dropping a class at the start, the first character is outside of it. -/
theorem head_dropWhile_not {p : Char → Bool} {cs : List Char} {c : Char}
    (h : (cs.dropWhile p).head? = some c) : p c = false := by
  induction cs with
  | nil => simp at h
  | cons d cs ih =>
    by_cases hd : p d
    · exact ih (by simpa [List.dropWhile, hd] using h)
    · simp only [List.dropWhile, hd] at h
      simp at h
      subst h
      simpa using hd

/-- A text whose first character is outside a class loses nothing at its start. -/
theorem dropWhile_eq_self_of_head {p : Char → Bool} {cs : List Char}
    (h : ∀ c, cs.head? = some c → p c = false) : cs.dropWhile p = cs := by
  cases cs with
  | nil => rfl
  | cons d cs => simp [List.dropWhile, h d rfl]

end PipelineStacks.Text
