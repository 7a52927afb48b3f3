import PipelineStacks.Text.Blank
import PipelineStacks.Text.Chars

/-!
# Points in time

Times of the cluster are read from the date and time format of the Internet, with some liberty in
blanks and separators, and written back in UTC with whole seconds.  A leap second is kept apart
from the second before it.

`daysInMonth_pos` and `civil` (days to dates) are plain calendar arithmetic.
-/

namespace PipelineStacks

/-- A point in time: whole seconds since 1970 in UTC, and whether the leap second behind that
second is meant. -/
structure Timestamp where
  seconds : Int
  leap : Bool
deriving DecidableEq, Repr, Inhabited

namespace Timestamp

/-! ## The calendar -/

/-- Every fourth year, but not every hundredth, but every four hundredth. -/
def isLeapYear (year : Int) : Bool :=
  year % 4 = 0 && (year % 100 ≠ 0 || year % 400 = 0)

/-- The number of days of a month. -/
def daysInMonth (year : Int) (month : Nat) : Nat :=
  if month = 2 then (if isLeapYear year then 29 else 28)
  else if month = 4 ∨ month = 6 ∨ month = 9 ∨ month = 11 then 30 else 31

theorem daysInMonth_pos (year : Int) (month : Nat) : 28 ≤ daysInMonth year month := by
  unfold daysInMonth
  split
  · split <;> decide
  · split <;> decide

/-- The number of days from 1 January 1970 to a date.  Years are counted from March, so that the
leap day is the last of its year. -/
def daysFromCivil (year : Int) (month day : Nat) : Int :=
  let y := if month ≤ 2 then year - 1 else year
  let era := y / 400
  let yearOfEra := y % 400
  let monthFromMarch : Int := (month + 9) % 12
  let dayOfYear := (153 * monthFromMarch + 2) / 5 + day - 1
  let dayOfEra := yearOfEra * 365 + yearOfEra / 4 - yearOfEra / 100 + dayOfYear
  era * 146097 + dayOfEra - 719468

/-- The date that many days after 1 January 1970: year, month and day. -/
def civil (days : Int) : Int × Int × Int :=
  let z := days + 719468
  let era := z / 146097
  let dayOfEra := z % 146097
  let yearOfEra := (dayOfEra - dayOfEra / 1460 + dayOfEra / 36524 - dayOfEra / 146096) / 365
  let dayOfYear := dayOfEra - (365 * yearOfEra + yearOfEra / 4 - yearOfEra / 100)
  let monthFromMarch := (5 * dayOfYear + 2) / 153
  let day := dayOfYear - (153 * monthFromMarch + 2) / 5 + 1
  let month := if monthFromMarch < 10 then monthFromMarch + 3 else monthFromMarch - 9
  let year := yearOfEra + era * 400 + (if month ≤ 2 then 1 else 0)
  (year, month, day)

/-! ## Writing -/

/-- A natural number with zeros in front up to a width. -/
def padded (width : Nat) (n : Nat) : String :=
  let digits := toString n
  String.ofList (List.replicate (width - digits.length) '0') ++ digits

/-- A year: four digits, and a sign in front of years that need more or are negative. -/
def yearText (year : Int) : String :=
  if 0 ≤ year ∧ year ≤ 9999 then padded 4 year.toNat
  else (if year < 0 then "-" else "+") ++ padded 4 year.natAbs

/-- The date and time in UTC, in whole seconds. -/
def text (t : Timestamp) : String :=
  let (year, month, day) := civil (t.seconds / 86400)
  let rest := (t.seconds % 86400).toNat
  let second := rest % 60 + (if t.leap then 1 else 0)
  yearText year ++ "-" ++ padded 2 month.toNat ++ "-" ++ padded 2 day.toNat ++ "T" ++
    padded 2 (rest / 3600) ++ ":" ++ padded 2 (rest / 60 % 60) ++ ":" ++ padded 2 second ++ "Z"

/-! ## Reading -/

/-- A decimal digit. -/
def isDigit (c : Char) : Bool :=
  '0' ≤ c && c ≤ '9'

/-- At least one and at most `width` digits; no limit if there is none. -/
def digits? (width : Option Nat) (cs : List Char) : Option (Nat × List Char) :=
  let run := cs.takeWhile isDigit
  let run := match width with
    | some w => run.take w
    | none => run
  if run.isEmpty then none
  else some (run.foldl (fun n c => n * 10 + (c.toNat - 48)) 0, cs.drop run.length)

/-- A number of at most two digits behind blanks. -/
def twoDigits? (cs : List Char) : Option (Nat × List Char) :=
  digits? (some 2) (Text.trimStart cs)

/-- A year behind blanks: with a sign any number of digits, else at most four. -/
def year? (cs : List Char) : Option (Int × List Char) :=
  match Text.trimStart cs with
  | '-' :: cs => (digits? none cs).map fun (n, cs) => (-(n : Int), cs)
  | '+' :: cs => (digits? none cs).map fun (n, cs) => ((n : Int), cs)
  | cs => (digits? (some 4) cs).map fun (n, cs) => ((n : Int), cs)

/-- The given separator behind blanks. -/
def separator? (c : Char) (cs : List Char) : Option (List Char) :=
  match Text.trimStart cs with
  | d :: cs => if d = c then some cs else none
  | [] => none

/-- Digits behind a point are read over; at least one is needed. -/
def skipFraction? : List Char → Option (List Char)
  | '.' :: cs => if (cs.takeWhile isDigit).isEmpty then none else some (cs.dropWhile isDigit)
  | cs => some cs

/-- Two digits, no blanks. -/
def pair? : List Char → Option (Nat × List Char)
  | a :: b :: cs =>
    if isDigit a && isDigit b then some ((a.toNat - 48) * 10 + (b.toNat - 48), cs) else none
  | _ => none

/-- Hours and minutes of an offset behind its sign, in seconds; a colon and blanks may stand
between them. -/
def offsetMagnitude? (cs : List Char) : Option (Nat × List Char) := do
  let (hours, cs) ← pair? cs
  let (minutes, cs) ← pair? (cs.dropWhile fun c => c == ':' || Text.isBlank c)
  if minutes < 60 && hours < 24 then some (hours * 3600 + minutes * 60, cs) else none

/-- The offset from UTC in seconds: a letter, the name of UTC, or a signed time. -/
def offset? (cs : List Char) : Option (Int × List Char) :=
  match cs with
  | a :: b :: c :: rest =>
    if Text.lowerAscii [a, b, c] = ['u', 't', 'c'] then some (0, rest) else offsetSigned? cs
  | _ => offsetSigned? cs
where
  /-- An offset that is not spelled by name. -/
  offsetSigned? : List Char → Option (Int × List Char)
    | 'Z' :: cs => some (0, cs)
    | 'z' :: cs => some (0, cs)
    | '+' :: cs => (offsetMagnitude? cs).map fun (n, cs) => ((n : Int), cs)
    | '-' :: cs => (offsetMagnitude? cs).map fun (n, cs) => (-(n : Int), cs)
    | '\u2212' :: cs => (offsetMagnitude? cs).map fun (n, cs) => (-(n : Int), cs)
    | _ => none

/-- The years that a date may have. -/
def yearInRange (year : Int) : Bool :=
  -262143 ≤ year && year ≤ 262142

/-- The point in time that a text gives. -/
def parse? (s : String) : Option Timestamp := do
  let (year, cs) ← year? s.toList
  let cs ← separator? '-' cs
  let (month, cs) ← twoDigits? cs
  let cs ← separator? '-' cs
  let (day, cs) ← twoDigits? cs
  let cs ← match cs with
    | c :: cs => if c = 't' ∨ c = 'T' ∨ c = ' ' then some cs else none
    | [] => none
  let (hour, cs) ← twoDigits? cs
  let cs ← separator? ':' cs
  let (minute, cs) ← twoDigits? cs
  let cs ← separator? ':' cs
  let (second, cs) ← twoDigits? cs
  let cs ← skipFraction? cs
  let (offset, cs) ← offset? (Text.trimStart cs)
  let dateFits := yearInRange year && 1 ≤ month && month ≤ 12 && 1 ≤ day &&
    day ≤ daysInMonth year month
  let timeFits := hour < 24 && minute < 60 && second ≤ 60
  if dateFits && timeFits && (Text.trimStart cs).isEmpty then
    let leap := second = 60
    let second := if leap then 59 else second
    let local_ : Int := daysFromCivil year month day * 86400 + hour * 3600 + minute * 60 + second
    some ⟨local_ - offset, leap⟩
  else none

end Timestamp

end PipelineStacks
