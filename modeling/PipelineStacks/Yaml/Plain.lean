import PipelineStacks.Text.Hex
import PipelineStacks.WordSize
import PipelineStacks.Yaml.Value

/-!
# Plain scalars

The value of a text that was written without quotes: `Plain.value?`.  Null, the truth values and
numbers have fixed spellings, and every other text stands for itself.  Digits behind a leading zero
are no number.
-/

namespace PipelineStacks.Yaml.Plain

/-- A spelling of null. -/
def isNull (s : String) : Bool :=
  s = "null" || s = "Null" || s = "NULL" || s = "~"

/-- The truth value with this spelling. -/
def bool? (s : String) : Option Bool :=
  if s = "true" ∨ s = "True" ∨ s = "TRUE" then some true
  else if s = "false" ∨ s = "False" ∨ s = "FALSE" then some false
  else none

/-- The text without one sign in front. -/
def dropSign : List Char → List Char
  | '+' :: cs => cs
  | '-' :: cs => cs
  | cs => cs

/-- A zero with more digits behind it, and nothing else. -/
def isPaddedDigits (cs : List Char) : Bool :=
  match dropSign cs with
  | '0' :: c :: rest => (c :: rest).all Char.isDigit
  | _ => false

/-- The number written by digits of a base, of which there is at least one. -/
def digits? (base : Nat) (cs : List Char) : Option Nat :=
  if cs.isEmpty then none
  else cs.foldlM (fun n c => (Hex.digitValue? c).bind fun d =>
    if d < base then some (n * base + d) else none) 0

/-- The digits behind a mark for their base. -/
def based? : List Char → Option Nat
  | '0' :: 'x' :: cs => digits? 16 cs
  | '0' :: 'o' :: cs => digits? 8 cs
  | '0' :: 'b' :: cs => digits? 2 cs
  | _ => none

/-- The magnitude of a whole number. -/
def magnitude? (cs : List Char) : Option Nat :=
  match based? cs with
  | some n => some n
  | none => if isPaddedDigits cs then none else digits? 10 cs

/-- The whole number that is written here. -/
def whole? : List Char → Option Int
  | '-' :: cs => (magnitude? cs).map fun n => -(n : Int)
  | '+' :: cs => (magnitude? cs).map fun n => (n : Int)
  | cs => (magnitude? cs).map fun n => (n : Int)

/-- How a whole number can be held. -/
inductive Size
  /-- In 64 bits. -/
  | word
  /-- In 128 bits only, which no value can hold. -/
  | doubleWord
  /-- Not at all as a whole number. -/
  | larger
deriving DecidableEq, Repr

/-- The size of a whole number. -/
def size (n : Int) : Size :=
  if -(wordSize 63 : Int) ≤ n ∧ n < wordSize 64 then .word
  else if -(wordSize 127 : Int) ≤ n ∧ n < wordSize 128 then .doubleWord
  else .larger

/-- The exponent behind its mark. -/
def exponent? (cs : List Char) : Option Int :=
  match cs with
  | [] => some 0
  | e :: cs =>
    if e = 'e' ∨ e = 'E' then
      match cs with
      | '-' :: ds => (digits? 10 ds).map fun n => -(n : Int)
      | '+' :: ds => (digits? 10 ds).map fun n => (n : Int)
      | ds => (digits? 10 ds).map fun n => (n : Int)
    else none

/-- The number written by digits with perhaps a point among them and an exponent behind them. -/
def fraction? (negative : Bool) (cs : List Char) : Option Binary64 :=
  let whole := cs.takeWhile Char.isDigit
  let rest := cs.drop whole.length
  let (places, rest) := match rest with
    | '.' :: rest => (rest.takeWhile Char.isDigit, rest.dropWhile Char.isDigit)
    | rest => ([], rest)
  match digits? 10 (whole ++ places), exponent? rest with
  | some n, some e => some (.ofDecimal negative n (e - places.length))
  | _, _ => none

/-- The floating point number that is written here.  A number too large to be held is none. -/
def float? (s : String) : Option Binary64 :=
  if s = ".nan" ∨ s = ".NaN" ∨ s = ".NAN" then some .nan
  else
    let (negative, cs) := match s.toList with
      | '-' :: cs => (true, cs)
      | '+' :: cs => (false, cs)
      | cs => (false, cs)
    if cs = ".inf".toList ∨ cs = ".Inf".toList ∨ cs = ".INF".toList then some (.infinity negative)
    else
      match fraction? negative cs with
      | some x => if x.isFinite then some x else none
      | none => none

/-- The value of a text; none if it is a whole number that no value can hold. -/
def value? (s : String) : Option Value :=
  if s = "" ∨ isNull s then some .null
  else
    match bool? s with
    | some b => some (.bool b)
    | none =>
      match (whole? s.toList).map fun n => (n, size n) with
      | some (n, .word) => some (.number (.int n))
      | some (_, .doubleWord) => none
      | _ =>
        if isPaddedDigits s.toList then some (.string s)
        else
          match float? s with
          | some x => some (.number (.float x))
          | none => some (.string s)

/-- The whole number that a text with the tag for whole numbers stands for. -/
def taggedInt? (s : String) : Option Int :=
  match whole? s.toList with
  | some n => if size n = .word then some n else none
  | none => none

end PipelineStacks.Yaml.Plain
