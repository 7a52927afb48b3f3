import PipelineStacks.Json.Basic
import PipelineStacks.Text.Hex
import PipelineStacks.WordSize

/-!
# Reading dynamic values

The text format of dynamic values: blanks are the four of the format, numbers have no leading
zeros, strings no bare control characters and no lone surrogates, and collections nest less than
128 deep.  A whole number outside of the 64-bit ranges is read as a floating point number, and one
too large for that is refused.
-/

namespace PipelineStacks.Json

/-- The characters that may stand between tokens. -/
def isSpace (c : Char) : Bool :=
  c == ' ' || c == '\n' || c == '\t' || c == '\r'

/-- The text without spaces at its start. -/
def skipSpace (cs : List Char) : List Char :=
  cs.dropWhile isSpace

/-- The value of a run of decimal digits. -/
def digitsValue (cs : List Char) : Nat :=
  cs.foldl (fun n c => n * 10 + (c.toNat - 48)) 0

/-! ## Strings -/

/-- The code unit of four hexadecimal digits. -/
def codeUnit? : List Char → Option (Nat × List Char)
  | a :: b :: c :: d :: cs => do
    let a ← Hex.digitValue? a
    let b ← Hex.digitValue? b
    let c ← Hex.digitValue? c
    let d ← Hex.digitValue? d
    return (((a * 16 + b) * 16 + c) * 16 + d, cs)
  | _ => none

/-- The character of an escape by code units; a high surrogate needs its low one. -/
def codePoint? (cs : List Char) : Option (Char × List Char) := do
  let (high, cs) ← codeUnit? cs
  if 0xDC00 ≤ high && high ≤ 0xDFFF then none
  else if 0xD800 ≤ high && high ≤ 0xDBFF then
    match cs with
    | '\\' :: 'u' :: cs => do
      let (low, cs) ← codeUnit? cs
      if 0xDC00 ≤ low && low ≤ 0xDFFF then
        return (Char.ofNat (0x10000 + (high - 0xD800) * 0x400 + (low - 0xDC00)), cs)
      else none
    | _ => none
  else return (Char.ofNat high, cs)

/-- The character behind a backslash. -/
def escaped? : List Char → Option (Char × List Char)
  | '"' :: cs => some ('"', cs)
  | '\\' :: cs => some ('\\', cs)
  | '/' :: cs => some ('/', cs)
  | 'b' :: cs => some ('\x08', cs)
  | 'f' :: cs => some ('\x0c', cs)
  | 'n' :: cs => some ('\n', cs)
  | 'r' :: cs => some ('\r', cs)
  | 't' :: cs => some ('\t', cs)
  | 'u' :: cs => codePoint? cs
  | _ => none

/-- The rest of a string behind its opening quote; `seen` holds the characters so far, the latest
first. -/
def stringRest? : (fuel : Nat) → (seen : List Char) → List Char → Option (String × List Char)
  | 0, _, _ => none
  | _ + 1, _, [] => none
  | _ + 1, seen, '"' :: cs => some (String.ofList seen.reverse, cs)
  | fuel + 1, seen, '\\' :: cs =>
    match escaped? cs with
    | some (c, cs) => stringRest? fuel (c :: seen) cs
    | none => none
  | fuel + 1, seen, c :: cs => if c.toNat < 0x20 then none else stringRest? fuel (c :: seen) cs

/-! ## Numbers -/

/-- A whole number in the 64-bit ranges, else the floating point number next to it. -/
def wholeNumber (negative : Bool) (n : Nat) : Number :=
  if negative then
    if n = 0 || wordSize 63 < n then .float (.ofDecimal true n 0) else .int (-n)
  else if n < wordSize 64 then .int n else .float (.ofDecimal false n 0)

/-- The digits behind a point, if there is one; at least one is needed. -/
def fraction? : List Char → Option (List Char × List Char)
  | '.' :: cs =>
    let digits := cs.takeWhile Char.isDigit
    if digits.isEmpty then none else some (digits, cs.dropWhile Char.isDigit)
  | cs => some ([], cs)

/-- The power of ten of an exponent, if there is one. -/
def exponent? : List Char → Option (Option Int × List Char)
  | [] => some (none, [])
  | c :: cs =>
    if c = 'e' ∨ c = 'E' then
      let (negative, cs) :=
        match cs with
        | '-' :: cs => (true, cs)
        | '+' :: cs => (false, cs)
        | cs => (false, cs)
      let digits := cs.takeWhile Char.isDigit
      if digits.isEmpty then none
      else
        let n : Int := digitsValue digits
        some (some (if negative then -n else n), cs.dropWhile Char.isDigit)
    else some (none, c :: cs)

/-- A number behind its sign. -/
def unsigned? (negative : Bool) (cs : List Char) : Option (Number × List Char) := do
  let digits := cs.takeWhile Char.isDigit
  let rest := cs.dropWhile Char.isDigit
  if digits.isEmpty || (digits.head? == some '0' && 1 < digits.length) then none
  else
    let (fraction, rest) ← fraction? rest
    let (exponent, rest) ← exponent? rest
    if fraction.isEmpty && exponent.isNone then
      return (wholeNumber negative (digitsValue digits), rest)
    else
      let value := Binary64.ofDecimal negative (digitsValue (digits ++ fraction))
        (exponent.getD 0 - fraction.length)
      if value.isFinite then return (.float value, rest) else none

/-- A number. -/
def number? : List Char → Option (Number × List Char)
  | '-' :: cs => unsigned? true cs
  | cs => unsigned? false cs

/-! ## Values -/

/-- How deep collections may nest. -/
def maxDepth : Nat := 127

mutual

/-- A value at the front of a text, inside of `depth` more collections at most. -/
def value? (fuel depth : Nat) (cs : List Char) : Option (Json × List Char) :=
  match fuel with
  | 0 => none
  | fuel + 1 =>
    match skipSpace cs with
    | 'n' :: 'u' :: 'l' :: 'l' :: cs => some (.null, cs)
    | 't' :: 'r' :: 'u' :: 'e' :: cs => some (.bool true, cs)
    | 'f' :: 'a' :: 'l' :: 's' :: 'e' :: cs => some (.bool false, cs)
    | '"' :: cs => (stringRest? (cs.length + 1) [] cs).map fun (s, cs) => (.str s, cs)
    | '[' :: cs =>
      match depth with
      | 0 => none
      | depth + 1 =>
        match skipSpace cs with
        | ']' :: cs => some (.arr [], cs)
        | cs => items? fuel depth [] cs
    | '\x7b' :: cs =>
      match depth with
      | 0 => none
      | depth + 1 =>
        match skipSpace cs with
        | '\x7d' :: cs => some (.obj [], cs)
        | cs => members? fuel depth [] cs
    | cs => (number? cs).map fun (n, cs) => (.num n, cs)

/-- The items of a list from a value on; `seen` holds those so far, the latest first. -/
def items? (fuel depth : Nat) (seen : List Json) (cs : List Char) : Option (Json × List Char) :=
  match fuel with
  | 0 => none
  | fuel + 1 =>
    match value? fuel depth cs with
    | none => none
    | some (v, cs) =>
      match skipSpace cs with
      | ',' :: cs => items? fuel depth (v :: seen) cs
      | ']' :: cs => some (.arr (v :: seen).reverse, cs)
      | _ => none

/-- The fields of an object from a name on; `seen` holds those so far, the latest first. -/
def members? (fuel depth : Nat) (seen : List (String × Json)) (cs : List Char) :
    Option (Json × List Char) :=
  match fuel with
  | 0 => none
  | fuel + 1 =>
    match skipSpace cs with
    | '"' :: cs =>
      match stringRest? (cs.length + 1) [] cs with
      | none => none
      | some (name, cs) =>
        match skipSpace cs with
        | ':' :: cs =>
          match value? fuel depth cs with
          | none => none
          | some (v, cs) =>
            match skipSpace cs with
            | ',' :: cs => members? fuel depth ((name, v) :: seen) cs
            | '\x7d' :: cs => some (.object ((name, v) :: seen).reverse, cs)
            | _ => none
        | _ => none
    | _ => none

end

/-- The value that a text writes. -/
def parse? (cs : List Char) : Option Json :=
  match value? (2 * cs.length + 2) maxDepth cs with
  | some (v, rest) => if (skipSpace rest).isEmpty then some v else none
  | none => none

end PipelineStacks.Json
