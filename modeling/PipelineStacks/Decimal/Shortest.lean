import PipelineStacks.Decimal.Binary64

/-!
# The shortest decimal that reads back

A finite floating point number is written with the fewest digits that still round to it, and among
these with the decimal next to it.  Digits are chosen in exact arithmetic: the numbers that round
to `m · 2 ^ (e - 1074)` form an interval, and on each decimal grid from one digit up the two
neighbours of the number are tried.  Layout is a matter of its own, `Layout`.
-/

namespace PipelineStacks.Binary64

/-- A positive decimal `digits · 10 ^ exponent`. -/
structure Decimal where
  digits : Nat
  exponent : Int
deriving DecidableEq, Repr

/-- The interval of ratios that round to a positive number, in units of `2 ^ -1076`: its ends, the
number itself, and whether the ends belong to it. -/
structure Interval where
  low : Nat
  middle : Nat
  high : Nat
  closed : Bool
deriving DecidableEq, Repr

/-- The interval around a positive finite number. -/
def interval (x : Binary64) : Interval :=
  let (m, e) := x.decompose
  -- below a power of two the gap is half as wide
  let below := if m = Nat.pow 2 52 ∧ 0 < e then 1 else 2
  ⟨(4 * m - below) * Nat.pow 2 e, 4 * m * Nat.pow 2 e, (4 * m + 2) * Nat.pow 2 e, m % 2 = 0⟩

/-- The ratio `n · step / unit` lies in the interval. -/
def Interval.holds (i : Interval) (n step unit : Nat) : Bool :=
  let v := n * step
  if i.closed then i.low * unit ≤ v && v ≤ i.high * unit
  else i.low * unit < v && v < i.high * unit

/-- The decimal on the grid of `10 ^ exponent` that is next to the number and in its interval. -/
def onGrid? (i : Interval) (exponent : Int) : Option Nat :=
  -- n · 10 ^ exponent = n · step / unit in units of 2 ^ -1076
  let step := Nat.pow 2 1076 * Nat.pow 10 exponent.toNat
  let unit := Nat.pow 10 (-exponent).toNat
  let n := i.middle * unit / step
  match i.holds n step unit && 0 < n, i.holds (n + 1) step unit with
  | true, true =>
    let under := i.middle * unit - n * step
    let beyond := (n + 1) * step - i.middle * unit
    some (if under < beyond || (under = beyond && n % 2 = 0) then n else n + 1)
  | true, false => some n
  | false, true => some (n + 1)
  | false, false => none

/-- Tries `count` grids, the coarsest first, down from the one of `10 ^ exponent`. -/
def firstGrid (i : Interval) : (count : Nat) → (exponent : Int) → Decimal
  | 0, exponent => ⟨0, exponent⟩
  | count + 1, exponent =>
    match onGrid? i exponent with
    | some n => ⟨n, exponent⟩
    | none => firstGrid i count (exponent - 1)

/-- The decimal without zeros at the end of its digits. -/
def Decimal.strip : (fuel : Nat) → Decimal → Decimal
  | 0, d => d
  | fuel + 1, d =>
    if d.digits ≠ 0 ∧ d.digits % 10 = 0 then strip fuel ⟨d.digits / 10, d.exponent + 1⟩ else d

/-- The shortest decimal that rounds to a positive finite number. -/
def shortest (x : Binary64) : Decimal :=
  let i := x.interval
  -- no number below 2 ^ 1024 reaches 10 ^ 309
  let lead : Int := ((i.middle.log2 : Int) - 1076) * 30103 / 100000 + 1
  (firstGrid i 400 lead).strip 400

/-! ## Layout -/

/-- Where a decimal is written without an exponent: as long as its point falls at most `ahead`
places behind the first digit and at most `zeros` zeros follow a leading point. -/
structure Layout where
  ahead : Int
  zeros : Int
deriving DecidableEq, Repr

/-- Numbers that stand in documents: sixteen digits before the point, four zeros behind it. -/
def Layout.document : Layout :=
  ⟨16, 4⟩

/-- A decimal in the given layout; a whole number keeps one zero behind the point. -/
def Layout.write (layout : Layout) (d : Decimal) : String :=
  let digits := (Nat.toDigits 10 d.digits)
  let count : Int := digits.length
  let point := count + d.exponent
  if 0 ≤ d.exponent ∧ point ≤ layout.ahead then
    String.ofList (digits ++ List.replicate d.exponent.toNat '0' ++ ['.', '0'])
  else if 0 < point ∧ point ≤ layout.ahead then
    String.ofList (digits.take point.toNat ++ '.' :: digits.drop point.toNat)
  else if -layout.zeros ≤ point ∧ point ≤ 0 then
    String.ofList ('0' :: '.' :: List.replicate (-point).toNat '0' ++ digits)
  else
    let exponent := toString (point - 1)
    match digits with
    | [d] => String.ofList [d] ++ "e" ++ exponent
    | d :: ds => String.ofList (d :: '.' :: ds) ++ "e" ++ exponent
    | [] => ""

/-- The text of a finite number. -/
def text (layout : Layout) (x : Binary64) : String :=
  let sign := if x.isNegative then "-" else ""
  if x.magnitude = 0 then sign ++ "0.0" else sign ++ layout.write x.shortest

end PipelineStacks.Binary64
