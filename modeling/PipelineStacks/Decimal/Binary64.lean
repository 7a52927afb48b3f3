import PipelineStacks.WordSize

/-!
# Binary floating point numbers

A 64-bit floating point number is kept as its bits.  `Binary64.ofRatio` rounds a positive ratio to
the nearest number, a tie to the even one; `Binary64.ofDecimal` reads digits with a power of ten.
All arithmetic is exact on natural numbers.

`roundDiv_mul_le` and `le_roundDiv_mul` say that rounding a quotient is off by at most one half.
-/

namespace PipelineStacks

/-- The bits of a 64-bit floating point number: sign, eleven bits of exponent, 52 of fraction. -/
structure Binary64 where
  bits : UInt64
deriving DecidableEq, Repr, Inhabited

/-- The natural number next to `num / den`, of two the even one. -/
def roundDiv (num den : Nat) : Nat :=
  let q := num / den
  let r := num % den
  if 2 * r < den then q
  else if den < 2 * r then q + 1
  else if q % 2 = 0 then q else q + 1

/-- A rounded quotient is at most one half too large. -/
theorem roundDiv_mul_le (num : Nat) {den : Nat} (h : 0 < den) :
    2 * (roundDiv num den * den) ≤ 2 * num + den := by
  have hdiv := Nat.div_add_mod num den
  have hmod := Nat.mod_lt num h
  rw [Nat.mul_comm den] at hdiv
  unfold roundDiv
  dsimp only
  split
  · omega
  · split
    · rw [Nat.add_mul]; omega
    · split
      · omega
      · rw [Nat.add_mul]; omega

/-- A rounded quotient is at most one half too small. -/
theorem le_roundDiv_mul (num : Nat) {den : Nat} (h : 0 < den) :
    2 * num ≤ 2 * (roundDiv num den * den) + den := by
  have hdiv := Nat.div_add_mod num den
  have hmod := Nat.mod_lt num h
  rw [Nat.mul_comm den] at hdiv
  unfold roundDiv
  dsimp only
  split
  · omega
  · split
    · rw [Nat.add_mul]; omega
    · split
      · omega
      · rw [Nat.add_mul]; omega

namespace Binary64

/-- The bits of positive infinity. -/
def infinityBits : Nat := 0x7FF0000000000000

/-- The number with a given magnitude in bits and a sign. -/
def ofMagnitude (negative : Bool) (magnitude : Nat) : Binary64 :=
  ⟨UInt64.ofNat (if negative then wordSize 63 + magnitude else magnitude)⟩

/-- Positive infinity, or negative infinity. -/
def infinity (negative : Bool) : Binary64 :=
  ofMagnitude negative infinityBits

/-- A number that is none. -/
def nan : Binary64 :=
  ⟨0x7FF8000000000000⟩

/-- The sign bit is set. -/
def isNegative (x : Binary64) : Bool :=
  wordSize 63 ≤ x.bits.toNat

/-- The bits without the sign. -/
def magnitude (x : Binary64) : Nat :=
  x.bits.toNat % wordSize 63

/-- Neither infinite nor none. -/
def isFinite (x : Binary64) : Bool :=
  x.magnitude < infinityBits

/-- No number at all. -/
def isNaN (x : Binary64) : Bool :=
  infinityBits < x.magnitude

/-- Equality as a key: the two zeros are one number, and all that are none are one. -/
def sameNumber (x y : Binary64) : Bool :=
  (x.isNaN && y.isNaN) || (x.magnitude = 0 && y.magnitude = 0) || x == y

/-- The magnitude is `m · 2 ^ (e - 1074)` for the pair `(m, e)`. -/
def decompose (x : Binary64) : Nat × Nat :=
  let field := x.magnitude / wordSize 52
  let fraction := x.magnitude % wordSize 52
  if field = 0 then (fraction, 0) else (wordSize 52 + fraction, field - 1)

/-! ## Rounding -/

/-- The exponent `e` for which `num / den` has 53 bits in units of `2 ^ (e - 1074)`, or the least
one for a small ratio. -/
def unitExponent (num den : Nat) : Nat :=
  -- the ratio lies between 2 ^ (t - 1) and 2 ^ (t + 1), where t + 1074 is the difference below
  let up := num.log2 + 1074 - 52
  let e := up - den.log2
  if up < den.log2 then 0
  else if num * Nat.pow 2 1074 < Nat.pow 2 52 * (den * Nat.pow 2 e) then e - 1 else e

/-- The magnitude next to the positive ratio `num / den`, a tie going to the even one. -/
def ofRatio (negative : Bool) (num den : Nat) : Binary64 :=
  let e := unitExponent num den
  let m := roundDiv (num * Nat.pow 2 1074) (den * Nat.pow 2 e)
  ofMagnitude negative (min (e * wordSize 52 + m) infinityBits)

/-- The number next to `digits · 10 ^ exponent`.  Exponents far out of range are decided without
computing the power. -/
def ofDecimal (negative : Bool) (digits : Nat) (exponent : Int) : Binary64 :=
  if digits = 0 then ofMagnitude negative 0
  else
    let size : Int := (digits.log2 : Int) * 30103 / 100000 + exponent
    if size > 400 then infinity negative
    else if size < -400 then ofMagnitude negative 0
    else
      match exponent with
      | .ofNat n => ofRatio negative (digits * Nat.pow 10 n) 1
      | .negSucc n => ofRatio negative digits (Nat.pow 10 (n + 1))

end Binary64

end PipelineStacks
