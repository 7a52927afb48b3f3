import PipelineStacks.Text.Utf8

/-!
# Hexadecimal digits

Bytes and words written in small hexadecimal digits, and the reading of digits in either case.
`digitValue?_digit` says that a written digit reads back.
-/

namespace PipelineStacks.Hex

/-- The digit of a value below 16. -/
def digit (n : Nat) : Char :=
  if n < 10 then Char.ofNat (48 + n) else Char.ofNat (87 + n)

/-- The value of a digit in either case. -/
def digitValue? (c : Char) : Option Nat :=
  let n := c.toNat
  if 48 ≤ n ∧ n ≤ 57 then some (n - 48)
  else if 97 ≤ n ∧ n ≤ 102 then some (n - 87)
  else if 65 ≤ n ∧ n ≤ 70 then some (n - 55)
  else none

/-- A written digit reads back. -/
theorem digitValue?_digit {n : Nat} (h : n < 16) : digitValue? (digit n) = some n := by
  have : ∀ n : Fin 16, digitValue? (digit n.val) = some n.val := by decide
  exact this ⟨n, h⟩

/-- The two digits of a byte. -/
def ofByte (b : UInt8) : List Char :=
  [digit (b.toNat / 16), digit (b.toNat % 16)]

/-- The digits of a sequence of bytes, two for each. -/
def ofBytes (bs : Bytes) : List Char :=
  bs.flatMap ofByte

/-- The bytes written by pairs of digits. -/
def bytes? : List Char → Option Bytes
  | [] => some []
  | [_] => none
  | a :: b :: cs => do
    let high ← digitValue? a
    let low ← digitValue? b
    let rest ← bytes? cs
    return UInt8.ofNat (high * 16 + low) :: rest

/-- Written bytes read back. -/
theorem bytes?_ofBytes (bs : Bytes) : bytes? (ofBytes bs) = some bs := by
  induction bs with
  | nil => rfl
  | cons b bs ih =>
    have hb : b.toNat < 256 := b.toNat_lt
    have hhigh : b.toNat / 16 < 16 := by omega
    have hlow : b.toNat % 16 < 16 := by omega
    have hjoin : UInt8.ofNat (b.toNat / 16 * 16 + b.toNat % 16) = b := by
      rw [Nat.div_add_mod']
      exact UInt8.ofNat_toNat
    have ih' : bytes? (List.flatMap ofByte bs) = some bs := ih
    simp only [ofBytes, ofByte, List.flatMap_cons, List.cons_append, List.nil_append, bytes?,
      digitValue?_digit hhigh, digitValue?_digit hlow, ih', Option.bind_eq_bind, Option.bind_some,
      hjoin]
    rfl

/-- The last `width` hexadecimal digits of `n`. -/
def ofNat (width n : Nat) : List Char :=
  match width with
  | 0 => []
  | width + 1 => ofNat width (n / 16) ++ [digit (n % 16)]

end PipelineStacks.Hex
