/-!
# UTF-8

Lists of bytes read as text.  A lead byte fixes how many bytes follow and in which range the first
of them lies; `Utf8.step` reads one character by that table.  A reader can refuse the first fault,
saying where it is (`Utf8.decode`), or put a replacement character in place of each longest part
that starts no character (`Utf8.decodeLossy`).

`Utf8.Step.rest_length_lt` says that a step always consumes something.
-/

namespace PipelineStacks

/-- A sequence of bytes. -/
abbrev Bytes := List UInt8

namespace Utf8

/-- The bytes of a text. -/
def encode (cs : List Char) : Bytes :=
  cs.flatMap String.utf8EncodeChar

/-- The bytes of a string. -/
def encodeString (s : String) : Bytes :=
  encode s.toList

/-- What a lead byte announces: the bits it carries, the number of bytes that follow and the
range of the first of these. -/
structure Lead where
  payload : Nat
  count : Nat
  low : Nat
  high : Nat
deriving DecidableEq, Repr

/-- The table of lead bytes.  Overlong forms, surrogates and values above the last code point are
left out through the ranges. -/
def lead? (b : Nat) : Option Lead :=
  if b < 0x80 then some ⟨b, 0, 0, 0⟩
  else if 0xC2 ≤ b ∧ b ≤ 0xDF then some ⟨b - 0xC0, 1, 0x80, 0xBF⟩
  else if b = 0xE0 then some ⟨0, 2, 0xA0, 0xBF⟩
  else if b = 0xED then some ⟨0xD, 2, 0x80, 0x9F⟩
  else if 0xE1 ≤ b ∧ b ≤ 0xEF then some ⟨b - 0xE0, 2, 0x80, 0xBF⟩
  else if b = 0xF0 then some ⟨0, 3, 0x90, 0xBF⟩
  else if 0xF1 ≤ b ∧ b ≤ 0xF3 then some ⟨b - 0xF0, 3, 0x80, 0xBF⟩
  else if b = 0xF4 then some ⟨4, 3, 0x80, 0x8F⟩
  else none

/-- What stands at the front of a list of bytes. -/
inductive Step
  /-- A character of `size` bytes. -/
  | char (c : Char) (size : Nat) (rest : Bytes)
  /-- `size` bytes that start no character, whatever follows. -/
  | invalid (size : Nat) (rest : Bytes)
  /-- `size` bytes that start a character and end the list. -/
  | incomplete (size : Nat)

/-- Reads `count` more bytes of a character, the first of them between `low` and `high`. -/
def tail (count low high value size : Nat) (bs : Bytes) : Step :=
  match count, bs with
  | 0, bs => .char (Char.ofNat value) size bs
  | _ + 1, [] => .incomplete size
  | count + 1, b :: bs =>
    if low ≤ b.toNat ∧ b.toNat ≤ high then
      tail count 0x80 0xBF (value * 64 + b.toNat % 64) (size + 1) bs
    else .invalid size (b :: bs)

/-- Reads one character behind its lead byte. -/
def step (b : UInt8) (bs : Bytes) : Step :=
  match lead? b.toNat with
  | some l => tail l.count l.low l.high l.payload 1 bs
  | none => .invalid 1 bs

/-- The bytes left after a step. -/
def Step.rest : Step → Bytes
  | .char _ _ rest => rest
  | .invalid _ rest => rest
  | .incomplete _ => []

theorem tail_rest_length_le (count low high value size : Nat) (bs : Bytes) :
    (tail count low high value size bs).rest.length ≤ bs.length := by
  induction count generalizing low high value size bs with
  | zero => simp [tail, Step.rest]
  | succ count ih =>
    cases bs with
    | nil => simp [tail, Step.rest]
    | cons b bs =>
      unfold tail
      split
      · exact Nat.le_succ_of_le (ih _ _ _ _ _)
      · simp [Step.rest]

/-- A step consumes at least its lead byte. -/
theorem Step.rest_length_lt (b : UInt8) (bs : Bytes) :
    (step b bs).rest.length < (b :: bs).length := by
  unfold step
  split
  · exact Nat.lt_succ_of_le (tail_rest_length_le _ _ _ _ _ _)
  · simp [Step.rest]

/-- Where and how a text stops being UTF-8. -/
inductive Fault
  /-- `size` bytes from `index` on start no character. -/
  | invalid (size index : Nat)
  /-- The last bytes, from `index` on, start a character that is not finished. -/
  | incomplete (index : Nat)
deriving DecidableEq, Repr

/-- The wording of a fault. -/
def Fault.message : Fault → String
  | .invalid size index =>
    "invalid utf-8 sequence of " ++ toString size ++ " bytes from index " ++ toString index
  | .incomplete index => "incomplete utf-8 byte sequence from index " ++ toString index

/-- Reads bytes from position `index` on as text, up to the first fault. -/
def decodeFrom (index : Nat) (bs : Bytes) : Except Fault (List Char) :=
  match bs with
  | [] => .ok []
  | b :: bs =>
    have := Step.rest_length_lt b bs
    match hs : step b bs with
    | .char c size rest =>
      have : rest.length < (b :: bs).length := by simpa [hs, Step.rest] using this
      match decodeFrom (index + size) rest with
      | .ok cs => .ok (c :: cs)
      | .error fault => .error fault
    | .invalid size _ => .error (.invalid size index)
    | .incomplete _ => .error (.incomplete index)
termination_by bs.length
decreasing_by assumption

/-- The text of `bs`, or the first fault in it. -/
def decode (bs : Bytes) : Except Fault (List Char) :=
  decodeFrom 0 bs

/-- The character that stands for bytes that are no text. -/
def replacement : Char := '\uFFFD'

/-- The text of `bs` with a replacement character for each longest part that starts no
character. -/
def decodeLossy (bs : Bytes) : List Char :=
  match bs with
  | [] => []
  | b :: bs =>
    have := Step.rest_length_lt b bs
    match hs : step b bs with
    | .char c _ rest =>
      have : rest.length < (b :: bs).length := by simpa [hs, Step.rest] using this
      c :: decodeLossy rest
    | .invalid _ rest =>
      have : rest.length < (b :: bs).length := by simpa [hs, Step.rest] using this
      replacement :: decodeLossy rest
    | .incomplete _ => [replacement]
termination_by bs.length
decreasing_by all_goals assumption

/-- The string of `bs`, if they are UTF-8. -/
def string? (bs : Bytes) : Option String :=
  match decode bs with
  | .ok cs => some (String.ofList cs)
  | .error _ => none

end Utf8

end PipelineStacks
