import PipelineStacks.Text.Hex
import PipelineStacks.WordSize

/-!
# SHA-256

The 256-bit digest of the Secure Hash Standard.  A message is padded to whole blocks of 64 bytes;
each block is expanded to 64 words, and 64 rounds mix them into a chaining value of eight words.

`length_pad` says that padding fills whole blocks.
-/

namespace PipelineStacks.Sha256

/-- A word of the standard. -/
abbrev Word := UInt32

/-- Rotation to the right. -/
def rotate (n : UInt32) (x : Word) : Word :=
  (x >>> n) ||| (x <<< (32 - n))

/-- The chaining value, and the working variables of a round. -/
structure State where
  a : Word
  b : Word
  c : Word
  d : Word
  e : Word
  f : Word
  g : Word
  h : Word
deriving DecidableEq, Repr

/-- The first 32 bits of the fractional parts of the square roots of the first eight primes. -/
def State.initial : State :=
  ⟨0x6a09e667, 0xbb67ae85, 0x3c6ef372, 0xa54ff53a, 0x510e527f, 0x9b05688c, 0x1f83d9ab, 0x5be0cd19⟩

/-- The first 32 bits of the fractional parts of the cube roots of the first 64 primes. -/
def roundConstants : List Word :=
  [0x428a2f98, 0x71374491, 0xb5c0fbcf, 0xe9b5dba5, 0x3956c25b, 0x59f111f1, 0x923f82a4, 0xab1c5ed5,
    0xd807aa98, 0x12835b01, 0x243185be, 0x550c7dc3, 0x72be5d74, 0x80deb1fe, 0x9bdc06a7, 0xc19bf174,
    0xe49b69c1, 0xefbe4786, 0x0fc19dc6, 0x240ca1cc, 0x2de92c6f, 0x4a7484aa, 0x5cb0a9dc, 0x76f988da,
    0x983e5152, 0xa831c66d, 0xb00327c8, 0xbf597fc7, 0xc6e00bf3, 0xd5a79147, 0x06ca6351, 0x14292967,
    0x27b70a85, 0x2e1b2138, 0x4d2c6dfc, 0x53380d13, 0x650a7354, 0x766a0abb, 0x81c2c92e, 0x92722c85,
    0xa2bfe8a1, 0xa81a664b, 0xc24b8b70, 0xc76c51a3, 0xd192e819, 0xd6990624, 0xf40e3585, 0x106aa070,
    0x19a4c116, 0x1e376c08, 0x2748774c, 0x34b0bcb5, 0x391c0cb3, 0x4ed8aa4a, 0x5b9cca4f, 0x682e6ff3,
    0x748f82ee, 0x78a5636f, 0x84c87814, 0x8cc70208, 0x90befffa, 0xa4506ceb, 0xbef9a3f7, 0xc67178f2]

/-! ## Padding -/

/-- `n` as a number of `count` bytes, the highest first. -/
def bigEndian : Nat → Nat → Bytes
  | 0, _ => []
  | count + 1, n => bigEndian count (n / 256) ++ [UInt8.ofNat (n % 256)]

theorem length_bigEndian (count n : Nat) : (bigEndian count n).length = count := by
  induction count generalizing n with
  | zero => rfl
  | succ count ih => simp [bigEndian, ih]

/-- A one bit, zero bits up to the end of a block less eight bytes, and the length in bits. -/
def pad (message : Bytes) : Bytes :=
  message ++ 0x80 :: List.replicate ((119 - message.length % 64) % 64) 0 ++
    bigEndian 8 (message.length * 8 % wordSize 64)

/-- A padded message fills whole blocks. -/
theorem length_pad (message : Bytes) : (pad message).length % 64 = 0 := by
  simp only [pad, List.length_append, List.length_cons, List.length_replicate, length_bigEndian]
  omega

/-! ## Rounds -/

/-- The words of a block, four bytes each, the highest first. -/
def words : Bytes → List Word
  | b₀ :: b₁ :: b₂ :: b₃ :: bs =>
    ((b₀.toUInt32 <<< 24) ||| (b₁.toUInt32 <<< 16) ||| (b₂.toUInt32 <<< 8) ||| b₃.toUInt32) ::
      words bs
  | _ => []

/-- Puts `count` further words in front of the words so far, the latest of which is first. -/
def extend : Nat → List Word → List Word
  | 0, ws => ws
  | count + 1, ws =>
    let w₂ := ws.getD 1 0
    let w₁₅ := ws.getD 14 0
    let s₀ := rotate 7 w₁₅ ^^^ rotate 18 w₁₅ ^^^ (w₁₅ >>> 3)
    let s₁ := rotate 17 w₂ ^^^ rotate 19 w₂ ^^^ (w₂ >>> 10)
    extend count ((ws.getD 15 0 + s₀ + ws.getD 6 0 + s₁) :: ws)

/-- The 64 words of a block. -/
def schedule (block : Bytes) : List Word :=
  (extend 48 (words block).reverse).reverse

/-- One round with its constant and its word. -/
def round (s : State) (kw : Word × Word) : State :=
  let s₁ := rotate 6 s.e ^^^ rotate 11 s.e ^^^ rotate 25 s.e
  let choice := (s.e &&& s.f) ^^^ (~~~s.e &&& s.g)
  let t₁ := s.h + s₁ + choice + kw.1 + kw.2
  let s₀ := rotate 2 s.a ^^^ rotate 13 s.a ^^^ rotate 22 s.a
  let majority := (s.a &&& s.b) ^^^ (s.a &&& s.c) ^^^ (s.b &&& s.c)
  ⟨t₁ + (s₀ + majority), s.a, s.b, s.c, s.d + t₁, s.e, s.f, s.g⟩

/-- The sum of two states, word by word. -/
def State.add (s t : State) : State :=
  ⟨s.a + t.a, s.b + t.b, s.c + t.c, s.d + t.d, s.e + t.e, s.f + t.f, s.g + t.g, s.h + t.h⟩

/-- Mixes one block into the chaining value. -/
def compress (s : State) (block : Bytes) : State :=
  s.add ((roundConstants.zip (schedule block)).foldl round s)

/-- Mixes whole blocks of 64 bytes. -/
def mix (s : State) (bs : Bytes) : State :=
  if h : bs.length < 64 then s
  else
    have : (bs.drop 64).length < bs.length := by
      rw [List.length_drop]
      omega
    mix (compress s (bs.take 64)) (bs.drop 64)
termination_by bs.length

/-- The eight words of the digest. -/
def State.words (s : State) : List Word :=
  [s.a, s.b, s.c, s.d, s.e, s.f, s.g, s.h]

/-- The digest of a message in 32 bytes. -/
def digest (message : Bytes) : Bytes :=
  (mix State.initial (pad message)).words.flatMap fun w => bigEndian 4 w.toNat

/-- The digest of a message in 64 small hexadecimal digits. -/
def hex (message : Bytes) : String :=
  String.ofList (Hex.ofBytes (digest message))

end PipelineStacks.Sha256
