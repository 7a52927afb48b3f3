import PipelineStacks.Archive.Crc32
import PipelineStacks.Archive.Inflate
import PipelineStacks.WordSize

/-!
# Compressed files

A compressed file is a header, deflated data and a check.  `Gzip.contents` yields the data and says
what a reader finds behind it: the end, a fault of the format, or that the file was cut off.  The
check counts only for a reader who reads beyond the last byte of the data.
-/

namespace PipelineStacks.Gzip

/-- What stands behind the data that can be read. -/
inductive Ending
  /-- The end of the file. -/
  | complete
  /-- A fault of the format. -/
  | damaged
  /-- The file was cut off. -/
  | cut
deriving DecidableEq, Repr, Inhabited

/-- Data that can be read, and what is found behind it. -/
structure Contents where
  bytes : Bytes
  ending : Ending
deriving DecidableEq, Repr, Inhabited

/-- The ending that a fault makes. -/
def Ending.ofFlaw : Inflate.Flaw → Ending
  | .damaged => .damaged
  | .cut => .cut

/-- A number of bytes, the lowest first. -/
def littleEndian (bs : Bytes) : Nat :=
  bs.foldr (fun b n => b.toNat + 256 * n) 0

/-- The next `n` bytes. -/
def take (n : Nat) (bs : Bytes) : Except Ending (Bytes × Bytes) :=
  if bs.length < n then .error .cut else .ok (bs.take n, bs.drop n)

/-- The longest text in a header. -/
def longestText : Nat := 65535

/-- The rest behind a text that ends with a zero. -/
def skipText (bs : Bytes) : Except Ending Bytes :=
  let text := bs.takeWhile (· ≠ 0)
  if longestText < text.length then .error .damaged
  else if text.length = bs.length then .error .cut
  else .ok (bs.drop (text.length + 1))

/-- The rest behind the header. -/
def skipHeader (bs : Bytes) : Except Ending Bytes := do
  let (start, rest) ← take 10 bs
  let flags := ((start.drop 3).headD 0).toNat
  if start.take 3 ≠ [0x1F, 0x8B, 8] ∨ 0x20 ≤ flags then throw .damaged
  let rest ← if flags.testBit 2 then do
    let (size, rest) ← take 2 rest
    let (_, rest) ← take (littleEndian size) rest
    pure rest
  else pure rest
  let rest ← if flags.testBit 3 then skipText rest else pure rest
  let rest ← if flags.testBit 4 then skipText rest else pure rest
  if flags.testBit 1 then
    let header := bs.take (bs.length - rest.length)
    let (check, rest) ← take 2 rest
    if littleEndian check = (Crc32.ofBytes header).toNat % 0x10000 then return rest
    else throw .damaged
  else return rest

/-- What is behind data that is complete: the check of the data and its length, and an end. -/
def ending (data rest : Bytes) : Ending :=
  match take 8 rest with
  | .error e => e
  | .ok (check, _) =>
    if littleEndian (check.take 4) = (Crc32.ofBytes data).toNat ∧
        littleEndian (check.drop 4) = data.length % wordSize 32 then .complete
    else .damaged

/-- Data is handed on in windows of this size; of the window with a fault nothing is. -/
def window : Nat := 32768

/-- The data of a compressed file. -/
def contents (bs : Bytes) : Contents :=
  match skipHeader bs with
  | .error e => ⟨[], e⟩
  | .ok rest =>
    match Inflate.inflate rest with
    | (data, .ok rest) => ⟨data, ending data rest⟩
    | (data, .error .cut) => ⟨data, .cut⟩
    | (data, .error .damaged) => ⟨data.take (data.length / window * window), .damaged⟩

end PipelineStacks.Gzip
