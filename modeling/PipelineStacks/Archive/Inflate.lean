import PipelineStacks.Text.Utf8

/-!
# Deflated data

The format of compressed data: blocks that are stored as they are, or written in two prefix codes,
one for bytes and lengths and one for distances.  `inflate` yields the data up to the first fault.

`bits_length` says how many bits there are, and `copy_length` that a repetition is as long as it
says; the number of bits bounds every loop.
-/

namespace PipelineStacks.Inflate

/-- Bits in the order in which they are read. -/
abbrev Bits := List Bool

/-- Why data ends before its end. -/
inductive Flaw
  /-- The format is violated. -/
  | damaged
  /-- There is not enough of it. -/
  | cut
deriving DecidableEq, Repr, Inhabited

/-! ## Bits -/

/-- The bits of bytes, the lowest of each byte first. -/
def bits (bs : Bytes) : Bits :=
  bs.flatMap fun b => (List.range 8).map fun i => b.toNat.testBit i

theorem bits_length (bs : Bytes) : (bits bs).length = 8 * bs.length := by
  induction bs with
  | nil => rfl
  | cons b bs ih =>
    simp only [bits, List.flatMap_cons, List.length_append, List.length_map, List.length_range,
      List.length_cons] at ih ⊢
    omega

/-- The number that bits write, the lowest first. -/
def value (b : Bits) : Nat :=
  b.foldr (fun b n => b.toNat + 2 * n) 0

/-- The number written by the next `n` bits. -/
def number (n : Nat) (b : Bits) : Except Flaw (Nat × Bits) :=
  let taken := b.take n
  if taken.length < n then .error .cut else .ok (value taken, b.drop n)

/-- Bytes from bits; what is left of them is dropped. -/
def bytes (count : Nat) (b : Bits) : Bytes :=
  match count with
  | 0 => []
  | count + 1 => UInt8.ofNat (value (b.take 8)) :: bytes count (b.drop 8)

/-! ## Prefix codes -/

/-- A prefix code: how many words it has of each length from one, and the symbols by their words. -/
structure Code where
  counts : List Nat
  symbols : List Nat

/-- The sum of some numbers. -/
def total (ns : List Nat) : Nat :=
  ns.foldr (· + ·) 0

/-- The code that the lengths of the words determine; a length of zero is no word.  The words have
to be all that there can be, unless there is at most one. -/
def Code.ofLengths (lengths : List Nat) : Except Flaw Code :=
  let counts := (List.range 15).map fun i => lengths.countP (· = i + 1)
  let filled := total (counts.zipIdx.map fun (n, i) => n * Nat.pow 2 (14 - i))
  if filled != 32768 && 1 < total counts then .error .damaged
  else
    let symbols := (List.range 15).flatMap fun i =>
      lengths.zipIdx.filterMap fun (n, s) => if n = i + 1 then some s else none
    .ok ⟨counts, symbols⟩

/-- Reads a word bit by bit.  Of the words of one length, `first` is the first and `index` tells
how many symbols have shorter ones. -/
def Code.walk (symbols : List Nat) (word first index : Nat) :
    List Nat → Bits → Except Flaw (Nat × Bits)
  | [], _ => .error .damaged
  | _ :: _, [] => .error .cut
  | count :: counts, b :: rest =>
    let word := word + b.toNat
    if word < first + count then
      match symbols[index + (word - first)]? with
      | some s => .ok (s, rest)
      | none => .error .damaged
    else walk symbols (2 * word) (2 * (first + count)) (index + count) counts rest

/-- The next symbol. -/
def Code.symbol (c : Code) (b : Bits) : Except Flaw (Nat × Bits) :=
  Code.walk c.symbols 0 0 0 c.counts b

/-! ## Repetitions -/

/-- The smallest length and the number of further bits for each symbol from 257. -/
def lengthTable : List (Nat × Nat) :=
  [(3, 0), (4, 0), (5, 0), (6, 0), (7, 0), (8, 0), (9, 0), (10, 0), (11, 1), (13, 1), (15, 1),
    (17, 1), (19, 2), (23, 2), (27, 2), (31, 2), (35, 3), (43, 3), (51, 3), (59, 3), (67, 4),
    (83, 4), (99, 4), (115, 4), (131, 5), (163, 5), (195, 5), (227, 5), (258, 0)]

/-- The smallest distance and the number of further bits for each symbol. -/
def distanceTable : List (Nat × Nat) :=
  [(1, 0), (2, 0), (3, 0), (4, 0), (5, 1), (7, 1), (9, 2), (13, 2), (17, 3), (25, 3), (33, 4),
    (49, 4), (65, 5), (97, 5), (129, 6), (193, 6), (257, 7), (385, 7), (513, 8), (769, 8),
    (1025, 9), (1537, 9), (2049, 10), (3073, 10), (4097, 11), (6145, 11), (8193, 12), (12289, 12),
    (16385, 13), (24577, 13)]

/-- The number that a symbol of a table and the bits behind it write. -/
def extended (table : List (Nat × Nat)) (symbol : Nat) (b : Bits) : Except Flaw (Nat × Bits) :=
  match table[symbol]? with
  | none => .error .damaged
  | some (base, extra) => do
    let (n, b) ← number extra b
    return (base + n, b)

/-- Repeats `count` bytes from `distance` bytes back.  The bytes are listed last one first. -/
def copy (distance count : Nat) (out : Bytes) : Bytes :=
  if _ : count ≤ distance ∨ distance = 0 then (out.drop (distance - count)).take count ++ out
  else copy distance (count - distance) (out.take distance ++ out)
termination_by count
decreasing_by omega

theorem copy_length (distance count : Nat) (out : Bytes) (hd : 0 < distance)
    (h : distance ≤ out.length) : (copy distance count out).length = count + out.length := by
  induction count using Nat.strongRecOn generalizing out with
  | _ count ih =>
    unfold copy
    split
    · simp only [List.length_append, List.length_take, List.length_drop]
      omega
    · rw [ih (count - distance) (by omega) _ (by simp; omega)]
      simp only [List.length_append, List.length_take]
      omega

/-! ## Blocks -/

/-- Data up to a fault. -/
structure Progress where
  /-- The bytes, last one first. -/
  out : Bytes
  /-- The fault, or else the bits that follow. -/
  rest : Except Flaw Bits

/-- The symbols of a block up to its end. -/
def symbols (literal distance : Code) (fuel : Nat) (b : Bits) (out : Bytes) : Progress :=
  match fuel with
  | 0 => ⟨out, .error .cut⟩
  | fuel + 1 =>
    match literal.symbol b with
    | .error e => ⟨out, .error e⟩
    | .ok (s, b) =>
      if s < 256 then symbols literal distance fuel b (UInt8.ofNat s :: out)
      else if s = 256 then ⟨out, .ok b⟩
      else
        let repetition : Except Flaw (Nat × Nat × Bits) := do
          let (count, b) ← extended lengthTable (s - 257) b
          let (s, b) ← distance.symbol b
          let (back, b) ← extended distanceTable s b
          return (count, back, b)
        match repetition with
        | .error e => ⟨out, .error e⟩
        | .ok (count, back, b) =>
          if out.length < back then ⟨out, .error .damaged⟩
          else symbols literal distance fuel b (copy back count out)

/-- A block that is stored as it is: it starts with a byte and tells its length twice. -/
def stored (b : Bits) (out : Bytes) : Progress :=
  let header : Except Flaw (Nat × Bits) := do
    let (size, b) ← number 16 (b.drop (b.length % 8))
    let (complement, b) ← number 16 b
    if size + complement = 0xFFFF then return (size, b) else throw .damaged
  match header with
  | .error e => ⟨out, .error e⟩
  | .ok (size, b) =>
    let available := min size (b.length / 8)
    let out := (bytes available b).reverse ++ out
    if available < size then ⟨out, .error .cut⟩ else ⟨out, .ok (b.drop (8 * size))⟩

/-- The lengths of words, which are themselves written in a code with three signs for runs. -/
def lengths (code : Code) (fuel total : Nat) (b : Bits) (found : List Nat) :
    Except Flaw (List Nat × Bits) :=
  match fuel with
  | 0 => .error .cut
  | fuel + 1 =>
    if found.length = total then .ok (found.reverse, b)
    else if total < found.length then .error .damaged
    else
      match code.symbol b with
      | .error e => .error e
      | .ok (s, b) =>
        let run := fun (bits least : Nat) (n : Option Nat) =>
          match n, number bits b with
          | none, _ => Except.error Flaw.damaged
          | _, .error e => .error e
          | some n, .ok (k, b) => .ok (List.replicate (least + k) n, b)
        let step : Except Flaw (List Nat × Bits) :=
          if s < 16 then .ok ([s], b)
          else if s = 16 then run 2 3 found.head?
          else if s = 17 then run 3 3 (some 0)
          else run 7 11 (some 0)
        match step with
        | .error e => .error e
        | .ok (more, b) => lengths code fuel total b (more ++ found)

/-- The order in which the lengths of the words for lengths are written. -/
def lengthOrder : List Nat :=
  [16, 17, 18, 0, 8, 7, 9, 6, 10, 5, 11, 4, 12, 3, 13, 2, 14, 1, 15]

/-- The next numbers of three bits. -/
def triples (count : Nat) (b : Bits) : Except Flaw (List Nat × Bits) :=
  match count with
  | 0 => .ok ([], b)
  | count + 1 => do
    let (n, b) ← number 3 b
    let (ns, b) ← triples count b
    return (n :: ns, b)

/-- The two codes that a block describes. -/
def describedCodes (b : Bits) : Except Flaw (Code × Code × Bits) := do
  let (literals, b) ← number 5 b
  let (distances, b) ← number 5 b
  let (described, b) ← number 4 b
  if 286 < literals + 257 ∨ 30 < distances + 1 then throw .damaged
  let (widths, b) ← triples (described + 4) b
  let byOrder := lengthOrder.zip widths
  let code ← Code.ofLengths ((List.range 19).map fun s => (byOrder.lookup s).getD 0)
  let total := literals + 257 + (distances + 1)
  let (all, b) ← lengths code (total + 1) total b []
  let literal ← Code.ofLengths (all.take (literals + 257))
  let distance ← Code.ofLengths (all.drop (literals + 257))
  return (literal, distance, b)

/-- The two codes of blocks that describe none. -/
def fixedCodes : Except Flaw (Code × Code) := do
  let literal ← Code.ofLengths (List.replicate 144 8 ++ List.replicate 112 9 ++
    List.replicate 24 7 ++ List.replicate 8 8)
  let distance ← Code.ofLengths (List.replicate 32 5)
  return (literal, distance)

/-- One block behind its first bit. -/
def block (b : Bits) (out : Bytes) : Progress :=
  let size := b.length
  match number 2 b with
  | .error e => ⟨out, .error e⟩
  | .ok (kind, b) =>
    if kind = 0 then stored b out
    else if kind = 1 then
      match fixedCodes with
      | .error e => ⟨out, .error e⟩
      | .ok (literal, distance) => symbols literal distance (size + 1) b out
    else if kind = 2 then
      match describedCodes b with
      | .error e => ⟨out, .error e⟩
      | .ok (literal, distance, b) => symbols literal distance (size + 1) b out
    else ⟨out, .error .damaged⟩

/-- Blocks up to the last one. -/
def blocks (fuel : Nat) (b : Bits) (out : Bytes) : Progress :=
  match fuel, b with
  | 0, _ => ⟨out, .error .cut⟩
  | _, [] => ⟨out, .error .cut⟩
  | fuel + 1, isLast :: b =>
    let p := block b out
    match p.rest with
    | .error _ => p
    | .ok b => if isLast then p else blocks fuel b p.out

/-- The data in deflated form, and either the bytes behind it or the fault that ended it. -/
def inflate (bs : Bytes) : Bytes × Except Flaw Bytes :=
  let b := bits bs
  let p := blocks (b.length + 1) b []
  (p.out.reverse, p.rest.map fun rest => bs.drop (bs.length - rest.length / 8))

end PipelineStacks.Inflate
