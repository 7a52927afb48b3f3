import PipelineStacks.Archive.Gzip
import PipelineStacks.Text.Blank
import PipelineStacks.Text.Chars
import PipelineStacks.WordSize

/-!
# Archives of files

An archive is a run of entries, each a header of one block and the data of a file, filled up to
whole blocks.  `Tar.listing` reads the entries of an archive in order, up to the first fault.

Some entries describe the one that follows: a name too long for its header, or a list of further
attributes.  A sparse entry holds only those parts of a file that are not zero.
-/

namespace PipelineStacks.Tar

open Gzip (Contents Ending)

/-- Why an archive cannot be read on. -/
inductive Fault
  | unreadable (reason : String)
  /-- The archive was cut off in an entry, or between entries. -/
  | truncated (name : String)
deriving DecidableEq, Repr, Inhabited

/-- A file of an archive. -/
structure Entry where
  name : String
  data : Bytes
deriving DecidableEq, Repr, Inhabited

/-- The files of an archive, up to its first fault. -/
structure Listing where
  entries : List Entry
  fault : Option Fault
deriving Repr, Inhabited

/-- The size of a block. -/
def blockSize : Nat := 512

/-- Where no entry has a name, the archive stands for it. -/
def wholeArchive : String := "<archive>"

/-! ## The tape -/

/-- What is still to be read, and the place where it starts. -/
structure Tape where
  rest : Bytes
  position : Nat
  ending : Ending

/-- The fault of a tape that ended while more was needed. -/
def faultAt (name : String) (atEnd : Fault) : Ending → Fault
  | .complete => atEnd
  | .damaged => .unreadable "corrupt compressed data"
  | .cut => .truncated name

/-- The next `n` bytes; `atEnd` is the fault if the tape ends before them. -/
def Tape.take (t : Tape) (n : Nat) (name : String) (atEnd : Fault) :
    Except Fault (Bytes × Tape) :=
  let taken := t.rest.take n
  if taken.length < n then .error (faultAt name atEnd t.ending)
  else .ok (taken, { t with rest := t.rest.drop n, position := t.position + n })

/-- A block; none at the end of the tape. -/
def Tape.block? (t : Tape) : Except Fault (Option (Bytes × Tape)) :=
  if t.rest.isEmpty && t.ending == .complete then .ok none
  else (t.take blockSize wholeArchive (.unreadable "failed to read entire block")).map some

/-- Goes on to a position. -/
def Tape.skipTo (t : Tape) (position : Nat) : Except Fault Tape := do
  let (_, t) ← t.take (position - t.position) wholeArchive
    (.unreadable "unexpected EOF during skip")
  return t

/-- All of the next `n` bytes that there are. -/
def Tape.takeUpTo (t : Tape) (n : Nat) : Except Fault (Bytes × Tape) :=
  let taken := t.rest.take n
  if taken.length < n ∧ t.ending ≠ .complete then
    .error (faultAt wholeArchive (.unreadable "") t.ending)
  else
    .ok (taken, { t with rest := t.rest.drop n, position := t.position + taken.length })

/-! ## Fields of a header -/

/-- The bytes of a field. -/
def field (header : Bytes) (start size : Nat) : Bytes :=
  (header.drop start).take size

/-- A field up to its first zero. -/
def upToZero (bs : Bytes) : Bytes :=
  bs.takeWhile (· ≠ 0)

/-- A number in octal digits, with blanks around it and perhaps a plus sign before it. -/
def octal (bs : Bytes) : Except Fault Nat :=
  let unreadable := .error (.unreadable "numeric field was not a number")
  match Utf8.decode (upToZero bs) with
  | .error _ => unreadable
  | .ok cs =>
    let digits := match Text.trim cs with
      | '+' :: ds => ds
      | ds => ds
    if digits.isEmpty || !digits.all fun c => '0' ≤ c && c ≤ '7' then unreadable
    else
      let n := digits.foldl (fun n c => n * 8 + (c.toNat - 48)) 0
      if n < wordSize 64 then .ok n else unreadable

/-- The number in the last eight bytes of a field that holds bytes and not digits. -/
def binary (bs : Bytes) : Nat :=
  (bs.drop (bs.length - 8)).foldl (fun n b => n * 256 + b.toNat) 0

/-- A number in octal digits, or in bytes if the first bit is set. -/
def sizeField (bs : Bytes) : Except Fault Nat :=
  if 0x80 ≤ (bs.headD 0).toNat then .ok (binary bs) else octal bs

/-- The kinds of headers. -/
inductive Format
  | old
  | standard
  | extended
deriving DecidableEq, Repr

/-- The kind of a header. -/
def format (header : Bytes) : Format :=
  let magic := field header 257 8
  if magic = Utf8.encodeString "ustar  \x00" then .extended
  else if magic = Utf8.encodeString "ustar\x0000" then .standard
  else .old

/-- The letter for the type of an entry. -/
def typeLetter (header : Bytes) : Char :=
  Char.ofNat ((header.drop 156).headD 0).toNat

/-- The sum of all bytes, those of the sum itself counting as blanks. -/
def checksum (header : Bytes) : Nat :=
  let sum := fun (bs : Bytes) => bs.foldl (fun n b => n + b.toNat) 0
  sum (header.take 148) + sum (header.drop 156) + 8 * 32

/-- The name in a header. -/
def headerName (header : Bytes) : Bytes :=
  let name := upToZero (field header 0 100)
  let folder := upToZero (field header 345 155)
  if format header = .standard ∧ folder ≠ [] then folder ++ '/'.toUInt8 :: name else name

/-! ## Attributes -/

/-- A number of 64 bits in decimal digits, perhaps with a plus sign before it. -/
def decimal? (bs : Bytes) : Option Nat :=
  match Utf8.string? bs with
  | none => none
  | some text =>
    let digits := match text.toList with
      | '+' :: ds => ds
      | ds => ds
    let n := digits.foldl (fun n c => n * 10 + (c.toNat - 48)) 0
    if digits.isEmpty || !digits.all Char.isDigit || wordSize 64 ≤ n then none else some n

/-- An attribute of the entry that follows; none for a line that is malformed. -/
def attribute? (line : Bytes) : Option (Bytes × Bytes) :=
  let size := line.takeWhile (· ≠ ' '.toUInt8)
  let rest := line.drop (size.length + 1)
  let key := rest.takeWhile (· ≠ '='.toUInt8)
  if size.length < line.length && decimal? size == some (line.length + 1) &&
      key.length < rest.length then
    some (key, rest.drop (key.length + 1))
  else none

/-- The lines of a list of attributes, up to the first that is empty. -/
def attributeLines (bs : Bytes) : List Bytes :=
  (bs.splitOn '\n'.toUInt8).takeWhile (!·.isEmpty)

/-- The name among the attributes. -/
def attributeName? (bs : Bytes) : Option Bytes :=
  (((attributeLines bs).filterMap attribute?).find? (·.1 = Utf8.encodeString "path")).map (·.2)

/-- The size among the attributes; it counts only if every line before it is well formed. -/
def attributeSize? (lines : List Bytes) : Option Nat :=
  match lines with
  | [] => none
  | line :: lines =>
    match attribute? line with
    | none => none
    | some (key, value) =>
      if key ≠ Utf8.encodeString "size" then attributeSize? lines
      else decimal? value

/-! ## Entries -/

/-- The next header with what follows from it. -/
structure Member where
  header : Bytes
  /-- How much data follows. -/
  size : Nat
  /-- Where the data and its filling end. -/
  next : Nat

/-- Reads the next header.  An empty block ends the archive. -/
def member? (attributes : Option Bytes) (next : Nat) (t : Tape) :
    Except Fault (Option (Member × Tape)) := do
  let t ← t.skipTo next
  match ← t.block? with
  | none => return none
  | some (header, t) =>
    if header.all (· = 0) then return none
    if checksum header ≠ (← octal (field header 148 8)) then
      throw (.unreadable "archive header checksum mismatch")
    let size ← sizeField (field header 124 12)
    let size := (attributes.bind (attributeSize? ∘ attributeLines)).getD size
    let next := t.position + (size + 511) / blockSize * blockSize
    if wordSize 64 ≤ size + 511 ∨ wordSize 64 ≤ next then throw (.unreadable "size overflow")
    return some (⟨header, size, next⟩, t)

/-- Part of a sparse file. -/
structure Part where
  offset : Nat
  size : Nat

/-- The parts that are listed in a field. -/
def parts (count : Nat) (bs : Bytes) : Except Fault (List Part) :=
  match count with
  | 0 => .ok []
  | count + 1 => do
    let offset := field bs 0 12
    let size := field bs 12 12
    let rest ← parts count (bs.drop 24)
    if offset.headD 0 = 0 ∨ size.headD 0 = 0 then return rest
    return ⟨← octal offset, ← octal size⟩ :: rest

/-- How far the parts of a file reach, and how much data they use. -/
structure Extent where
  reached : Nat := 0
  used : Nat := 0

/-- Adds a part.  Parts follow one another, start on whole blocks of data, and use no more than
there is. -/
def Extent.add (size : Nat) (e : Extent) (p : Part) : Except Fault Extent :=
  if p.size ≠ 0 ∧ e.used % blockSize ≠ 0 then
    .error (.unreadable "previous block in sparse file was not aligned to 512-byte boundary")
  else if p.offset < e.reached then
    .error (.unreadable "out of order or overlapping sparse blocks")
  else if wordSize 64 ≤ p.offset + p.size then
    .error (.unreadable "more bytes listed in sparse file than u64 can hold")
  else if size < e.used + p.size then
    .error (.unreadable "sparse file consumed more data than the header listed")
  else .ok ⟨p.offset + p.size, e.used + p.size⟩

/-- What is known of a sparse file while its parts are read. -/
structure Sparse where
  parts : List Part
  extent : Extent
  /-- Where its data and their filling end. -/
  next : Nat
  tape : Tape

/-- The parts that are listed in further blocks. -/
def furtherParts (fuel size : Nat) (s : Sparse) : Except Fault Sparse :=
  match fuel with
  | 0 => .error (.unreadable "failed to read extension")
  | fuel + 1 =>
    match s.tape.block? with
    | .error e => .error e
    | .ok none => .error (.unreadable "failed to read extension")
    | .ok (some (block, t)) =>
      let step : Except Fault Sparse := do
        let listed ← parts 21 block
        let extent ← listed.foldlM (Extent.add size) s.extent
        return ⟨s.parts ++ listed, extent, s.next + blockSize, t⟩
      match step with
      | .error e => .error e
      | .ok s => if (block.drop 504).headD 0 = 1 then furtherParts fuel size s else .ok s

/-- The file that parts make. -/
def assemble : (reached : Nat) → List Part → Bytes → Bytes
  | _, [], _ => []
  | reached, p :: ps, data =>
    List.replicate (p.offset - reached) 0 ++ data.take p.size ++
      assemble (p.offset + p.size) ps (data.drop p.size)

/-- Reads the file of an entry under its name.  Attributes may give the entry another size than its
header does; the header tells how much of it is the file. -/
def file (m : Member) (name : String) (t : Tape) : Except Fault (Bytes × Nat × Tape) := do
  let short := Fault.truncated name
  if typeLetter m.header = 'S' then
    if format m.header ≠ .extended then
      throw (.unreadable "sparse entry type listed but not GNU header")
    let listed ← parts 4 (field m.header 386 96)
    let s : Sparse := ⟨listed, ← listed.foldlM (Extent.add m.size) {}, m.next, t⟩
    let s ← if (m.header.drop 482).headD 0 = 1
      then furtherParts (t.rest.length / blockSize + 1) m.size s
      else pure s
    if s.extent.reached ≠ (← octal (field m.header 483 12)) then
      throw (.unreadable "mismatch in sparse file chunks and size in header")
    if s.extent.used ≠ m.size then
      throw (.unreadable "mismatch in sparse file chunks and entry size in header")
    let (data, t) ← s.tape.take m.size name short
    return (assemble 0 s.parts data, s.next, t)
  else
    let said ← sizeField (field m.header 124 12)
    let (data, t) ← t.take (min said m.size) name short
    if m.size < said then throw short
    return (data, m.next, t)

/-- What earlier entries say about the one that follows. -/
structure Described where
  longName : Option Bytes := none
  longLink : Option Bytes := none
  attributes : Option Bytes := none

/-- Nothing is said yet. -/
def Described.isEmpty (d : Described) : Bool :=
  d.longName.isNone && d.longLink.isNone && d.attributes.isNone

/-- The name of an entry.  Bytes that are no text are replaced. -/
def entryName (d : Described) (header : Bytes) : String :=
  let bytes := match d.longName, d.attributes.bind attributeName? with
    | some name, _ => if name.getLast? = some 0 then name.dropLast else name
    | none, some name => name
    | none, none => headerName header
  String.ofList (Utf8.decodeLossy bytes)

/-- The description that an entry adds to those before it; none if it is a file. -/
def describe? (d : Described) (m : Member) (t : Tape) :
    Except Fault (Option (Described × Tape)) := do
  let twice := Fault.unreadable "two entries describing the same member"
  let letter := if format m.header = .old then '0' else typeLetter m.header
  if letter = 'L' then
    if d.longName.isSome then throw twice
    let (data, t) ← t.takeUpTo m.size
    return some ({ d with longName := some data }, t)
  else if letter = 'K' then
    if d.longLink.isSome then throw twice
    let (data, t) ← t.takeUpTo m.size
    return some ({ d with longLink := some data }, t)
  else if letter = 'x' then
    if d.attributes.isSome then throw twice
    let (data, t) ← t.takeUpTo m.size
    return some ({ d with attributes := some data }, t)
  else return none

/-- Reads all entries. -/
def entries (fuel : Nat) (d : Described) (next : Nat) (t : Tape) : Listing :=
  match fuel with
  | 0 => ⟨[], none⟩
  | fuel + 1 =>
    match member? d.attributes next t with
    | .error e => ⟨[], some e⟩
    | .ok none =>
      if d.isEmpty then ⟨[], none⟩
      else ⟨[], some (.unreadable
        "members found describing a future member but no future member found")⟩
    | .ok (some (m, t)) =>
      match describe? d m t with
      | .error e => ⟨[], some e⟩
      | .ok (some (d, t)) => entries fuel d m.next t
      | .ok none =>
        let name := entryName d m.header
        match file m name t with
        | .error e => ⟨[], some e⟩
        | .ok (data, next, t) =>
          let others := entries fuel {} next t
          ⟨⟨name, data⟩ :: others.entries, others.fault⟩

/-- The files of an archive. -/
def listing (c : Contents) : Listing :=
  entries (c.bytes.length / blockSize + 2) {} 0 ⟨c.bytes, 0, c.ending⟩

end PipelineStacks.Tar
