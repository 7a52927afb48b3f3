import PipelineStacks.Text.Utf8

/-!
# Cyclic redundancy checks

The check of 32 bits that compressed data carries: the remainder of the data as a polynomial over
two elements, with its bits in reverse.
-/

namespace PipelineStacks.Crc32

/-- One step of the division: shifts out a bit and subtracts the divisor if it was set. -/
def shift (r : UInt32) : UInt32 :=
  if r &&& 1 = 1 then (r >>> 1) ^^^ 0xEDB88320 else r >>> 1

/-- Takes in a byte. -/
def update (r : UInt32) (b : UInt8) : UInt32 :=
  (List.range 8).foldl (fun r _ => shift r) (r ^^^ b.toUInt32)

/-- The check of some bytes. -/
def ofBytes (bs : Bytes) : UInt32 :=
  ~~~ bs.foldl update 0xFFFFFFFF

end PipelineStacks.Crc32
