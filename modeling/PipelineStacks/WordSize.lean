/-!
# Sizes of words

Numbers that have to fit a word of some bits are held against the count of its values.
-/

namespace PipelineStacks

/-- How many values a word of some bits has. -/
def wordSize (bits : Nat) : Nat :=
  Nat.pow 2 bits

theorem wordSize_pos (bits : Nat) : 0 < wordSize bits :=
  Nat.pow_pos (by decide)

theorem wordSize_succ (bits : Nat) : wordSize (bits + 1) = wordSize bits * 2 :=
  rfl

end PipelineStacks
