import PipelineStacks.WordSize

/-!
# Backoff

Delays between attempts for a stack that keeps failing: the minutes follow the sequence of
Fibonacci from a least delay on, up to a cap.  The sequence itself lives in 64 bits and stays at
the largest value once it gets there.
-/

namespace PipelineStacks

/-- The sum of two words, or the largest word if it does not fit. -/
def saturatingAdd (a b : UInt64) : UInt64 :=
  if a.toNat + b.toNat < wordSize 64 then a + b else UInt64.ofNat (wordSize 64 - 1)

/-- A sequence of delays. -/
structure Backoff where
  minMinutes : UInt64
  maxMinutes : UInt64
  previous : UInt64
  current : UInt64
deriving DecidableEq, Repr, Inhabited

namespace Backoff

/-- The sequence from a least delay, of one minute at least, up to a cap that is no less. -/
def new (minMinutes maxMinutes : UInt64) : Backoff :=
  let least := max minMinutes 1
  ⟨least, max maxMinutes least, 0, least⟩

/-- The next delay in seconds, and the sequence behind it. -/
def next (b : Backoff) : UInt64 × Backoff :=
  (min b.current b.maxMinutes * 60,
    { b with previous := b.current, current := saturatingAdd b.previous b.current })

/-- The sequence from its start. -/
def reset (b : Backoff) : Backoff :=
  { b with previous := 0, current := b.minMinutes }

/-- Takes `count` further delays, and stops at the cap. -/
def advance (b : Backoff) (seconds : UInt64) : (count : Nat) → UInt64
  | 0 => seconds
  | count + 1 =>
    let (seconds, b) := b.next
    if b.maxMinutes * 60 ≤ seconds then seconds else b.advance seconds count

/-- The delay in seconds behind `errors` failures before it. -/
def delayAfter (errors : Nat) (minMinutes maxMinutes : UInt64) : UInt64 :=
  let (seconds, b) := (new minMinutes maxMinutes).next
  b.advance seconds errors

end Backoff

/-- What is remembered about a stack that fails. -/
structure BackoffState where
  backoff : Backoff
  errorCount : UInt32
deriving DecidableEq, Repr

namespace BackoffState

/-- No failure so far; delays run from one minute to ten. -/
def new : BackoffState :=
  ⟨.new 1 10, 0⟩

instance : Inhabited BackoffState := ⟨new⟩

/-- One more failure; the count stays at its largest value. -/
def incrementError (s : BackoffState) : BackoffState :=
  { s with
    errorCount :=
      if s.errorCount.toNat + 1 < wordSize 32 then s.errorCount + 1 else s.errorCount }

/-- The next delay in seconds. -/
def next (s : BackoffState) : UInt64 × BackoffState :=
  let (seconds, backoff) := s.backoff.next
  (seconds, { s with backoff })

/-- Starts the delays again and keeps the count of failures. -/
def resetDelays (s : BackoffState) : BackoffState :=
  { s with backoff := s.backoff.reset }

/-- Forgets all failures. -/
def reset (s : BackoffState) : BackoffState :=
  ⟨s.backoff.reset, 0⟩

end BackoffState

end PipelineStacks
