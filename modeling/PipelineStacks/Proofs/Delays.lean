import Mathlib.Data.Nat.Fib.Basic
import PipelineStacks.Backoff

/-!
# The delays in closed form

The sequence of delays runs in words, where sums stay at the largest word, and it is read off under
a cap.  `Backoff.At` says where in the sequence a backoff stands: its two numbers are neighbouring
numbers of Fibonacci times the least delay, or the largest word.  Taking a delay keeps that
(`At.next`), so every delay is known (`At.seconds`) as long as the cap itself fits a word in
seconds.  The delay behind a number of failures is sought only up to the cap; since the sequence
stays there (`At.delay_of_cap`), it is the one of the sequence (`delays_follow_fibonacci`).

What is remembered of a stack after a row of failures is `BackoffState.after`.
-/

namespace PipelineStacks

/-- The sum of two words stops at the largest word. -/
lemma toNat_saturatingAdd (a b : UInt64) :
    (saturatingAdd a b).toNat = min (a.toNat + b.toNat) (wordSize 64 - 1) := by
  have hsize : wordSize 64 = 2 ^ 64 := rfl
  unfold saturatingAdd
  split
  · next h =>
    rw [UInt64.toNat_add, Nat.mod_eq_of_lt (by omega)]
    omega
  · next h =>
    rw [UInt64.toNat_ofNat', Nat.mod_eq_of_lt (by omega)]
    omega

namespace Backoff

/-- The backoff has given `n` delays since its start. -/
structure At (b : Backoff) (least cap n : Nat) : Prop where
  minMinutes : b.minMinutes.toNat = least
  maxMinutes : b.maxMinutes.toNat = cap
  previous : b.previous.toNat = min (least * Nat.fib n) (wordSize 64 - 1)
  current : b.current.toNat = min (least * Nat.fib (n + 1)) (wordSize 64 - 1)

variable {b : Backoff} {least cap n : Nat}

lemma at_new (minMinutes maxMinutes : UInt64) :
    (new minMinutes maxMinutes).At (max minMinutes 1).toNat
      (max maxMinutes (max minMinutes 1)).toNat 0 where
  minMinutes := rfl
  maxMinutes := rfl
  previous := by simp [new]
  current := by
    have hfits : (max minMinutes 1).toNat < 2 ^ 64 := (max minMinutes 1).toNat_lt
    simp [new, wordSize]
    omega

/-- To start again is to have given no delay. -/
lemma At.reset (h : b.At least cap n) : b.reset.At least cap 0 where
  minMinutes := h.minMinutes
  maxMinutes := h.maxMinutes
  previous := by simp [Backoff.reset]
  current := by
    have hfits : b.minMinutes.toNat < 2 ^ 64 := b.minMinutes.toNat_lt
    simp [Backoff.reset, ← h.minMinutes, wordSize]
    omega

/-- Taking a delay moves on by one. -/
theorem At.next (h : b.At least cap n) : b.next.2.At least cap (n + 1) where
  minMinutes := h.minMinutes
  maxMinutes := h.maxMinutes
  previous := h.current
  current := by
    have hsum : least * Nat.fib (n + 1 + 1) = least * Nat.fib n + least * Nat.fib (n + 1) := by
      rw [Nat.fib_add_two, Nat.mul_add]
    change (saturatingAdd b.previous b.current).toNat = _
    rw [toNat_saturatingAdd, h.previous, h.current, hsum]
    omega

/-- The delay in closed form: minutes after Fibonacci, up to the cap. -/
theorem At.seconds (h : b.At least cap n) (hcap : 60 * cap < wordSize 64) :
    b.next.1.toNat = 60 * min cap (least * Nat.fib (n + 1)) := by
  have hsize : wordSize 64 = 2 ^ 64 := rfl
  have hminutes : (min b.current b.maxMinutes).toNat = min cap (least * Nat.fib (n + 1)) := by
    rw [UInt64.toNat_min, h.current, h.maxMinutes]
    omega
  change (min b.current b.maxMinutes * 60).toNat = _
  rw [UInt64.toNat_mul, hminutes]
  change min cap (least * Nat.fib (n + 1)) * 60 % 2 ^ 64 = _
  rw [Nat.mod_eq_of_lt (by omega), Nat.mul_comm]

/-! ### All delays of a sequence -/

/-- The sequence behind its next `n` delays. -/
def skip (b : Backoff) (n : Nat) : Backoff :=
  (fun b => b.next.2)^[n] b

/-- The delay in seconds behind the next `n` of a sequence. -/
def delay (b : Backoff) (n : Nat) : UInt64 :=
  (b.skip n).next.1

lemma advance_succ (b : Backoff) (seconds : UInt64) (count : Nat) :
    b.advance seconds (count + 1) =
      if b.next.2.maxMinutes * 60 ≤ b.next.1 then b.next.1
      else b.next.2.advance b.next.1 count := rfl

/-- Skipping delays moves on by as many. -/
lemma At.skip (h : b.At least cap n) (k : Nat) : (b.skip k).At least cap (n + k) := by
  induction k generalizing b n with
  | zero => exact h
  | succ k ih =>
    rw [← Nat.add_assoc, Nat.add_right_comm]
    exact ih h.next

/-- Every delay in closed form. -/
lemma At.delay (h : b.At least cap n) (hcap : 60 * cap < wordSize 64) (k : Nat) :
    (b.delay k).toNat = 60 * min cap (least * Nat.fib (n + k + 1)) :=
  (h.skip k).seconds hcap

/-- The delays never get shorter. -/
lemma At.delay_mono (h : b.At least cap n) (hcap : 60 * cap < wordSize 64) {k l : Nat}
    (hkl : k ≤ l) : b.delay k ≤ b.delay l := by
  rw [UInt64.le_iff_toNat_le, h.delay hcap, h.delay hcap]
  have hfib : Nat.fib (n + k + 1) ≤ Nat.fib (n + l + 1) := Nat.fib_mono (by omega)
  gcongr

/-- Behind the first delay that reaches the cap all others are the same. -/
lemma At.delay_of_cap (h : b.At least cap n) (hcap : 60 * cap < wordSize 64) {k l : Nat}
    (hkl : k ≤ l) (hk : (b.delay k).toNat = 60 * cap) : (b.delay l).toNat = 60 * cap := by
  have hle : (b.delay k).toNat ≤ (b.delay l).toNat :=
    UInt64.le_iff_toNat_le.mp (h.delay_mono hcap hkl)
  rw [hk] at hle
  rw [h.delay hcap l] at hle ⊢
  omega

/-- To stop at the cap yields the delay that would be reached in full. -/
lemma At.advance_eq (h : b.At least cap n) (hcap : 60 * cap < wordSize 64) (count : Nat)
    (seconds : UInt64) : b.advance seconds (count + 1) = b.delay count := by
  induction count generalizing b n seconds with
  | zero => exact ite_self _
  | succ count ih =>
    rw [advance_succ]
    split
    · next hreached =>
      have hsize : wordSize 64 = 2 ^ 64 := rfl
      have hproduct : (b.next.2.maxMinutes * 60).toNat = 60 * cap := by
        rw [UInt64.toNat_mul, h.next.maxMinutes]
        change cap * 60 % 2 ^ 64 = _
        omega
      have hfirst : (b.delay 0).toNat = 60 * cap := by
        have hle : 60 * cap ≤ (b.delay 0).toNat :=
          hproduct ▸ UInt64.le_iff_toNat_le.mp hreached
        rw [h.delay hcap] at hle ⊢
        omega
      refine UInt64.toNat_inj.mp ?_
      rw [h.delay_of_cap hcap (Nat.zero_le (count + 1)) hfirst]
      exact hfirst
    · exact ih h.next _

/-- What becomes of a sequence when delays are taken from it and it is started again. -/
inductive Arises (minMinutes maxMinutes : UInt64) : Backoff → Prop
  | new : Arises minMinutes maxMinutes (.new minMinutes maxMinutes)
  | next {b : Backoff} (h : Arises minMinutes maxMinutes b) : Arises minMinutes maxMinutes b.next.2
  | reset {b : Backoff} (h : Arises minMinutes maxMinutes b) : Arises minMinutes maxMinutes b.reset

/-- To start a sequence again is to make it anew. -/
lemma Arises.reset_eq {minMinutes maxMinutes : UInt64} (h : Arises minMinutes maxMinutes b) :
    b.reset = .new minMinutes maxMinutes := by
  induction h with
  | new => rfl
  | next _ ih => exact ih
  | reset _ ih => exact ih

/-- The delays of a sequence that is new or was started again follow the numbers of Fibonacci from
the least delay on, in minutes, up to the cap.  No sum or product on the way leaves the words: the
sequence itself stays at the largest word, and the cap in seconds is one.  The delays never get
shorter and stay at the cap once it is reached; and the delay behind some failures, which is sought
up to the cap only, is the one of the sequence. -/
theorem delays_follow_fibonacci (minMinutes maxMinutes : UInt64)
    (hfits : 60 * max (max minMinutes.toNat maxMinutes.toNat) 1 < wordSize 64) :
    let least := max minMinutes.toNat 1
    let cap := max maxMinutes.toNat least
    ∀ b, b = new minMinutes maxMinutes ∨ (∃ b', Arises minMinutes maxMinutes b' ∧ b = b'.reset) →
      (∀ n, (b.delay n).toNat = 60 * min cap (least * Nat.fib (n + 1))) ∧
      (∀ n, (b.skip n).current.toNat = min (least * Nat.fib (n + 1)) (wordSize 64 - 1) ∧
        (b.skip n).maxMinutes.toNat * 60 < wordSize 64) ∧
      (∀ k l, k ≤ l → b.delay k ≤ b.delay l) ∧
      (∀ k l, k ≤ l → (b.delay k).toNat = 60 * cap → (b.delay l).toNat = 60 * cap) ∧
      ∀ errors, delayAfter errors minMinutes maxMinutes = b.delay errors := by
  intro least cap b hb
  have hnew : b = new minMinutes maxMinutes := by
    rcases hb with rfl | ⟨b', hb', rfl⟩
    · rfl
    · exact hb'.reset_eq
  have hleast : (max minMinutes 1).toNat = least := UInt64.toNat_max ..
  have hmax : (max maxMinutes (max minMinutes 1)).toNat = cap := by
    rw [UInt64.toNat_max, hleast]
  have hat : b.At least cap 0 := by
    rw [hnew, ← hleast, ← hmax]
    exact at_new minMinutes maxMinutes
  have hcap : 60 * cap < wordSize 64 := by
    have hle : cap ≤ max (max minMinutes.toNat maxMinutes.toNat) 1 := by omega
    omega
  refine ⟨fun n => ?_, fun n => ⟨?_, ?_⟩, fun k l => hat.delay_mono hcap,
    fun k l => hat.delay_of_cap hcap, fun errors => ?_⟩
  · rw [hat.delay hcap n, Nat.zero_add]
  · rw [(hat.skip n).current, Nat.zero_add]
  · rw [(hat.skip n).maxMinutes]
    omega
  · subst hnew
    cases errors with
    | zero => rfl
    | succ errors => exact hat.next.advance_eq hcap errors (new minMinutes maxMinutes).next.1

/-- A cap between two numbers of the sequence is reached and kept, also when the sequence itself has
come to the largest word. -/
theorem delay_behind_largest_word :
    let least := UInt64.ofNat (2 ^ 57)
    let cap := UInt64.ofNat (3 * 2 ^ 56)
    let b := new least cap
    60 * max (max least.toNat cap.toNat) 1 < wordSize 64 ∧
      (b.skip 20).current.toNat = 2 ^ 64 - 1 ∧ (b.delay 20).toNat = 60 * (3 * 2 ^ 56) ∧
      delayAfter 20 least cap = b.delay 20 := by
  intro least cap b
  have hfits : 60 * max (max least.toNat cap.toNat) 1 < wordSize 64 := by decide +kernel
  obtain ⟨hdelay, hstate, -, -, hafter⟩ := delays_follow_fibonacci least cap hfits b (Or.inl rfl)
  refine ⟨hfits, ?_, ?_, hafter 20⟩
  · rw [(hstate 20).1]
    decide +kernel
  · rw [hdelay 20]
    decide +kernel

end Backoff

/-! ## Failures in a row -/

namespace BackoffState

/-- What is remembered after some failures in a row. -/
def after : (failures : Nat) → BackoffState
  | 0 => new
  | k + 1 => (after k).incrementError.next.2

lemma at_after (k : Nat) : (after k).backoff.At 1 10 k := by
  induction k with
  | zero => exact Backoff.at_new 1 10
  | succ k ih => exact ih.next

/-- The failures are counted, up to the largest word. -/
theorem errorCount_after (k : Nat) :
    (after k).errorCount.toNat = min k (wordSize 32 - 1) := by
  have hsize : wordSize 32 = 2 ^ 32 := rfl
  induction k with
  | zero => rfl
  | succ k ih =>
    have hcount : (after (k + 1)).errorCount = (if (after k).errorCount.toNat + 1 < wordSize 32
      then (after k).errorCount + 1 else (after k).errorCount) := rfl
    rw [hcount]
    split
    · next h =>
      rw [UInt32.toNat_add, UInt32.toNat_one, Nat.mod_eq_of_lt (by omega)]
      omega
    · next h => omega

/-- The delay behind a failure that follows `k` others. -/
theorem seconds_after (k : Nat) :
    (after k).incrementError.next.1.toNat = 60 * min 10 (Nat.fib (k + 1)) := by
  have h := (at_after k).seconds (by decide)
  rwa [Nat.one_mul] at h

end BackoffState

end PipelineStacks
