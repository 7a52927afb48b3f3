import PipelineStacks.Backoff
import PipelineStacks.Reconcile.Pass

/-!
# When a stack is looked at again

After a pass that went well a stack is looked at again in a fixed time.  A stack that fails is
looked at again after a delay of its own, which grows with each failure in a row; a pass that goes
well ends the row.  `get?_failed_of_ne` and `get?_forget` say that stacks do not delay each other.
-/

namespace PipelineStacks

/-- What is remembered of the stacks that fail, by their keys. -/
abbrev FailureHistory := SortedMap String BackoffState

namespace FailureHistory

/-- One more failure of a stack; yields the seconds until the next attempt. -/
def failed (h : FailureHistory) (key : String) : Nat × FailureHistory :=
  let (seconds, state) := ((h.get? key).getD .new).incrementError.next
  (seconds.toNat, h.insert key state)

/-- The end of a row of failures. -/
def forget (h : FailureHistory) (key : String) : FailureHistory :=
  h.erase key

/-- How often each stack failed in a row. -/
def errorCounts (h : FailureHistory) : List (String × Nat) :=
  h.entries.map fun (key, state) => (key, state.errorCount.toNat)

theorem get?_failed_of_ne (h : FailureHistory) {key other : String} (hne : other ≠ key) :
    (h.failed key).2.get? other = h.get? other := by
  simp [failed, SortedMap.get?_insert, hne]

theorem get?_forget (h : FailureHistory) (key other : String) :
    (h.forget key).get? other = if other = key then none else h.get? other :=
  SortedMap.get?_erase h key other

end FailureHistory

namespace Stack

/-- Seconds until the next pass behind one that failed. -/
def retry (s : Stack) (h : FailureHistory) : Pass (Nat × FailureHistory) := do
  Pass.count .reconciliationErrors
  Pass.count (.requeues .errorBackoff)
  return h.failed s.key

/-- A pass, and when to look at the stack again if it goes well. -/
def attempt (s : Stack) (interval : Nat) (h : FailureHistory) :
    Pass (Except ReconcileError Nat × FailureHistory) := do
  match ← s.reconcile with
  | .error e => return (.error e, h)
  | .ok _ => return (.ok interval, h.forget s.key)

/-- A pass, and the seconds until the next one. -/
def visit (s : Stack) (interval : Nat) (h : FailureHistory) : Pass (Nat × FailureHistory) := do
  match ← s.attempt interval h with
  | (.ok seconds, h) => return (seconds, h)
  | (.error _, h) => s.retry h

end Stack

end PipelineStacks
