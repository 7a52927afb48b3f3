import PipelineStacks.Proofs.Delays
import PipelineStacks.Proofs.Owners
import PipelineStacks.Proofs.SharedAssets
import PipelineStacks.Reconcile.Requeue

/-!
# Stacks do not delay each other

All stacks share one history of failures, under keys that are joined from a namespace and a name.
Where neither holds a slash, no two stacks share a key (`Stack.key_eq_iff`).

`Reconciled` is what any number of stacks can go through: each of them succeeds and fails as often
as it likes, in any order.  What is remembered of a stack then hangs on its own outcomes alone, and
of these only on the failures since its latest success (`Reconciled.get?_key`), so its delays are
those of its own row of failures (`delay_of_own_row`).
-/

namespace PipelineStacks

/-! ## The keys of stacks -/

namespace Stack

/-- Where a stack is: its namespace, empty if it has none, and its name. -/
def place (s : Stack) : String × String :=
  (s.metadata.namespaceName.getD "", s.name)

/-- Neither the namespace nor the name of the stack holds a slash. -/
structure Slashless (s : Stack) : Prop where
  inNamespace : '/' ∉ s.place.1.toList
  name : '/' ∉ s.place.2.toList

instance (s : Stack) : Decidable s.Slashless :=
  decidable_of_iff ('/' ∉ s.place.1.toList ∧ '/' ∉ s.place.2.toList)
    ⟨fun h => ⟨h.1, h.2⟩, fun h => ⟨h.inNamespace, h.name⟩⟩

/-- The place of a stack is read back from its key. -/
lemma splitWhere_key {s : Stack} (h : s.Slashless) :
    Text.splitWhere (· = '/') s.key.toList = [s.place.1.toList, s.place.2.toList] := by
  have hkey : s.key.toList = s.place.1.toList ++ '/' :: s.place.2.toList := by
    simp [key, place]
  have hplain : ∀ {cs : List Char}, '/' ∉ cs → ∀ c ∈ cs, decide (c = '/') = false :=
    fun hcs c hc => decide_eq_false fun hslash => hcs (hslash ▸ hc)
  rw [hkey, Text.splitWhere_append_cons (hplain h.inNamespace) rfl,
    Text.splitWhere_eq_singleton (hplain h.name)]

/-- Stacks share a key exactly if they are in one place. -/
theorem key_eq_iff {s s' : Stack} (h : s.Slashless) (h' : s'.Slashless) :
    s.key = s'.key ↔ s.place = s'.place := by
  constructor
  · intro hkey
    have hparts := splitWhere_key h
    rw [hkey, splitWhere_key h'] at hparts
    simp only [List.cons.injEq, String.toList_inj] at hparts
    exact Prod.ext hparts.1.symm hparts.2.1.symm
  · intro hplace
    change s.place.1 ++ "/" ++ s.place.2 = s'.place.1 ++ "/" ++ s'.place.2
    rw [hplace]

end Stack

/-! ## What stacks go through -/

/-- A reconcile that is over. -/
structure Finished where
  stack : Stack
  failed : Bool
  /-- The seconds until the stack is looked at again. -/
  seconds : Nat

/-- What some stacks have gone through, the latest first, and what is remembered of their failures
then.  A pass that goes well touches what is remembered when it is over, and so does the retry
behind a pass that fails; what other stacks go through between a pass and its end does not matter
to it. -/
inductive Reconciled (interval : Nat) : List Finished → FailureHistory → Prop
  | start : Reconciled interval [] {}
  | success {past : List Finished} {h h' : FailureHistory} (hpast : Reconciled interval past h)
      (s : Stack) {σ : Type} (world : Program.World Effect.Answer σ) (t : σ) {seconds : Nat}
      (hrun : ((s.attempt interval h).run world t).1 = (.ok seconds, h')) :
      Reconciled interval (⟨s, false, seconds⟩ :: past) h'
  | failure {past : List Finished} {h h' : FailureHistory} (hpast : Reconciled interval past h)
      (s : Stack) {σ : Type} (world : Program.World Effect.Answer σ) (t : σ) {seconds : Nat}
      (hrun : ((s.retry h).run world t).1 = (seconds, h')) :
      Reconciled interval (⟨s, true, seconds⟩ :: past) h'

/-- Whether a stack failed, each time that it was reconciled, the latest first. -/
def outcomesOf (s : Stack) (past : List Finished) : List Bool :=
  (past.filter (·.stack.place = s.place)).map (·.failed)

/-- How often a stack failed since it last went well. -/
def failuresInRow : (outcomes : List Bool) → Nat
  | true :: outcomes => failuresInRow outcomes + 1
  | _ => 0

lemma outcomesOf_cons_self {s : Stack} {x : Finished} {past : List Finished}
    (h : x.stack.place = s.place) : outcomesOf s (x :: past) = x.failed :: outcomesOf s past := by
  simp [outcomesOf, h]

lemma outcomesOf_cons_other {s : Stack} {x : Finished} {past : List Finished}
    (h : x.stack.place ≠ s.place) : outcomesOf s (x :: past) = outcomesOf s past := by
  simp [outcomesOf, h]

namespace Stack

variable {s : Stack} {interval seconds : Nat} {h h' : FailureHistory} {σ : Type}
  {world : Program.World Effect.Answer σ} {t : σ}

/-- A pass that goes well is followed by the configured interval, and the failures of the stack are
forgotten. -/
lemma attempt_eq_ok (hrun : ((s.attempt interval h).run world t).1 = (.ok seconds, h')) :
    seconds = interval ∧ h' = h.forget s.key := by
  unfold attempt at hrun
  rw [Program.run_bind] at hrun
  cases hresult : (s.reconcile.run world t).1 with
  | error e =>
    rw [hresult] at hrun
    cases hrun
  | ok status =>
    rw [hresult] at hrun
    cases hrun
    exact ⟨rfl, rfl⟩

/-- Behind a failure one failure more of the stack is remembered. -/
lemma retry_eq (hrun : ((s.retry h).run world t).1 = (seconds, h')) :
    seconds = (h.failed s.key).1 ∧ h' = (h.failed s.key).2 := by
  change h.failed s.key = (seconds, h') at hrun
  rw [hrun]
  exact ⟨rfl, rfl⟩

end Stack

/-- One more failure is remembered of what was remembered before. -/
lemma FailureHistory.get?_failed (h : FailureHistory) (key : String) :
    (h.failed key).2.get? key = some ((h.get? key).getD .new).incrementError.next.2 := by
  change (h.insert key _).get? key = _
  rw [SortedMap.get?_insert, if_pos rfl]
  rfl

/-- What is remembered after some failures in a row; nothing if there is none. -/
def BackoffState.after? (failures : Nat) : Option BackoffState :=
  if failures = 0 then none else some (after failures)

lemma BackoffState.getD_after? (failures : Nat) : (after? failures).getD new = after failures := by
  cases failures <;> rfl

variable {interval : Nat} {past : List Finished} {h : FailureHistory}

/-- What is remembered of a stack is what its own failures in a row have left. -/
theorem Reconciled.get?_key (hruns : Reconciled interval past h)
    (hplain : ∀ x ∈ past, x.stack.Slashless) {s : Stack} (hs : s.Slashless) :
    h.get? s.key = BackoffState.after? (failuresInRow (outcomesOf s past)) := by
  induction hruns with
  | start => rfl
  | @success past h h' hpast s' σ world t seconds hrun ih =>
    obtain ⟨hs', hpast'⟩ := List.forall_mem_cons.mp hplain
    obtain ⟨-, rfl⟩ := Stack.attempt_eq_ok hrun
    rw [FailureHistory.get?_forget]
    by_cases hplace : s'.place = s.place
    · rw [if_pos ((Stack.key_eq_iff hs hs').mpr hplace.symm), outcomesOf_cons_self hplace]
      rfl
    · rw [if_neg fun hkey => hplace ((Stack.key_eq_iff hs hs').mp hkey).symm,
        outcomesOf_cons_other hplace]
      exact ih hpast'
  | @failure past h h' hpast s' σ world t seconds hrun ih =>
    obtain ⟨hs', hpast'⟩ := List.forall_mem_cons.mp hplain
    obtain ⟨-, rfl⟩ := Stack.retry_eq hrun
    by_cases hplace : s'.place = s.place
    · rw [(Stack.key_eq_iff hs' hs).mpr hplace, FailureHistory.get?_failed, ih hpast',
        BackoffState.getD_after?, outcomesOf_cons_self hplace]
      rfl
    · rw [FailureHistory.get?_failed_of_ne h fun hkey =>
          hplace ((Stack.key_eq_iff hs hs').mp hkey).symm, outcomesOf_cons_other hplace]
      exact ih hpast'

/-- Every part of what stacks go through is something that they can go through. -/
lemma Reconciled.exists_before (hruns : Reconciled interval past h) {newer older : List Finished}
    (hpast : past = newer ++ older) : ∃ h', Reconciled interval older h' := by
  induction hruns generalizing newer with
  | start =>
    obtain ⟨rfl, rfl⟩ := List.nil_eq_append_iff.mp hpast
    exact ⟨_, .start⟩
  | success hpast' s world t hrun ih =>
    cases newer with
    | nil => exact ⟨_, hpast ▸ hpast'.success s world t hrun⟩
    | cons x newer => exact ih (List.cons.inj hpast).2
  | failure hpast' s world t hrun ih =>
    cases newer with
    | nil => exact ⟨_, hpast ▸ hpast'.failure s world t hrun⟩
    | cons x newer => exact ih (List.cons.inj hpast).2

/-- When the latest stack is looked at again. -/
lemma Reconciled.seconds_eq {x : Finished} (hruns : Reconciled interval (x :: past) h)
    (hplain : ∀ y ∈ x :: past, y.stack.Slashless) :
    x.seconds = if x.failed then
      60 * min 10 (Nat.fib (failuresInRow (outcomesOf x.stack (x :: past)))) else interval := by
  obtain ⟨hs, hpast⟩ := List.forall_mem_cons.mp hplain
  cases hruns with
  | success hbefore s world t hrun => exact (Stack.attempt_eq_ok hrun).1
  | @failure _ before _ hbefore s σ world t seconds hrun =>
    obtain ⟨rfl, -⟩ := Stack.retry_eq hrun
    have hstate := hbefore.get?_key hpast hs
    change ((before.get? s.key).getD .new).incrementError.next.1.toNat = _
    rw [hstate, BackoffState.getD_after?, BackoffState.seconds_after, outcomesOf_cons_self rfl]
    rfl

/-- Stacks do not delay each other.  If no slash is in their namespaces and names, a stack that
fails is looked at again after minutes that follow Fibonacci in the number of its own failures
since it last went well, up to ten; one that goes well is looked at again after the interval.  What
is remembered of a stack hangs on that number alone: nothing if it is zero, and else a count of its
failures, up to the largest word. -/
theorem delay_of_own_row (hruns : Reconciled interval past h)
    (hplain : ∀ x ∈ past, x.stack.Slashless) :
    (∀ newer x older, past = newer ++ x :: older →
      x.seconds = if x.failed then
        60 * min 10 (Nat.fib (failuresInRow (outcomesOf x.stack (x :: older)))) else interval) ∧
    ∀ s : Stack, s.Slashless →
      h.get? s.key = BackoffState.after? (failuresInRow (outcomesOf s past)) ∧
      (h.get? s.key = none ↔ failuresInRow (outcomesOf s past) = 0) ∧
      ∀ state, h.get? s.key = some state →
        state.errorCount.toNat = min (failuresInRow (outcomesOf s past)) (2 ^ 32 - 1) := by
  refine ⟨fun newer x older hpast => ?_, fun s hs => ?_⟩
  · obtain ⟨h', hbefore⟩ := hruns.exists_before hpast
    exact hbefore.seconds_eq fun y hy => hplain y (hpast ▸ List.mem_append_right _ hy)
  · rw [hruns.get?_key hplain hs]
    refine ⟨rfl, ?_, fun state hstate => ?_⟩
    · unfold BackoffState.after?
      split <;> simp_all
    · unfold BackoffState.after? at hstate
      split at hstate
      · cases hstate
      · obtain rfl := Option.some.inj hstate
        exact BackoffState.errorCount_after _

/-! ## Two stacks that take turns -/

/-- A stack that asks for nothing. -/
def Stack.idle (name : String) : Stack where
  metadata := { name := some name, namespaceName := some "kabanero", uid := some ("uid-" ++ name) }

/-- One stack fails three times, and meanwhile another one fails and goes well. -/
def fiveReconciles : List Finished :=
  [⟨.idle "java", true, 120⟩, ⟨.idle "java", true, 60⟩, ⟨.idle "node", false, 300⟩,
    ⟨.idle "node", true, 60⟩, ⟨.idle "java", true, 60⟩]

/-- Three failures of the one stack are remembered and none of the other. -/
theorem third_failure_in_a_row_is_remembered : ∃ h, Reconciled 300 fiveReconciles h ∧
    (∀ x ∈ fiveReconciles, x.stack.Slashless) ∧
    h.get? (Stack.idle "java").key = BackoffState.after? 3 ∧
    h.get? (Stack.idle "node").key = none := by
  let world := Surroundings.offline.world
  let t : Objects × Unit := (fun _ => none, ())
  obtain ⟨h, hruns⟩ : ∃ h, Reconciled 300 fiveReconciles h :=
    ⟨_, ((((Reconciled.start.failure (.idle "java") world t rfl).failure (.idle "node") world t
      rfl).success (.idle "node") world t rfl).failure (.idle "java") world t rfl).failure
      (.idle "java") world t rfl⟩
  have hplain : ∀ x ∈ fiveReconciles, x.stack.Slashless := by decide
  obtain ⟨-, hremembered⟩ := delay_of_own_row hruns hplain
  have hjava := (hremembered (.idle "java") (by decide)).1
  have hnode := (hremembered (.idle "node") (by decide)).2.1
  exact ⟨h, hruns, hplain, hjava, hnode.mpr rfl⟩

end PipelineStacks
