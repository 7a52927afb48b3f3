import PipelineStacks.Pipeline.Activation
import PipelineStacks.Reconcile.Status

/-!
# A pass over a stack

A pass brings the cluster in line with what a stack asks for and yields the status to be recorded
(`Stack.reconcileActiveVersions`).  `Stack.reconcile` also records it, if it has changed, and counts
what was done.
-/

namespace PipelineStacks

/-- Why a pass fails as a whole. -/
inductive ReconcileError
  /-- The stack lacks a field that it needs to own anything. -/
  | missingKey (path : String)
  | pipeline (error : PipelineError)
  /-- The status could not be recorded. -/
  | statusUpdate (failure : Failure)
deriving DecidableEq, Repr, Inhabited

/-- The wording of an error. -/
def ReconcileError.message : ReconcileError → String
  | missingKey path => "Stack is missing " ++ path
  | pipeline error => "Pipeline bookkeeping failed: " ++ error.message
  | statusUpdate failure => "Failed to update Stack status: " ++ failure.message

namespace Stack

/-- The values for rendering manifests. -/
def renderContext (s : Stack) : RenderContext :=
  .ofList [
    (Template.stackIdKey, s.name),
    (Template.stackNameKey, if s.spec.name = "" then s.name else s.spec.name)]

/-- For whom a pass over the stack acts; a stack without namespace, name or uid can own nothing. -/
def activation (s : Stack) : Except ReconcileError Activation :=
  match s.metadata.namespaceName, s.ownerReference? with
  | none, _ => .error (.missingKey ".metadata.namespace")
  | some _, none => .error (.missingKey ".metadata.uid")
  | some ns, some reference => .ok ⟨⟨reference, ns⟩, ns, s.renderContext⟩

/-- Brings the cluster in line with the active versions and yields the status to be recorded. -/
def reconcileActiveVersions (s : Stack) : Pass (Except ReconcileError StackStatus) :=
  match s.activation with
  | .error e => return .error e
  | .ok a =>
    match UseMap.build s.recorded.versions s.spec.versions with
    | .error e => return .error (.pipeline e)
    | .ok m => do
      let m ← a.run m
      return .ok (.build s.spec s.recorded m)

/-- Records a status that is not recorded already, and tells whether that was to be done. -/
def updateStatus (s : Stack) (status : StackStatus) : Pass (Except ReconcileError Bool) :=
  if s.statusChanged status then
    match s.metadata.namespaceName with
    | none => return .error (.missingKey ".metadata.namespace")
    | some ns => do
      match ← Pass.record ns s.name status with
      | .ok () => return .ok true
      | .error e => return .error (.statusUpdate e)
  else return .ok false

/-- A whole pass with the status recorded; yields the status. -/
def reconcile (s : Stack) : Pass (Except ReconcileError StackStatus) := do
  Pass.count .reconciliations
  match ← s.reconcileActiveVersions with
  | .error e => return .error e
  | .ok status =>
    match ← s.updateStatus status with
    | .error e => return .error e
    | .ok _ =>
      Pass.count .reconciliationDuration
      Pass.count (.requeues .periodic)
      return .ok status

end Stack

end PipelineStacks
