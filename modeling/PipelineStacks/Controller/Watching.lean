import PipelineStacks.Reconcile.Requeue
import PipelineStacks.Settings
import PipelineStacks.Watch

/-!
# The controller at work

The controller is told about stacks that are new, have changed or are due, and about errors of the
watch that tells it.  After each it is told when to go on: for a stack, when to look at it again,
and for an error, how long to wait before the watch goes on.
-/

namespace PipelineStacks

/-- What the controller remembers. -/
structure Controller where
  settings : ControllerSettings := {}
  history : FailureHistory := {}

/-- What the controller is told. -/
inductive Event
  | due (stack : Stack)
  | watchError (text : String)

namespace Controller

/-- Seconds until the stack is due again, or until the watch goes on, and what is remembered. -/
def handle (c : Controller) : Event → Pass (Nat × Controller)
  | .due stack => do
    let (seconds, history) ← stack.visit c.settings.reconcileIntervalSecs c.history
    return (seconds, { c with history })
  | .watchError text => return ((WatchError.classify text).delay, c)

/-- The stacks that are watched: those of one namespace, or of all of them. -/
def scope (c : Controller) : Option String :=
  c.settings.watchNamespace

/-- An error of the watch asks nothing of the outside world. -/
theorem handle_watchError (c : Controller) (text : String) :
    c.handle (.watchError text) = .done ((WatchError.classify text).delay, c) := rfl

end Controller

end PipelineStacks
