import PipelineStacks.Cluster.Api
import PipelineStacks.Stack.Resource

/-!
# Writing the status

The status of a stack is written by merging it into that part of the stack that only the controller
writes.
-/

namespace PipelineStacks

namespace Stack

/-- The name under which the controller writes. -/
def fieldManager : String := "stack-controller"

/-- The collection of the stacks of a namespace, or of all namespaces. -/
def collection (inNamespace : Option String) : String :=
  resourceKind.path inNamespace

/-- The status as a value to be merged into a stack. -/
def statusPatch (status : StackStatus) : Json :=
  .object [("status", status.toJson)]

/-- Writes the status of a stack. -/
def writeStatus (inNamespace name : String) (status : StackStatus) :
    Api.Call (Except Failure Unit) := do
  match ← Api.merge (collection (some inNamespace)) name ("/status?&fieldManager=" ++ fieldManager)
      (statusPatch status) ofJson? with
  | .ok _ => return .ok ()
  | .error e => return .error (.root e.message)

end Stack

end PipelineStacks
