import PipelineStacks.Cluster.Metadata
import PipelineStacks.Cluster.Kind
import PipelineStacks.Stack.Status

/-!
# Stacks

A stack as the cluster keeps it: metadata, what it asks for, and what is recorded about it.
-/

namespace PipelineStacks

/-- A stack resource. -/
structure Stack where
  metadata : Metadata := {}
  spec : StackSpec := {}
  status : Option StackStatus := none
deriving Inhabited

namespace Stack

/-- The kind under which the cluster serves stacks. -/
def resourceKind : Kind :=
  ⟨"kabanero.io", "v1alpha2", "Stack"⟩

/-- The name; one that is still to be generated by the cluster counts as far as it is known. -/
def name (s : Stack) : String :=
  s.metadata.name.getD (s.metadata.generateName.getD "")

/-- The name under which a stack is known to the controller. -/
def key (s : Stack) : String :=
  s.metadata.namespaceName.getD "" ++ "/" ++ s.name

/-- The recorded status, empty if nothing is recorded. -/
def recorded (s : Stack) : StackStatus :=
  s.status.getD {}

/-- The reference by which an object names the stack as an owner; it needs a name and a uid. -/
def ownerReference? (s : Stack) : Option OwnerReference := do
  let name ← s.metadata.name
  let uid ← s.metadata.uid
  return {
    apiVersion := resourceKind.apiVersion
    kind := resourceKind.name
    name
    uid }

/-- Reads a stack; the type that it names itself by is not looked at. -/
def ofJson? (v : Json) : Option Stack := do
  match ← Json.row? ["metadata", "spec", "status"] 3 v with
  | [metadata, spec, status] =>
    return {
      metadata := ← Json.required Metadata.ofJson? metadata
      spec := ← Json.required StackSpec.ofJson? spec
      status := ← Json.optional StackStatus.ofJson? status }
  | _ => none

/-- A stack as a value. -/
def toJson (s : Stack) : Json :=
  .obj (
    [("apiVersion", .str resourceKind.apiVersion), ("kind", .str resourceKind.name),
      ("metadata", s.metadata.toJson), ("spec", s.spec.toJson)] ++
    Json.fieldOf "status" StackStatus.toJson s.status)

end Stack

end PipelineStacks
