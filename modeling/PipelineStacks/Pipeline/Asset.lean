import PipelineStacks.Cluster.Kind
import PipelineStacks.Cluster.Object
import PipelineStacks.Stack.Status

/-!
# Assets

An asset is an object decoded from a pipeline archive, with the kind and the name under which the
cluster is to keep it and the checksum of the file that it came from.  Only kinds of two groups may
be installed, and most assets go to the namespace of the stack whatever namespace they name.
-/

namespace PipelineStacks

/-- An object decoded from an archive. -/
structure Asset where
  name : String
  kind : Kind
  sha256 : String
  object : Object
deriving Inhabited

/-- The kind of the object behind a record. -/
def AssetStatus.objectKind (a : AssetStatus) : Kind :=
  ⟨a.group, a.version, a.kind⟩

namespace Asset

/-- The groups whose kinds may be installed. -/
def allowedGroups : List String :=
  ["tekton.dev", "triggers.tekton.dev"]

/-- Objects of the group may be installed. -/
def isAllowedGroup (group : String) : Bool :=
  allowedGroups.contains group

/-- The kinds that keep the namespace they name. -/
def selfPlacedKinds : List String :=
  ["TriggerBinding", "TriggerTemplate", "EventListener"]

/-- The namespace that an asset goes to. -/
def placement (a : Asset) (target : String) : String :=
  let own := a.object.metadata.namespaceName.getD ""
  if selfPlacedKinds.contains a.kind.name ∧ own ≠ "" then own else target

/-- The record of an asset that was not looked for in the cluster yet. -/
def pending (a : Asset) (target : String) : AssetStatus where
  name := a.name
  namespaceName := a.placement target
  group := a.kind.group
  version := a.kind.version
  kind := a.kind.name
  digest := a.sha256
  state := .unknown
  message := some "Asset has not been applied yet."

theorem objectKind_pending (a : Asset) (target : String) :
    (a.pending target).objectKind = a.kind := rfl

end Asset

end PipelineStacks
