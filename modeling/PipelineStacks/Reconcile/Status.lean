import PipelineStacks.Pipeline.UseMap
import PipelineStacks.Stack.Resource

/-!
# The status after a pass

The status lists the versions that a stack asks for, in its order, and behind them those recorded
versions that it no longer asks for but that still have assets to be given up.  So an asset stays
recorded until it is gone.
-/

namespace PipelineStacks

namespace StackStatus

/-- What is recorded of a version that is asked for as inactive. -/
def inactiveMessage : String := "The stack version has been deactivated."

/-- What is recorded of a version that is no longer asked for. -/
def removedMessage : String :=
  "The stack version was removed from the spec; assets are pending deletion."

/-- The records of archives that no version needs, that were used by the version, and that still
have assets. -/
def residual (m : UseMap) (version : String) : List PipelineStatus :=
  (m.toDelete.filter fun e =>
    e.2.statusVersions.contains version && !e.2.status.activeAssets.isEmpty).map (·.2.status)

/-- The first record of a version. -/
def versionNamed? (current : StackStatus) (version : String) : Option VersionStatus :=
  current.versions.find? (·.version = version)

/-- The record of a pipeline of an active version. -/
def activePipeline (m : UseMap) (p : PipelineSpec) : PipelineStatus :=
  let r := Reference.ofSpec p
  { UseMap.freshStatus r p with
    activeAssets := match m.get? r with
      | some u => u.status.activeAssets
      | none => [] }

/-- Why the assets of a pipeline could not be loaded. -/
def pipelineError? (m : UseMap) (p : PipelineSpec) : Option String := do
  let u ← m.get? (.ofSpec p)
  let e ← u.manifestError
  return "Pipeline " ++ p.id ++ ": " ++ e.message

/-- The record of a version that is asked for. -/
def ofVersion (current : StackStatus) (m : UseMap) (v : VersionSpec) : VersionStatus :=
  let location := (current.versionNamed? v.version).bind (·.location)
  if v.isActive then
    let errors := v.pipelines.filterMap (pipelineError? m)
    { version := v.version
      location
      pipelines := v.pipelines.map (activePipeline m)
      state := some .active
      message := if errors = [] then none else some (String.intercalate "; " errors) }
  else
    { version := v.version
      location
      pipelines := residual m v.version
      state := some .inactive
      message := some inactiveMessage }

/-- The record of a version that is no longer asked for; none if it has no assets left. -/
def ofRemoved? (spec : StackSpec) (m : UseMap) (previous : VersionStatus) : Option VersionStatus :=
  let pipelines := residual m previous.version
  if spec.versions.any (·.version = previous.version) || pipelines.isEmpty then none
  else some {
    version := previous.version
    location := previous.location
    pipelines
    state := some .inactive
    message := some removedMessage }

/-- All assets that versions list. -/
def assetsOf (versions : List VersionStatus) : List AssetStatus :=
  (versions.flatMap (·.pipelines)).flatMap (·.activeAssets)

/-- The status in one line. -/
def summaryOf (versions : List VersionStatus) : String :=
  let active := versions.countP (·.state = some .active)
  let failed := (assetsOf versions).countP (·.state = .failed)
  toString active ++ " active versions, " ++ toString failed ++ " failed assets"

/-- The status after a pass that left the archives in the state `m`. -/
def build (spec : StackSpec) (current : StackStatus) (m : UseMap) : StackStatus :=
  let versions :=
    spec.versions.map (ofVersion current m) ++ current.versions.filterMap (ofRemoved? spec m)
  { versions, summary := some (summaryOf versions) }

end StackStatus

/-- The status is not the one that is recorded. -/
def Stack.statusChanged (s : Stack) (status : StackStatus) : Bool :=
  s.status ≠ some status

end PipelineStacks
