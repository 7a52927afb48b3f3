import PipelineStacks.Stack.Spec

/-!
# What is recorded about a stack

The status of a stack lists for each version the pipelines it used and for each pipeline the
assets that were made from its archive.  It is the only memory between two passes.
-/

namespace PipelineStacks

/-- What is known about an asset in the cluster. -/
inductive AssetState
  | active
  | failed
  | unknown
deriving DecidableEq, Repr, Inhabited

/-- The word for an asset's state. -/
def AssetState.text : AssetState → String
  | .active => "active"
  | .failed => "failed"
  | .unknown => "unknown"

/-- The record of one object made from an archive. -/
structure AssetStatus where
  name : String
  namespaceName : String := ""
  group : String := ""
  version : String := ""
  kind : String := ""
  digest : String := ""
  state : AssetState := .unknown
  message : Option String := none
deriving DecidableEq, Repr, Inhabited

/-- Records a state with a message; an empty message is none. -/
def AssetStatus.set (a : AssetStatus) (state : AssetState) (message : String) : AssetStatus :=
  { a with state, message := if message = "" then none else some message }

/-- The record of one pipeline. -/
structure PipelineStatus where
  name : String
  url : Option String := none
  gitRelease : Option GitRelease := none
  digest : String := ""
  activeAssets : List AssetStatus := []
deriving DecidableEq, Repr, Inhabited

/-- The record of one version. -/
structure VersionStatus where
  version : String
  location : Option String := none
  pipelines : List PipelineStatus := []
  state : Option DesiredState := none
  message : Option String := none
deriving DecidableEq, Repr, Inhabited

/-- The record of a stack. -/
structure StackStatus where
  versions : List VersionStatus := []
  summary : Option String := none
deriving DecidableEq, Repr, Inhabited

/-! ## Reading -/

open Json (row? required defaulted optional list? word? fieldOf)

/-- Reads the state of an asset. -/
def AssetState.ofJson? (v : Json) : Option AssetState := do
  let word ← word? v
  if word = "active" then some .active
  else if word = "failed" then some .failed
  else if word = "unknown" then some .unknown
  else none

/-- Reads the record of an asset. -/
def AssetStatus.ofJson? (v : Json) : Option AssetStatus := do
  match ← row? ["name", "namespace", "group", "version", "kind", "digest", "status",
      "statusMessage"] 0 v with
  | [name, namespaceName, group, version, kind, digest, state, message] =>
    return {
      name := ← required Json.string? name
      namespaceName := ← defaulted "" Json.string? namespaceName
      group := ← defaulted "" Json.string? group
      version := ← defaulted "" Json.string? version
      kind := ← defaulted "" Json.string? kind
      digest := ← defaulted "" Json.string? digest
      state := ← defaulted .unknown AssetState.ofJson? state
      message := ← optional Json.string? message }
  | _ => none

/-- Reads the record of a pipeline. -/
def PipelineStatus.ofJson? (v : Json) : Option PipelineStatus := do
  match ← row? ["name", "url", "gitRelease", "digest", "activeAssets"] 0 v with
  | [name, url, gitRelease, digest, activeAssets] =>
    return {
      name := ← required Json.string? name
      url := ← optional Json.string? url
      gitRelease := ← optional GitRelease.ofJson? gitRelease
      digest := ← defaulted "" Json.string? digest
      activeAssets := ← defaulted [] (list? AssetStatus.ofJson?) activeAssets }
  | _ => none

/-- Reads the record of a version. -/
def VersionStatus.ofJson? (v : Json) : Option VersionStatus := do
  match ← row? ["version", "location", "pipelines", "status", "statusMessage"] 0 v with
  | [version, location, pipelines, state, message] =>
    return {
      version := ← required Json.string? version
      location := ← optional Json.string? location
      pipelines := ← defaulted [] (list? PipelineStatus.ofJson?) pipelines
      state := ← optional DesiredState.ofJson? state
      message := ← optional Json.string? message }
  | _ => none

/-- Reads the record of a stack. -/
def StackStatus.ofJson? (v : Json) : Option StackStatus := do
  match ← row? ["versions", "summary"] 0 v with
  | [versions, summary] =>
    return {
      versions := ← defaulted [] (list? VersionStatus.ofJson?) versions
      summary := ← optional Json.string? summary }
  | _ => none

/-! ## Writing -/

/-- The record of an asset as a value. -/
def AssetStatus.toJson (a : AssetStatus) : Json :=
  .obj (
    [("digest", .str a.digest), ("group", .str a.group), ("kind", .str a.kind),
      ("name", .str a.name), ("namespace", .str a.namespaceName), ("status", .str a.state.text)] ++
    fieldOf "statusMessage" Json.str a.message ++
    [("version", .str a.version)])

/-- The record of a pipeline as a value. -/
def PipelineStatus.toJson (p : PipelineStatus) : Json :=
  .obj (
    [("activeAssets", .arr (p.activeAssets.map AssetStatus.toJson)), ("digest", .str p.digest)] ++
    fieldOf "gitRelease" GitRelease.toJson p.gitRelease ++
    [("name", .str p.name)] ++
    fieldOf "url" Json.str p.url)

/-- The record of a version as a value. -/
def VersionStatus.toJson (v : VersionStatus) : Json :=
  .obj (
    fieldOf "location" Json.str v.location ++
    [("pipelines", .arr (v.pipelines.map PipelineStatus.toJson))] ++
    fieldOf "status" (fun s => Json.str s.text) v.state ++
    fieldOf "statusMessage" Json.str v.message ++
    [("version", .str v.version)])

/-- The record of a stack as a value. -/
def StackStatus.toJson (s : StackStatus) : Json :=
  .obj (
    fieldOf "summary" Json.str s.summary ++
    [("versions", .arr (s.versions.map VersionStatus.toJson))])

end PipelineStacks
