import PipelineStacks.Json.Record

/-!
# What a stack asks for

A stack declares versions; a version that is active lists the pipelines whose assets are to be in
the cluster.  A pipeline names an archive by a web address or by the coordinates of a release
asset, together with the digest that the archive must have.
-/

namespace PipelineStacks

/-- Coordinates of a release asset on a release host. -/
structure GitRelease where
  hostname : String := ""
  organization : String := ""
  project : String := ""
  release : String := ""
  assetName : String := ""
deriving DecidableEq, Repr, Inhabited

/-- All coordinates are given. -/
def GitRelease.isComplete (r : GitRelease) : Bool :=
  r.hostname ≠ "" && r.organization ≠ "" && r.project ≠ "" && r.release ≠ "" && r.assetName ≠ ""

/-- A web address as the source of an archive. -/
structure HttpsSource where
  url : String := ""
  skipCertVerification : Bool := false
deriving DecidableEq, Repr, Inhabited

/-- A release asset as the source of an archive. -/
structure GitReleaseSource where
  release : GitRelease := {}
  skipCertVerification : Bool := false
deriving DecidableEq, Repr, Inhabited

/-- A pipeline archive that a version refers to. -/
structure PipelineSpec where
  id : String
  sha256 : String
  https : Option HttpsSource := none
  gitRelease : Option GitReleaseSource := none
deriving DecidableEq, Repr, Inhabited

/-- One of the sources asks for certificates not to be verified. -/
def PipelineSpec.skipCertVerification (p : PipelineSpec) : Bool :=
  p.https.any (·.skipCertVerification) || p.gitRelease.any (·.skipCertVerification)

/-- Whether the pipelines of a version are to be in the cluster. -/
inductive DesiredState
  | active
  | inactive
deriving DecidableEq, Repr, Inhabited

/-- The word for a desired state. -/
def DesiredState.text : DesiredState → String
  | .active => "active"
  | .inactive => "inactive"

/-- One version of a stack. -/
structure VersionSpec where
  version : String
  desiredState : DesiredState := .active
  pipelines : List PipelineSpec := []
deriving DecidableEq, Repr, Inhabited

/-- The pipelines of the version are to be in the cluster. -/
def VersionSpec.isActive (v : VersionSpec) : Bool :=
  v.desiredState = .active

/-- What a stack asks for. -/
structure StackSpec where
  name : String := ""
  versions : List VersionSpec := []
deriving DecidableEq, Repr, Inhabited

/-! ## Reading -/

open Json (row? required defaulted optional list? word? fieldOf)

/-- Reads release coordinates. -/
def GitRelease.ofJson? (v : Json) : Option GitRelease := do
  match ← row? ["hostname", "organization", "project", "release", "assetName"] 0 v with
  | [hostname, organization, project, release, assetName] =>
    return {
      hostname := ← defaulted "" Json.string? hostname
      organization := ← defaulted "" Json.string? organization
      project := ← defaulted "" Json.string? project
      release := ← defaulted "" Json.string? release
      assetName := ← defaulted "" Json.string? assetName }
  | _ => none

/-- Reads a web address with its options. -/
def HttpsSource.ofJson? (v : Json) : Option HttpsSource := do
  match ← row? ["url", "skipCertVerification"] 0 v with
  | [url, skip] =>
    return {
      url := ← defaulted "" Json.string? url
      skipCertVerification := ← defaulted false Json.bool? skip }
  | _ => none

/-- Reads release coordinates with their options. -/
def GitReleaseSource.ofJson? (v : Json) : Option GitReleaseSource := do
  match ← row? ["hostname", "organization", "project", "release", "assetName",
      "skipCertVerification"] 0 v with
  | [hostname, organization, project, release, assetName, skip] =>
    return {
      release := {
        hostname := ← defaulted "" Json.string? hostname
        organization := ← defaulted "" Json.string? organization
        project := ← defaulted "" Json.string? project
        release := ← defaulted "" Json.string? release
        assetName := ← defaulted "" Json.string? assetName }
      skipCertVerification := ← defaulted false Json.bool? skip }
  | _ => none

/-- Reads a pipeline of a version. -/
def PipelineSpec.ofJson? (v : Json) : Option PipelineSpec := do
  match ← row? ["id", "sha256", "https", "gitRelease"] 0 v with
  | [id, sha256, https, gitRelease] =>
    return {
      id := ← required Json.string? id
      sha256 := ← required Json.string? sha256
      https := ← optional HttpsSource.ofJson? https
      gitRelease := ← optional GitReleaseSource.ofJson? gitRelease }
  | _ => none

/-- Reads a desired state. -/
def DesiredState.ofJson? (v : Json) : Option DesiredState := do
  let word ← word? v
  if word = "active" then some .active
  else if word = "inactive" then some .inactive
  else none

/-- Reads a version of a stack. -/
def VersionSpec.ofJson? (v : Json) : Option VersionSpec := do
  match ← row? ["version", "desiredState", "pipelines"] 0 v with
  | [version, desiredState, pipelines] =>
    return {
      version := ← required Json.string? version
      desiredState := ← defaulted .active DesiredState.ofJson? desiredState
      pipelines := ← defaulted [] (list? PipelineSpec.ofJson?) pipelines }
  | _ => none

/-- Reads what a stack asks for. -/
def StackSpec.ofJson? (v : Json) : Option StackSpec := do
  match ← row? ["name", "versions"] 0 v with
  | [name, versions] =>
    return {
      name := ← defaulted "" Json.string? name
      versions := ← defaulted [] (list? VersionSpec.ofJson?) versions }
  | _ => none

/-! ## Writing -/

/-- Release coordinates as a value. -/
def GitRelease.toJson (r : GitRelease) : Json :=
  .obj [("assetName", .str r.assetName), ("hostname", .str r.hostname),
    ("organization", .str r.organization), ("project", .str r.project),
    ("release", .str r.release)]

/-- A web address with its options as a value. -/
def HttpsSource.toJson (s : HttpsSource) : Json :=
  .obj [("skipCertVerification", .bool s.skipCertVerification), ("url", .str s.url)]

/-- Release coordinates with their options as a value. -/
def GitReleaseSource.toJson (s : GitReleaseSource) : Json :=
  .obj [("assetName", .str s.release.assetName), ("hostname", .str s.release.hostname),
    ("organization", .str s.release.organization), ("project", .str s.release.project),
    ("release", .str s.release.release), ("skipCertVerification", .bool s.skipCertVerification)]

/-- A pipeline of a version as a value. -/
def PipelineSpec.toJson (p : PipelineSpec) : Json :=
  .obj (
    fieldOf "gitRelease" GitReleaseSource.toJson p.gitRelease ++
    fieldOf "https" HttpsSource.toJson p.https ++
    [("id", .str p.id), ("sha256", .str p.sha256)])

/-- A version of a stack as a value. -/
def VersionSpec.toJson (v : VersionSpec) : Json :=
  .obj [("desiredState", .str v.desiredState.text),
    ("pipelines", .arr (v.pipelines.map PipelineSpec.toJson)), ("version", .str v.version)]

/-- What a stack asks for as a value. -/
def StackSpec.toJson (s : StackSpec) : Json :=
  .obj [("name", .str s.name), ("versions", .arr (s.versions.map VersionSpec.toJson))]

end PipelineStacks
