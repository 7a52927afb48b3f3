import PipelineStacks.Json.Record
import PipelineStacks.Stack.Spec
import PipelineStacks.Text.Blank
import PipelineStacks.Text.Chars

/-!
# Release hosts

Where the releases of a project are described, and what a description lists.
-/

namespace PipelineStacks.ReleaseHost

/-- A host without the slashes behind it and the scheme before it. -/
def bareName (host : String) : List Char :=
  let cs := Text.dropEndWhile (· = '/') host.toList
  match Text.dropPrefix? "https://".toList cs with
  | some rest => rest
  | none => (Text.dropPrefix? "http://".toList cs).getD cs

/-- The address of a host's web interface.  The public host has an address of its own. -/
def apiBase (host : String) : String :=
  let name := String.ofList (bareName host)
  if Text.eqIgnoringCase name "github.com" || Text.eqIgnoringCase name "api.github.com" then
    "https://api.github.com"
  else "https://" ++ name ++ "/api/v3"

/-- The address that describes a release. -/
def releaseUrl (r : GitRelease) : String :=
  apiBase r.hostname ++ "/repos/" ++ r.organization ++ "/" ++ r.project ++ "/releases/tags/" ++
    r.release

/-- An asset of a release. -/
structure ReleaseAsset where
  name : String
  url : String
deriving DecidableEq, Repr, Inhabited

/-- Reads an asset of a release. -/
def ReleaseAsset.ofJson? (v : Json) : Option ReleaseAsset := do
  match ← Json.row? ["name", "url"] 0 v with
  | [name, url] =>
    return ⟨← Json.required Json.string? name, ← Json.required Json.string? url⟩
  | _ => none

/-- Reads the assets that the description of a release lists. -/
def releaseAssets? (v : Json) : Option (List ReleaseAsset) := do
  match ← Json.row? ["assets"] 0 v with
  | [assets] => Json.defaulted [] (Json.list? ReleaseAsset.ofJson?) assets
  | _ => none

end PipelineStacks.ReleaseHost
