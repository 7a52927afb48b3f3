import PipelineStacks.Pipeline.Fetch
import PipelineStacks.Pipeline.Upkeep
import PipelineStacks.Pipeline.UseMap

/-!
# Bringing the cluster in line

A pass first gives up the assets of archives that no version needs, and then sees to the assets of
the others.  What fails is recorded with the asset that it concerns and stops nothing.
-/

namespace PipelineStacks

/-- For whom a pass acts, and where. -/
structure Activation where
  owner : Owner
  /-- The namespace of assets that have none of their own. -/
  target : String
  /-- The values for rendering, but for those of a single archive. -/
  context : RenderContext

namespace Activation

/-- The values for rendering the files of one archive. -/
def contextFor (a : Activation) (r : Reference) : RenderContext :=
  a.context.insert Template.digestKey r.shortDigest

/-- Loads the assets of an archive, and tells whether that succeeded. -/
def load (a : Activation) (r : Reference) (u : Usage) : Pass (Bool × Usage) := do
  match ← getManifests r u.status.name (a.contextFor r) u.skipCertVerification with
  | .ok manifests => return (true, { u with manifests, manifestError := none })
  | .error e => return (false, { u with manifestError := some e })

/-! ## Archives that are not needed -/

/-- Gives up assets, and yields those for which that failed. -/
def releaseAssets (a : Activation) : List AssetStatus → Pass (List AssetStatus)
  | [] => return []
  | s :: rest => do
    match ← deleteAsset s a.target a.owner with
    | .ok outcome =>
      if outcome.isRelease then Pass.count .assetsDeleted
      releaseAssets a rest
    | .error e =>
      let kept := { s with message := some ("Unable to delete asset: " ++ e.message) }
      return kept :: (← releaseAssets a rest)

/-- Gives up the assets of an archive. -/
def release (a : Activation) (u : Usage) : Pass Usage := do
  let activeAssets ← releaseAssets a u.status.activeAssets
  return { u with status := { u.status with activeAssets } }

/-! ## Archives that are needed -/

/-- What is recorded of an asset whose object is gone while its archive cannot be had. -/
def manifestsUnavailable : String := "Manifests are no longer available at specified URL"

/-- What is recorded of an asset whose kind may not be installed. -/
def groupRejected : String :=
  "Manifest rejected: contains a Group not equal to tekton.dev or triggers.tekton.dev"

/-- The assets of an archive while they are seen to. -/
structure Progress where
  usage : Usage
  /-- The assets were loaded, or that was tried. -/
  attempted : Bool

/-- Records a failure of an asset, and counts it. -/
def fail (s : AssetStatus) (message : String) : Pass AssetStatus := do
  Pass.count .assetsFailed
  return s.set .failed message

/-- Creates the object of a recorded asset.  Of manifests with its name the last one counts. -/
def install (a : Activation) (u : Usage) (s : AssetStatus) : Pass AssetStatus :=
  if u.manifests.isEmpty then fail s manifestsUnavailable
  else
    match u.manifests.reverse.find? fun m => m.name = s.name with
    | none => fail s ("Asset " ++ s.name ++ " is not present in the pipeline manifests")
    | some m =>
      if !Asset.isAllowedGroup m.kind.group then fail s groupRejected
      else do
        match ← createAsset m s.namespaceName a.owner with
        | .ok () =>
          Pass.count .assetsApplied
          return s.set .active ""
        | .error e => fail s e.message

/-- Sees to one asset: its object is adopted if it exists, and else created.  The archive is loaded
when it is needed for the first time. -/
def ensureAsset (a : Activation) (r : Reference) (p : Progress) (s : AssetStatus) :
    Pass (AssetStatus × Progress) := do
  let s := { s with namespaceName := s.place a.target }
  match ← Pass.get s.objectKind s.namespaceName s.name with
  | .error e => return (s.set .unknown ("Unable to check asset: " ++ e.message), p)
  | .ok (some object) =>
    let _ ← adoptAsset s.objectKind s.namespaceName object a.owner
    return (s.set .active "", p)
  | .ok none =>
    let p ← if p.usage.manifests.isEmpty && !p.attempted then do
        let (_, u) ← a.load r p.usage
        pure (⟨u, true⟩ : Progress)
      else pure p
    return (← a.install p.usage s, p)

/-- Sees to assets in order. -/
def ensureAssets (a : Activation) (r : Reference) (p : Progress) :
    List AssetStatus → Pass (List AssetStatus × Progress)
  | [] => return ([], p)
  | s :: rest => do
    let (s, p) ← a.ensureAsset r p s
    let (rest, p) ← ensureAssets a r p rest
    return (s :: rest, p)

/-- Sees to the recorded assets of an archive. -/
def ensureRecorded (a : Activation) (r : Reference) (u : Usage) : Pass Usage := do
  let attempted := !u.manifests.isEmpty || u.manifestError.isSome
  let (activeAssets, p) ← a.ensureAssets r ⟨u, attempted⟩ u.status.activeAssets
  return { p.usage with status := { u.status with activeAssets } }

/-- Sees to the assets of an archive.  If none are recorded, they are those of the archive. -/
def ensure (a : Activation) (r : Reference) (u : Usage) : Pass Usage :=
  if u.status.activeAssets.isEmpty then do
    match ← a.load r u with
    | (false, u) => return u
    | (true, u) =>
      let activeAssets := u.manifests.map fun m => m.pending a.target
      a.ensureRecorded r { u with status := { u.status with activeAssets } }
  else a.ensureRecorded r u

/-- Gives up what is not needed, then sees to what is needed. -/
def run (a : Activation) (m : UseMap) : Pass UseMap := do
  let m ← m.traverse fun _ u => if u.isNeeded then return u else a.release u
  m.traverse fun r u => if u.isNeeded then a.ensure r u else return u

end Activation

end PipelineStacks
