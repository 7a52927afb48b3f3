import PipelineStacks.Pipeline.Asset
import PipelineStacks.Pipeline.Error
import PipelineStacks.Pipeline.Source
import PipelineStacks.SortedMap

/-!
# Which pipelines are needed

Versions share pipeline archives, so the archives are counted by use.  The count starts with what is
recorded and is then corrected by what the active versions ask for: each pair of an archive and a
version that is recorded but not asked for counts less by one, each pair that is asked for but not
recorded counts more by one.
-/

namespace PipelineStacks

/-- What is known of one archive during a pass. -/
structure Usage where
  /-- What is recorded, with the assets that were applied so far. -/
  status : PipelineStatus
  useCount : Int := 0
  /-- The decoded assets, once they are loaded. -/
  manifests : List Asset := []
  /-- Why the assets could not be loaded. -/
  manifestError : Option PipelineError := none
  skipCertVerification : Bool := false
  /-- The versions under which the archive is recorded. -/
  statusVersions : SortedMap String Unit := {}
deriving Inhabited

/-- Some version needs the archive. -/
def Usage.isNeeded (u : Usage) : Bool :=
  0 < u.useCount

/-- The archives of a pass. -/
abbrev UseMap := SortedMap Reference Usage

namespace UseMap

/-- A use of an archive by a version. -/
abbrev Use := Reference × String

/-- The recorded uses in order, each with its record. -/
def recordedUses (versions : List VersionStatus) : List (Use × PipelineStatus) :=
  versions.flatMap fun v => v.pipelines.map fun p => ((.ofStatus p, v.version), p)

/-- The uses that the active versions ask for, in order. -/
def desiredUses (versions : List VersionSpec) : List (Use × PipelineSpec) :=
  (versions.filter (·.isActive)).flatMap fun v =>
    v.pipelines.map fun p => ((.ofSpec p, v.version), p)

/-- Counts a recorded use. -/
def seed (m : UseMap) (use : Use × PipelineStatus) : UseMap :=
  let ((r, version), p) := use
  let u := (m.get? r).getD { status := p }
  m.insert r { u with
    useCount := u.useCount + 1
    statusVersions := u.statusVersions.insert version () }

/-- Takes back the count of a use that is no longer asked for. -/
def dropUse (desired : SortedMap Use PipelineSpec) (m : UseMap) (use : Use) :
    Except PipelineError UseMap :=
  if desired.contains use then .ok m
  else
    match m.get? use.1 with
    | none => .error (.useCountInconsistent use.1.text)
    | some u => .ok (m.insert use.1 { u with useCount := u.useCount - 1 })

/-- The record of a pipeline that is asked for, before anything is applied. -/
def freshStatus (r : Reference) (p : PipelineSpec) : PipelineStatus where
  name := p.id
  url := r.source.url?
  gitRelease := r.source.release?
  digest := r.digest

/-- Takes in a use that is asked for; it counts if it is not recorded. -/
def addUse (recorded : SortedMap Use Unit) (m : UseMap) (use : Use × PipelineSpec) : UseMap :=
  let ((r, version), p) := use
  let u := (m.get? r).getD { status := freshStatus r p }
  m.insert r { u with
    skipCertVerification := u.skipCertVerification || p.skipCertVerification
    useCount := if recorded.contains (r, version) then u.useCount else u.useCount + 1 }

/-- The archives that are recorded or asked for.  Of pipelines that name one archive in one version
the last one counts. -/
def build (recorded : List VersionStatus) (desired : List VersionSpec) :
    Except PipelineError UseMap := do
  let uses := recordedUses recorded
  let recordedSet : SortedMap Use Unit := .ofList (uses.map fun u => (u.1, ()))
  let desiredMap : SortedMap Use PipelineSpec := .ofList (desiredUses desired)
  let counted ← recordedSet.keys.foldlM (dropUse desiredMap) (uses.foldl seed {})
  return desiredMap.entries.foldl (addUse recordedSet) counted

/-- The archives that no version needs. -/
def toDelete (m : UseMap) : List (Reference × Usage) :=
  m.entries.filter fun e => !e.2.isNeeded

/-- The archives that some version needs. -/
def toEnsure (m : UseMap) : List (Reference × Usage) :=
  m.entries.filter fun e => e.2.isNeeded

end UseMap

end PipelineStacks
