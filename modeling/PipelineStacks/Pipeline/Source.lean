import PipelineStacks.Pipeline.Error
import PipelineStacks.SortedMap
import PipelineStacks.Stack.Status
import PipelineStacks.Text.Chars

/-!
# Sources of archives

The identity of a pipeline archive, apart from the version that uses it: where it comes from and
which digest it must have.  `Reference.ofSpec` and `Reference.ofStatus` read it off the spec and
off the recorded status.
-/

namespace PipelineStacks

/-- The type of an archive. -/
inductive FileType
  /-- A compressed archive with an index. -/
  | tarGz
  /-- A single file of documents. -/
  | yaml
deriving DecidableEq, Repr, Inhabited

/-- The type that a file name tells by its ending, whatever the case of its letters. -/
def FileType.classify (name : String) : Except PipelineError FileType :=
  let lower := Text.lowerAscii name.toList
  if Text.endsWith ".tar.gz".toList lower || Text.endsWith ".tgz".toList lower then .ok .tarGz
  else if Text.endsWith ".yaml".toList lower || Text.endsWith ".yml".toList lower then .ok .yaml
  else .error (.unsupportedFileType name)

/-- Where an archive is fetched from. -/
inductive Source
  | https (url : String)
  | gitRelease (release : GitRelease)
deriving DecidableEq, Repr, Inhabited

namespace Source

/-- Complete release coordinates win over a web address; with neither, the address is empty. -/
def resolve (url : Option String) (release : Option GitRelease) : Source :=
  match release with
  | some r => if r.isComplete then .gitRelease r else .https (url.getD "")
  | none => .https (url.getD "")

/-- The file name by which the type is told: the last segment of a web address without its query
and fragment, or the name of the release asset. -/
def fileName : Source → String
  | .https url =>
    let path := url.toList.takeWhile fun c => c ≠ '?' && c ≠ '#'
    match Text.splitLast? '/' path with
    | some (_, last) => String.ofList last
    | none => String.ofList path
  | .gitRelease release => release.assetName

/-- The type of the archive. -/
def fileType (s : Source) : Except PipelineError FileType :=
  FileType.classify s.fileName

/-- The web address. -/
def url? : Source → Option String
  | .https url => some url
  | .gitRelease _ => none

/-- The release coordinates. -/
def release? : Source → Option GitRelease
  | .https _ => none
  | .gitRelease release => some release

/-- The source in one line. -/
def text : Source → String
  | .https url => url
  | .gitRelease r =>
    r.hostname ++ "/" ++ r.organization ++ "/" ++ r.project ++ "@" ++ r.release ++ ":" ++
      r.assetName

/-- Web addresses come before release assets. -/
def rank : Source → List String
  | .https url => ["0", url]
  | .gitRelease r => ["1", r.hostname, r.organization, r.project, r.release, r.assetName]

theorem rank_injective {s t : Source} (h : s.rank = t.rank) : s = t := by
  cases s with
  | https u => cases t <;> simp_all [rank]
  | gitRelease r =>
    cases t with
    | https u => simp [rank] at h
    | gitRelease r' =>
      obtain ⟨a, b, c, d, e⟩ := r
      obtain ⟨a', b', c', d', e'⟩ := r'
      simp_all [rank]

instance : Ranked Source where
  rank := rank
  rank_injective := rank_injective

end Source

/-- The first eight bytes of a text, if its characters end there. -/
def bytesPrefix? : Nat → List Char → Option (List Char)
  | 0, _ => some []
  | _ + 1, [] => none
  | n + 1, c :: cs =>
    if c.utf8Size ≤ n + 1 then (bytesPrefix? (n + 1 - c.utf8Size) cs).map (c :: ·) else none

/-- The first eight bytes of a digest; a digest without them is none. -/
def shortDigest (digest : String) : String :=
  match bytesPrefix? 8 digest.toList with
  | some cs => String.ofList cs
  | none => "nodigest"

/-- The identity of a pipeline archive. -/
structure Reference where
  source : Source
  digest : String
deriving DecidableEq, Repr, Inhabited

namespace Reference

instance : Ranked Reference where
  rank r := r.source.rank ++ [r.digest]
  rank_injective := by
    intro a b h
    obtain ⟨s, d⟩ := a
    obtain ⟨s', d'⟩ := b
    have := List.append_inj' h rfl
    simp only [List.cons.injEq, and_true] at this
    rw [Source.rank_injective this.1, this.2]

/-- A reference together with the name of a version that uses it. -/
instance : Ranked (Reference × String) where
  rank p := Ranked.rank p.1 ++ [p.2]
  rank_injective := by
    intro a b h
    obtain ⟨r, v⟩ := a
    obtain ⟨r', v'⟩ := b
    have := List.append_inj' h rfl
    simp only [List.cons.injEq, and_true] at this
    rw [Ranked.rank_injective this.1, this.2]

/-- The archive that a pipeline of the spec refers to. -/
def ofSpec (p : PipelineSpec) : Reference where
  source := .resolve (p.https.map (·.url)) (p.gitRelease.map (·.release))
  digest := p.sha256

/-- The archive that a recorded pipeline came from. -/
def ofStatus (p : PipelineStatus) : Reference where
  source := .resolve p.url p.gitRelease
  digest := p.digest

/-- The short digest by which rendered assets are named. -/
def shortDigest (r : Reference) : String :=
  PipelineStacks.shortDigest r.digest

/-- The reference in one line. -/
def text (r : Reference) : String :=
  r.source.text ++ " (" ++ r.digest ++ ")"

end Reference

end PipelineStacks
