import PipelineStacks.Effect
import PipelineStacks.Pipeline.Archive

/-!
# Fetching the assets of a pipeline

An archive is fetched from its source, held against the digest that it should have, and decoded.  A
compressed archive with another digest is refused; of a single file the digest is not enforced.
-/

namespace PipelineStacks

/-- The bytes at the source of a reference. -/
def fetchArchive (r : Reference) (skipCertVerification : Bool) :
    Pass (Except PipelineError Bytes) :=
  if r.source = .https "" then return .error .noSource
  else do
    match ← Pass.fetch r.source skipCertVerification with
    | .ok raw => return .ok raw
    | .error e => return .error (.transport e)

/-- The assets in the bytes of an archive. -/
def decodeFetched (r : Reference) (name : String) (context : RenderContext) (type : FileType)
    (raw : Bytes) : Except PipelineError (List Asset) :=
  let actual := Sha256.hex raw
  match type with
  | .tarGz =>
    if Text.eqIgnoringCase actual r.digest then Archive.decode context raw
    else .error (.digestMismatch r.source.text r.digest actual)
  | .yaml => Documents.decode name actual context raw

/-- The assets of a reference; a source that cannot be decoded is not fetched. -/
def fetchAssets (r : Reference) (name : String) (context : RenderContext)
    (skipCertVerification : Bool) : Pass (Except PipelineError (List Asset)) :=
  if r.source = .https "" then return .error .noSource
  else
    match r.source.fileType with
    | .error e => return .error e
    | .ok type => do
      match ← fetchArchive r skipCertVerification with
      | .error e => return .error e
      | .ok raw => return decodeFetched r name context type raw

/-- The assets of a pipeline named `name`; the attempt, its duration and its failure are counted. -/
def getManifests (r : Reference) (name : String) (context : RenderContext)
    (skipCertVerification : Bool) : Pass (Except PipelineError (List Asset)) := do
  Pass.count .archiveFetches
  let result ← fetchAssets r name context skipCertVerification
  Pass.count .archiveFetchDuration
  match result with
  | .error e =>
    Pass.count .archiveFetchErrors
    return .error e
  | .ok assets => return .ok assets

end PipelineStacks
