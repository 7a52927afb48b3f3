import PipelineStacks.Archive.Tar
import PipelineStacks.Digest.Sha256
import PipelineStacks.Pipeline.Documents
import PipelineStacks.Pipeline.Index

/-!
# The assets of an archive

An archive is a compressed run of files, one of which lists the others with their checksums.  All
files with a certain ending are decoded in order; each has to be listed and to be the file that is
listed.
-/

namespace PipelineStacks.Archive

/-- What a fault in reading the files means for the pipeline. -/
def errorOf : Tar.Fault → PipelineError
  | .unreadable reason => .archive reason
  | .truncated name => .truncatedArchive name

/-- The name under which an entry is listed. -/
def nameOf (e : Tar.Entry) : String :=
  Index.normalName e.name

/-- The entry is the index. -/
def isIndex (e : Tar.Entry) : Bool :=
  nameOf e = Index.fileName

/-- The entry is decoded. -/
def isDecoded (e : Tar.Entry) : Bool :=
  !isIndex e && Text.endsWith ".yaml".toList (nameOf e).toList

/-- The last index among entries.  None of them may be unreadable. -/
def indexAmong (found : Option Index) : List Tar.Entry → Except PipelineError (Option Index)
  | [] => .ok found
  | e :: es =>
    if isIndex e then
      match Index.ofBytes e.data with
      | .error reason => .error (.indexSyntax reason)
      | .ok index => indexAmong (some index) es
    else indexAmong found es

/-- The index of an archive, all of which has to be readable. -/
def index (files : Tar.Listing) : Except PipelineError Index := do
  let found ← indexAmong none files.entries
  match files.fault, found with
  | some fault, _ => throw (errorOf fault)
  | none, some index => return index
  | none, none => throw .indexMissing

/-- The assets of one file, which has to be the one that the index lists. -/
def decodeEntry (index : Index) (context : RenderContext) (e : Tar.Entry) :
    Except PipelineError (List Asset) :=
  match index.lookup (nameOf e) with
  | none => .error (.unindexedAsset e.name)
  | some listed =>
    let actual := Sha256.hex e.data
    if listed.sha256 ≠ "" ∧ ¬ Text.eqIgnoringCase listed.sha256 actual then
      .error (.checksumMismatch e.name listed.sha256 actual)
    else Documents.decode e.name listed.sha256 context e.data

/-- The assets of files, in order. -/
def decodeEntries (index : Index) (context : RenderContext) :
    List Tar.Entry → Except PipelineError (List Asset)
  | [] => .ok []
  | e :: es => do
    let first ← decodeEntry index context e
    let others ← decodeEntries index context es
    return first ++ others

/-- The assets of the files of an archive. -/
def decodeFiles (context : RenderContext) (files : Tar.Listing) :
    Except PipelineError (List Asset) := do
  let index ← index files
  decodeEntries index context (files.entries.filter isDecoded)

/-- The assets of an archive. -/
def decode (context : RenderContext) (raw : Bytes) : Except PipelineError (List Asset) :=
  decodeFiles context (Tar.listing (Gzip.contents raw))

end PipelineStacks.Archive
