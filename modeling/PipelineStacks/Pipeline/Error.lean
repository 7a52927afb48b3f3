import PipelineStacks.Failure

/-!
# Why a pipeline has no assets

Everything that can go wrong between a pipeline's source and its decoded assets.  The wording of
each cause is in one function, `PipelineError.message`.
-/

namespace PipelineStacks

/-- Why the assets of a pipeline could not be had. -/
inductive PipelineError
  /-- Neither a web address nor release coordinates were given. -/
  | noSource
  /-- The archive could not be fetched. -/
  | transport (failure : Failure)
  /-- The name of the archive tells no type. -/
  | unsupportedFileType (name : String)
  /-- The archive is not the one that was asked for. -/
  | digestMismatch (location expected actual : String)
  /-- The archive has no index. -/
  | indexMissing
  /-- A file of the archive is not in its index. -/
  | unindexedAsset (name : String)
  /-- A file of the archive is not the one in its index. -/
  | checksumMismatch (file expected actual : String)
  /-- An entry of the archive is shorter than it says. -/
  | truncatedArchive (name : String)
  /-- The archive cannot be read. -/
  | archive (reason : String)
  /-- The index cannot be read. -/
  | indexSyntax (reason : String)
  /-- A file cannot be rendered. -/
  | render (file reason : String)
  /-- A document of a file is no object of the cluster. -/
  | decode (file reason : String)
  /-- The books about the use of pipelines are inconsistent. -/
  | useCountInconsistent (key : String)
deriving DecidableEq, Repr, Inhabited

namespace PipelineError

/-- The wording of an error. -/
def message : PipelineError → String
  | noSource =>
    "no pipeline source: neither an https url nor git release information was provided"
  | transport failure => failure.message
  | unsupportedFileType name => "Must be .tar.gz or .yaml: " ++ name
  | digestMismatch location expected actual =>
    "the digest of " ++ location ++ " (" ++ actual ++ ") does not match the expected digest " ++
      expected
  | indexMissing => "unable to read manifest.yaml: not found in archive"
  | unindexedAsset name =>
    "File " ++ name ++ " was found in the archive, but not in the manifest.yaml"
  | checksumMismatch file expected actual =>
    "the checksum of " ++ file ++ " (" ++ actual ++
      ") does not match the manifest.yaml checksum " ++ expected
  | truncatedArchive name => "archive entry " ++ name ++ " ended before its declared size"
  | archive reason => "unable to read archive: " ++ reason
  | indexSyntax reason => "unable to parse manifest.yaml: " ++ reason
  | render file reason => "unable to render " ++ file ++ ": " ++ reason
  | decode file reason => "unable to decode " ++ file ++ ": " ++ reason
  | useCountInconsistent key => "Pipeline version not found in use map: " ++ key

/-- The error is a defect of the controller and not of its surroundings. -/
def isStructural : PipelineError → Bool
  | useCountInconsistent _ => true
  | _ => false

end PipelineError

end PipelineStacks
