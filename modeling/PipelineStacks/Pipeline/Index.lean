import PipelineStacks.Text.Chars
import PipelineStacks.Yaml.Record

/-!
# The index of an archive

Every archive of a pipeline lists its files with their checksums in a file of its own.  Names may
start with a sign for the current folder, in the index as well as in the archive.
-/

namespace PipelineStacks

/-- A file that an index lists.  An empty checksum admits any content. -/
structure IndexEntry where
  file : String := ""
  sha256 : String := ""
deriving DecidableEq, Repr, Inhabited

/-- The index of an archive. -/
structure Index where
  contents : List IndexEntry := []
deriving DecidableEq, Repr, Inhabited

namespace Index

/-- The file that holds the index. -/
def fileName : String := "manifest.yaml"

/-- The sign for the current folder. -/
def here : List Char := "./".toList

/-- The name of an archive entry without one sign for the current folder. -/
def normalName (name : String) : String :=
  match Text.dropPrefix? here name.toList with
  | some rest => String.ofList rest
  | none => name

/-- The name of a listed file without any sign for the current folder. -/
def listedName (name : String) : String :=
  String.ofList (Text.dropPrefixes here name.toList)

/-- The first entry for a file. -/
def lookup (index : Index) (file : String) : Option IndexEntry :=
  index.contents.find? fun entry => listedName entry.file = file

/-! ## Reading -/

open Yaml (Document Node)
open Yaml.Resolve (Reader fields textField itemsField)

/-- Reads an entry. -/
def readEntry (d : Document) (n : Node) : Reader IndexEntry := do
  match ← fields d ["file", "sha256"] n with
  | [file, sha256] => return ⟨← textField d file, ← textField d sha256⟩
  | _ => return {}

/-- Reads an index. -/
def read (d : Document) (n : Node) : Reader Index := do
  match ← fields d ["contents"] n with
  | [contents] => return ⟨← (← itemsField d contents).mapM (readEntry d)⟩
  | _ => return {}

/-- A blank in the sense of the oldest character set. -/
def isBlankByte (b : UInt8) : Bool :=
  b = 0x09 || b = 0x0A || b = 0x0C || b = 0x0D || b = 0x20

/-- Reads the file that holds the index, which is one document.  The reason is told if it cannot be
read. -/
def ofBytes (raw : Bytes) : Except String Index :=
  if raw.all isBlankByte then .ok {}
  else
    match Utf8.decode raw with
    | .error fault => .error fault.message
    | .ok text =>
      let stream := Yaml.Document.stream text
      match stream.documents, stream.fault with
      | [⟨none⟩], none => .ok {}
      | [⟨some root⟩], none =>
        let d : Document := ⟨some root⟩
        match (read d root).run' d.aliasLimit with
        | .ok index => .ok index
        | .error e => .error e.message
      | _, some fault => .error fault.message
      | _, none => .error "more than one document"

end Index

end PipelineStacks
