import PipelineStacks.Pipeline.Asset
import PipelineStacks.Pipeline.Error
import PipelineStacks.Pipeline.Template
import PipelineStacks.Yaml.Resolve

/-!
# The assets of a file

A file of an archive is rendered and then read as documents.  Each document that is not null is one
asset; a document that is no object makes the whole file useless.
-/

namespace PipelineStacks

/-- The asset that an object is.  The kind has to be told by the object itself. -/
def Asset.ofObject (sha256 : String) (o : Object) : Except String Asset :=
  match o.typeName with
  | none => .error "document has no apiVersion/kind"
  | some t =>
    if t.kind = "" then .error "document has no kind"
    else .ok ⟨o.nameText, .ofApiVersion t.apiVersion t.kind, sha256, o⟩

namespace Documents

/-- The asset that a document is; none for a document that is null. -/
def asset? (sha256 : String) (d : Yaml.Document) : Except String (Option Asset) :=
  match d.value with
  | .error e => .error e.message
  | .ok v =>
    if v.isNull then .ok none
    else
      match v.toJson? with
      | none => .error "key must be a string"
      | some json =>
        match Object.ofJson? json with
        | none => .error "document is no object"
        | some o => (Asset.ofObject sha256 o).map some

/-- The assets of some documents, in order. -/
def assets (sha256 : String) (documents : List Yaml.Document) : Except String (List Asset) := do
  let found ← documents.mapM (asset? sha256)
  return found.filterMap id

/-- The assets of a text.  A document is refused before the text behind it is looked at. -/
def ofText (sha256 : String) (text : List Char) : Except String (List Asset) := do
  let stream := Yaml.Document.stream text
  let found ← assets sha256 stream.documents
  match stream.fault with
  | some fault => throw fault.message
  | none => return found

/-- The assets of the file `file`, whose checksum is `sha256`. -/
def decode (file sha256 : String) (context : RenderContext) (raw : Bytes) :
    Except PipelineError (List Asset) :=
  match Template.renderManifest context raw with
  | .error fault => .error (.render file fault.message)
  | .ok rendered =>
    match ofText sha256 rendered with
    | .error reason => .error (.decode file reason)
    | .ok found => .ok found

end Documents

end PipelineStacks
