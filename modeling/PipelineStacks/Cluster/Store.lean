import PipelineStacks.Cluster.Api
import PipelineStacks.Cluster.Kind
import PipelineStacks.Cluster.Object
import PipelineStacks.WordSize

/-!
# Objects in the cluster

The four operations on objects of any kind, as requests to the cluster.  An object that does not
exist is looked up and deleted without failure.
-/

namespace PipelineStacks.Store

open Api (Call)

/-- What was being done with an object when it failed. -/
def context (verb : String) (kind : Kind) (inNamespace name : String) : String :=
  "Failed to " ++ verb ++ " " ++ kind.name ++ " " ++ inNamespace ++ "/" ++ name

/-- The failure of an operation on an object without a name. -/
def nameless : Failure := Failure.root "object has no metadata.name"

/-- Reads an object; what is no object is refused. -/
def get (kind : Kind) (inNamespace name : String) : Call (Except Failure (Option Object)) := do
  match ← Api.read (kind.path (some inNamespace)) name Object.ofJson? with
  | .ok object => return .ok (some object)
  | .error e =>
    if e.hasReason "NotFound" then return .ok none
    else return .error (e.during (context "get" kind inNamespace name))

/-- Creates an object. -/
def create (kind : Kind) (inNamespace : String) (object : Object) : Call (Except Failure Unit) :=
  match object.metadata.name with
  | none => return .error nameless
  | some name => do
    match ← Api.create (kind.path (some inNamespace)) object.toJson Object.ofJson? with
    | .ok _ => return .ok ()
    | .error e => return .error (e.during (context "create" kind inNamespace name))

/-- Replaces an object. -/
def update (kind : Kind) (inNamespace : String) (object : Object) : Call (Except Failure Unit) :=
  match object.metadata.name with
  | none => return .error nameless
  | some name => do
    match ← Api.replace (kind.path (some inNamespace)) name object.toJson Object.ofJson? with
    | .ok _ => return .ok ()
    | .error e => return .error (e.during (context "update" kind inNamespace name))

/-! ## Deleting -/

/-- Reads one of two words for the outcome of a request. -/
def outcomeWord? (v : Json) : Option Unit := do
  let word ← Json.word? v
  if word = "Success" ∨ word = "Failure" then some () else none

/-- Reads a whole number that is not negative and has at most the given number of bits. -/
def unsigned? (bits : Nat) (v : Json) : Option Unit :=
  v.int?.bind fun n => if 0 ≤ n ∧ n < wordSize bits then some () else none

/-- Reads a text for nothing but to see that it is one. -/
def someText? (v : Json) : Option Unit :=
  v.string?.map fun _ => ()

/-- Reads a cause of an outcome. -/
def cause? (v : Json) : Option Unit := do
  match ← Json.row? ["reason", "message", "field"] 0 v with
  | texts => let _ ← texts.mapM (Json.defaulted () someText?)

/-- Reads the details of an outcome. -/
def details? (v : Json) : Option Unit := do
  match ← Json.row? ["name", "group", "kind", "uid", "causes", "retryAfterSeconds"] 0 v with
  | [name, group, kind, uid, causes, retry] =>
    let _ ← [name, group, kind, uid].mapM (Json.defaulted () someText?)
    let _ ← Json.defaulted [] (Json.list? cause?) causes
    Json.defaulted () (unsigned? 32) retry
  | _ => none

/-- Reads the metadata of a list. -/
def listMetadata? (v : Json) : Option Unit := do
  let fields ← v.object?
  let _ ← ["continue", "resourceVersion", "selfLink"].mapM fun name =>
    Json.optional someText? (Fields.get? name fields)
  let _ ← Json.optional Json.int64? (Fields.get? "remainingItemCount" fields)

/-- Reads the record of an outcome. -/
def outcome? (v : Json) : Option Unit := do
  match ← Json.row? ["status", "code", "message", "metadata", "reason", "details"] 0 v with
  | [status, code, message, metadata, reason, details] =>
    let _ ← Json.optional outcomeWord? status
    let _ ← Json.defaulted () (unsigned? 16) code
    let _ ← [message, reason].mapM (Json.defaulted () someText?)
    let _ ← Json.optional listMetadata? metadata
    let _ ← Json.optional details? details
  | _ => none

/-- Reads the answer to a deletion: the record of an outcome, or else the object. -/
def deleted? (v : Json) : Option Unit :=
  if v.field? "kind" == some (.str "Status") then outcome? v
  else (Object.ofJson? v).map fun _ => ()

/-- Deletes an object. -/
def delete (kind : Kind) (inNamespace name : String) : Call (Except Failure Unit) := do
  match ← Api.delete (kind.path (some inNamespace)) name deleted? with
  | .ok () => return .ok ()
  | .error e =>
    if e.hasCode 404 then return .ok ()
    else return .error (e.during (context "delete" kind inNamespace name))

end PipelineStacks.Store
