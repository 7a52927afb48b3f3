import PipelineStacks.Failure
import PipelineStacks.Json.Parser
import PipelineStacks.Json.Record
import PipelineStacks.Program
import PipelineStacks.Text.Utf8

/-!
# Requests to the cluster

The cluster is asked over its web interface.  A request that cannot be written as one is not sent;
an answer that refuses it says why in a record of its own; any other answer is a value of the wire
format.
-/

namespace PipelineStacks.Api

/-- What is to be done. -/
inductive Method
  | get
  | post
  | put
  | patch
  | delete
deriving DecidableEq, Repr, Inhabited

/-- The word for a method. -/
def Method.text : Method → String
  | .get => "GET"
  | .post => "POST"
  | .put => "PUT"
  | .patch => "PATCH"
  | .delete => "DELETE"

/-- A request. -/
structure Request where
  method : Method
  path : String
  query : String := ""
  contentType : Option String := none
  body : Option Json := none
deriving Inhabited

/-- An answer. -/
structure Response where
  status : Nat
  body : Bytes
deriving DecidableEq, Repr, Inhabited

/-- A computation that sends requests. -/
abbrev Call (α : Type) : Type :=
  Program (fun _ : Request => Except Failure Response) α

/-- Why a request has no result. -/
inductive Fault
  /-- The request would be about an object without a name. -/
  | noName
  /-- A character is not allowed where the request says what it is about. -/
  | invalidTarget
  /-- No answer came. -/
  | unanswered (failure : Failure)
  /-- The cluster refused. -/
  | refused (code : Nat) (reason message : String)
  /-- The answer is not what was asked for. -/
  | unreadable
deriving DecidableEq, Repr, Inhabited

/-- The wording of a fault. -/
def Fault.message : Fault → String
  | .noName => "A non-empty name is required"
  | .invalidTarget => "invalid uri character"
  | .unanswered failure => failure.message
  | .refused code reason message =>
    message ++ ": " ++ reason ++ " (" ++ toString code ++ ")"
  | .unreadable => "the answer of the API server cannot be read"

/-- The cluster refused for this reason. -/
def Fault.hasReason (reason : String) : Fault → Bool
  | .refused _ r _ => r = reason
  | _ => false

/-- The cluster refused with this code. -/
def Fault.hasCode (code : Nat) : Fault → Bool
  | .refused c _ _ => c = code
  | _ => false

/-- The fault as the cause of a failure. -/
def Fault.during (f : Fault) (context : String) : Failure :=
  (Failure.root f.message).inContext context

/-! ## Targets -/

/-- A character that a path may hold. -/
def isPathChar (c : Char) : Bool :=
  let n := c.toNat
  (0x21 ≤ n && n ≠ 0x3C && n ≠ 0x3E && n ≠ 0x60) && !(c = '#' || c = '?')

/-- A character that a query may hold. -/
def isQueryChar (c : Char) : Bool :=
  let n := c.toNat
  (0x21 ≤ n && n ≠ 0x22 && n ≠ 0x3C && n ≠ 0x3E) && c ≠ '#'

/-- The path and the query of a target; what stands behind a number sign is dropped. -/
def splitTarget? (target : String) : Option (String × String) :=
  let target := target.toList.takeWhile (· ≠ '#')
  let path := target.takeWhile (· ≠ '?')
  let query := target.drop (path.length + 1)
  if path.all isPathChar && query.all isQueryChar then
    some (String.ofList path, String.ofList query)
  else none

/-! ## Answers -/

/-- What a refusal tells: its status, and its code, for which a record without them is none. -/
def refusal? (v : Json) : Option Fault := do
  match ← Json.row? ["status", "message", "reason", "code"] 4 v with
  | [status, message, reason, code] =>
    let _ ← Json.required Json.string? status
    let message ← Json.defaulted "" Json.string? message
    let reason ← Json.defaulted "" Json.string? reason
    let code ← Json.required Json.int? code
    if 0 ≤ code ∧ code < 0x10000 then some (.refused code.toNat reason message) else none
  | _ => none

/-- The reason of a refusal that tells none. -/
def unknownReason : String := "Failed to parse error data"

/-- The text of an answer that is no refusal. -/
def Response.text (r : Response) : Except Fault String :=
  match Utf8.string? r.body with
  | none => .error .unreadable
  | some text =>
    if 400 ≤ r.status ∧ r.status < 600 then
      match (Json.parse? text.toList).bind refusal? with
      | some fault => .error fault
      | none => .error (.refused r.status unknownReason text)
    else .ok text

/-- The value of an answer that is no refusal. -/
def Response.value (r : Response) : Except Fault Json :=
  match r.text with
  | .error e => .error e
  | .ok text =>
    match Json.parse? text.toList with
    | some v => .ok v
    | none => .error .unreadable

/-- Sends a request and reads its answer. -/
def send {α : Type} (r : Request) (read : Json → Option α) : Call (Except Fault α) := do
  match ← Program.question r with
  | .error e => return .error (.unanswered e)
  | .ok answer =>
    match answer.value with
    | .error e => return .error e
    | .ok v =>
      match read v with
      | some a => return .ok a
      | none => return .error .unreadable

/-- Sends a request about a target. -/
def sendTo {α : Type} (method : Method) (target : String) (contentType : Option String)
    (body : Option Json) (read : Json → Option α) : Call (Except Fault α) :=
  match splitTarget? target with
  | none => return .error .invalidTarget
  | some (path, query) => send ⟨method, path, query, contentType, body⟩ read

/-- The target of the object `name` in a collection. -/
def named (collection name : String) (send : String → Call (Except Fault α)) :
    Call (Except Fault α) :=
  if name = "" then return .error .noName else send (collection ++ "/" ++ name)

/-! ## Requests for objects -/

/-- The type of the bodies that are sent. -/
def jsonType : String := "application/json"

/-- The type of bodies that are merged into an object. -/
def mergeType : String := "application/merge-patch+json"

/-- Reads an object of a collection. -/
def read {α : Type} (collection name : String) (of : Json → Option α) : Call (Except Fault α) :=
  named collection name fun target => sendTo .get target none none of

/-- Reads what a collection lists. -/
def list {α : Type} (collection : String) (of : Json → Option α) : Call (Except Fault α) :=
  sendTo .get (collection ++ "?") none none of

/-- Adds an object to a collection. -/
def create {α : Type} (collection : String) (body : Json) (of : Json → Option α) :
    Call (Except Fault α) :=
  sendTo .post (collection ++ "?") (some jsonType) (some body) of

/-- Replaces an object of a collection. -/
def replace {α : Type} (collection name : String) (body : Json) (of : Json → Option α) :
    Call (Except Fault α) :=
  named collection name fun target => sendTo .put (target ++ "?") (some jsonType) (some body) of

/-- Merges a value into an object of a collection, or into a part of the object. -/
def merge {α : Type} (collection name part : String) (body : Json) (of : Json → Option α) :
    Call (Except Fault α) :=
  named collection name fun target =>
    sendTo .patch (target ++ part) (some mergeType) (some body) of

/-- Deletes an object of a collection together with what depends on it, without waiting. -/
def delete {α : Type} (collection name : String) (of : Json → Option α) : Call (Except Fault α) :=
  named collection name fun target =>
    sendTo .delete (target ++ "?") (some jsonType)
      (some (.object [("propagationPolicy", .str "Background")])) of

end PipelineStacks.Api
