import PipelineStacks.Controller.Outside
import PipelineStacks.Controller.Watching
import PipelineStacks.Json.Printer
import PipelineStacks.Text.Hex

/-!
# The gateway

The programs reach the cluster and the web through a gateway: they write questions and read
answers, each a value on a line of its own.  Here is how questions are written and answers read.
-/

namespace PipelineStacks.Gateway

/-! ## Bytes -/

/-- Bytes as a value: a text if they are one, else their hexadecimal digits. -/
def ofBytes (bs : Bytes) : Json :=
  match Utf8.string? bs with
  | some s => .str s
  | none => .object [("hex", .str (String.ofList (Hex.ofBytes bs)))]

/-- Reads bytes. -/
def bytes? : Json → Option Bytes
  | .str s => some (Utf8.encodeString s)
  | v => do Hex.bytes? (← (← v.field? "hex").string?).toList

/-! ## Questions -/

/-- A request to the cluster. -/
def ofRequest (r : Api.Request) : Json :=
  .object [
    ("method", .str r.method.text), ("path", .str r.path),
    ("query", if r.query = "" then .null else .str r.query),
    ("contentType", (r.contentType.map Json.str).getD .null), ("body", r.body.getD .null)]

/-- A request for a web address. -/
def ofWebRequest (r : WebRequest) : Json :=
  .object [
    ("url", .str r.url), ("verified", .bool r.verified),
    ("headers", .arr (r.headers.map fun (name, value) => .arr [.str name, .str value]))]

/-! ## Answers -/

/-- Reads a failure: its causes from the outermost on, or a single one. -/
def failure? (v : Json) : Option Failure :=
  match v.field? "error" with
  | some (.str cause) => some (.root cause)
  | some (.arr (.str outermost :: causes)) =>
    (causes.mapM Json.string?).map fun causes => ⟨outermost, causes⟩
  | _ => none

/-- What is wrong with an answer that cannot be read. -/
def unreadable : Failure :=
  .root "the answer of the gateway cannot be read"

/-- Reads an answer that may be a failure. -/
def answer {α : Type} (read : Json → Option α) (v : Json) : Except Failure α :=
  match failure? v with
  | some e => .error e
  | none =>
    match read v with
    | some a => .ok a
    | none => .error unreadable

/-- Reads the status of an answer. -/
def status? (v : Json) : Option Nat := do
  let status ← (← v.field? "status").int?
  if 0 ≤ status then some status.toNat else none

/-- Reads an answer of the cluster. -/
def response? (v : Json) : Option Api.Response := do
  return ⟨← status? v, ← bytes? (← v.field? "body")⟩

/-- Reads an answer from the web. -/
def webAnswer? (v : Json) : Option WebAnswer := do
  let text (name : String) : Option String := (v.field? name).bind Json.string?
  return {
    status := ← status? v
    etag := text "etag"
    date := text "date"
    body := answer bytes? (← v.field? "body") }

/-- Reads what the controller is told. -/
def event? (v : Json) : Option Event :=
  match v.field? "stack" with
  | some stack => (Stack.ofJson? stack).map .due
  | none => (v.field? "watchError").bind Json.string? |>.map .watchError

theorem bytes?_ofBytes_of_text {bs : Bytes} {s : String} (h : Utf8.string? bs = some s) :
    bytes? (ofBytes bs) = some (Utf8.encodeString s) := by
  simp [ofBytes, h, bytes?]

end PipelineStacks.Gateway
