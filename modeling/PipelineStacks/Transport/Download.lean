import PipelineStacks.Failure
import PipelineStacks.Json.Parser
import PipelineStacks.Pipeline.Source
import PipelineStacks.Program
import PipelineStacks.Transport.Cache
import PipelineStacks.Transport.ReleaseHost

/-!
# Downloads

How the bytes of an archive are had over the web.  An address that was loaded before is asked for
with the validators of the cached body, and an answer that says it is still current stands for that
body.  A release asset is looked up in the description of its release first.

Each question is one step: between two of them other downloads may use the cache.
-/

namespace PipelineStacks

/-- A request for an address. -/
structure WebRequest where
  url : String
  headers : List (String × String) := []
  /-- The certificate of the server is to be verified. -/
  verified : Bool
deriving DecidableEq, Repr, Inhabited

/-- An answer, once redirections were followed. -/
structure WebAnswer where
  status : Nat
  etag : Option String := none
  date : Option String := none
  /-- The body, or why it did not arrive whole. -/
  body : Except Failure Bytes

namespace Download

/-- What a download asks of the outside world. -/
inductive Question
  /-- The validators that the cache has for an address. -/
  | validators (url : String)
  | send (request : WebRequest)
  /-- The cached body of an address. -/
  | hit (url : String)
  /-- Hands the body of an answer to the cache. -/
  | store (url : String) (etag date : Option String) (body : Bytes)
  /-- Counts an answer that stands for a cached body. -/
  | countHit

/-- The answer to a question. -/
def Question.Answer : Question → Type
  | .validators _ => Option (String × String)
  | .send _ => Except Failure WebAnswer
  | .hit _ => Option Bytes
  | .store .. | .countHit => Unit

/-- A computation that downloads. -/
abbrev Task (α : Type) : Type := Program Question.Answer α

/-- The headers of a request that depends on validators. -/
def conditions : Option (String × String) → List (String × String)
  | some (etag, date) => [("if-none-match", etag), ("if-modified-since", date)]
  | none => []

/-- A failure to get any answer. -/
def requestFailure (skipCertVerification : Bool) (e : Failure) : Failure :=
  e.inContext (if skipCertVerification then "HTTP request error"
    else "HTTP request error while using the default TLS configuration")

/-- What an answer for an address means. -/
def receive (url : String) (answer : WebAnswer) : Task (Except Failure Bytes) :=
  if answer.status = 304 then do
    let () ← Program.question Question.countHit
    match ← (Program.question (Question.hit url) : Task (Option Bytes)) with
    | some body => return .ok body
    | none => return .error (.root
        ("Received 304 Not Modified for " ++ url ++ " but no cached copy exists"))
  else if answer.status = 200 then
    match answer.body with
    | .error e => return .error (e.inContext ("Failed to read response body from " ++ url))
    | .ok body => do
      let () ← Program.question (Question.store url answer.etag answer.date body)
      return .ok body
  else return .error (.root
    ("Could not retrieve the pipeline archive from " ++ url ++ ". Http status code: " ++
      toString answer.status))

/-- Downloads an address. -/
def fetch (url : String) (skipCertVerification : Bool) : Task (Except Failure Bytes) := do
  let validators : Option (String × String) ← Program.question (Question.validators url)
  let request : WebRequest := ⟨url, conditions validators, !skipCertVerification⟩
  match ← (Program.question (Question.send request) : Task (Except Failure WebAnswer)) with
  | .error e => return .error (requestFailure skipCertVerification e)
  | .ok answer => receive url answer

/-! ## Release assets -/

/-- The header that carries a token. -/
def authorization : Option String → List (String × String)
  | some token => if token = "" then [] else [("authorization", "token " ++ token)]
  | none => []

/-- Sends a request that an error status makes fail. -/
def request (token : Option String) (accept url : String) (skipCertVerification : Bool)
    (context : String) : Task (Except Failure WebAnswer) := do
  let request : WebRequest :=
    ⟨url, ("accept", accept) :: authorization token, !skipCertVerification⟩
  match ← (Program.question (Question.send request) : Task (Except Failure WebAnswer)) with
  | .error e => return .error (requestFailure skipCertVerification e)
  | .ok answer =>
    if 400 ≤ answer.status then
      let cause := Failure.root ("HTTP status error (" ++ toString answer.status ++ ")")
      return .error (cause.inContext context)
    else return .ok answer

/-- The assets that the answer for a release lists. -/
def listed (url : String) (answer : WebAnswer) : Except Failure (List ReleaseHost.ReleaseAsset) :=
  let context := "Failed to parse release " ++ url
  match answer.body with
  | .error e => .error (e.inContext context)
  | .ok body =>
    match ((Utf8.string? body).bind fun s => Json.parse? s.toList).bind
        ReleaseHost.releaseAssets? with
    | some assets => .ok assets
    | none => .error ((Failure.root "error decoding response body").inContext context)

/-- Downloads an asset of a release. -/
def fetchRelease (token : Option String) (r : GitRelease) (skipCertVerification : Bool) :
    Task (Except Failure Bytes) := do
  let url := ReleaseHost.releaseUrl r
  match ← request token "application/vnd.github+json" url skipCertVerification
      ("Failed to look up release " ++ url) with
  | .error e => return .error e
  | .ok answer =>
    match listed url answer with
    | .error e => return .error e
    | .ok assets =>
      match assets.find? (·.name = r.assetName) with
      | none => return .error (.root
          ("Asset " ++ r.assetName ++ " not found in release " ++ r.release ++ " of " ++
            r.organization ++ "/" ++ r.project))
      | some asset =>
        match ← request token "application/octet-stream" asset.url skipCertVerification
            ("Failed to download release asset " ++ asset.name) with
        | .error e => return .error e
        | .ok answer =>
          match answer.body with
          | .error e => return .error (e.inContext ("Failed to read release asset " ++ asset.name))
          | .ok body => return .ok body

/-- Downloads the archive at a source. -/
def fetchSource (token : Option String) (s : Source) (skipCertVerification : Bool) :
    Task (Except Failure Bytes) :=
  match s with
  | .https url => fetch url skipCertVerification
  | .gitRelease r => fetchRelease token r skipCertVerification

/-! ## A world with a cache -/

/-- What downloads change. -/
structure State where
  cache : ArchiveCache := {}
  /-- The time in ticks. -/
  now : Nat := 0
  cacheHits : Nat := 0

/-- The world in which a network answers and the cache keeps what it is given. -/
def world {σ : Type} (network : WebRequest → σ → Except Failure WebAnswer × σ) :
    Program.World Question.Answer (State × σ) := fun q (s, n) =>
  match q with
  | .validators url => (s.cache.validators url, s, n)
  | .send request =>
    let (answer, n) := network request n
    (answer, s, n)
  | .hit url =>
    let (body, cache) := s.cache.hit s.now url
    (body, { s with cache }, n)
  | .store url etag date body =>
    ((), { s with cache := s.cache.store s.now url etag date body }, n)
  | .countHit => ((), { s with cacheHits := s.cacheHits + 1 }, n)

end Download

end PipelineStacks
