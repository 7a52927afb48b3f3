import PipelineStacks.Metrics

/-!
# Probes

The controller answers web requests about itself: whether it is alive, whether it is ready, and
what it has counted.  `reply_of_unknown` and `status_readiness` say what decides the answers.
-/

namespace PipelineStacks.Probes

/-- An answer to a web request. -/
structure Reply where
  status : Nat
  contentType : Option String := none
  /-- The methods that are allowed, told when another one was used. -/
  allow : Option String := none
  body : String := ""
deriving DecidableEq, Repr, Inhabited

/-- What can be asked for. -/
inductive Page
  | metrics
  | liveness
  | readiness
deriving DecidableEq, Repr, Inhabited

namespace Page

/-- The page at a path. -/
def ofPath? (path : String) : Option Page :=
  if path = "/metrics" then some metrics
  else if path = "/healthz" then some liveness
  else if path = "/readyz" then some readiness
  else none

/-- A page of plain text. -/
def plain (status : Nat) (body : String) : Reply :=
  { status, contentType := some "text/plain; charset=utf-8", body }

/-- What a page shows.  The text of the metrics is given. -/
def show_ (ready : Bool) (counted : String) : Page → Reply
  | metrics => { status := 200, contentType := some "text/plain; version=0.0.4", body := counted }
  | liveness => plain 200 "ok"
  | readiness => if ready then plain 200 "ready" else plain 503 "not ready"

end Page

/-- The path of a target: what stands before the query. -/
def pathOf (target : String) : String :=
  String.ofList (target.toList.takeWhile fun c => c ≠ '?' && c ≠ '#')

/-- The answer to a request.  A request for the head of a page is answered without its body. -/
def reply (ready : Bool) (counted method target : String) : Reply :=
  match Page.ofPath? (pathOf target) with
  | none => { status := 404 }
  | some page =>
    if method = "GET" then page.show_ ready counted
    else if method = "HEAD" then { page.show_ ready counted with body := "" }
    else { status := 405, allow := some "GET,HEAD" }

/-- The text of the metrics, as far as it declares them. -/
def declarations : String :=
  String.intercalate "\n" Metric.declarations

theorem reply_of_unknown {target : String} (h : Page.ofPath? (pathOf target) = none)
    (ready : Bool) (counted method : String) :
    reply ready counted method target = { status := 404 } := by
  simp [reply, h]

/-- Being ready is told by the status alone. -/
theorem status_readiness (ready : Bool) (counted : String) :
    (Page.readiness.show_ ready counted).status = if ready then 200 else 503 := by
  cases ready <;> rfl

end PipelineStacks.Probes
