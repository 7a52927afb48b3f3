import PipelineStacks.Settings

/-!
# Starting up

The controller waits for its server of metrics and probes before it turns to the cluster.  It looks
at the server now and then, and gives up when the server has failed or takes too long.
-/

namespace PipelineStacks.Startup

/-- How far the server is. -/
inductive ServerState
  | starting
  | failed
  | ready
deriving DecidableEq, Repr, Inhabited

/-- A look at the server, with the nanoseconds since the first one was due. -/
structure Look where
  server : ServerState
  elapsed : Nat
deriving DecidableEq, Repr, Inhabited

/-- Why the controller does not start. -/
inductive Fault
  | serverFailed
  | serverLate (seconds : Nat)
deriving DecidableEq, Repr, Inhabited

/-- The wording of a fault. -/
def Fault.message : Fault → String
  | serverFailed => "HTTP server failed to start"
  | serverLate seconds =>
    "HTTP server failed to become ready within " ++ toString seconds ++ " seconds"

/-- What a look decides; none if it is to be looked again. -/
def decide? (settings : ServerSettings) (look : Look) : Option (Except Fault Unit) :=
  match look.server with
  | .failed => some (.error .serverFailed)
  | .ready => some (.ok ())
  | .starting =>
    if settings.startupTimeoutSecs * 1000000000 < look.elapsed then
      some (.error (.serverLate settings.startupTimeoutSecs))
    else none

/-- What a row of looks decides: the first one that decides anything. -/
def await (settings : ServerSettings) (looks : List Look) : Option (Except Fault Unit) :=
  looks.findSome? (decide? settings)

/-- A look beyond the timeout always decides. -/
theorem isSome_await {settings : ServerSettings} {looks : List Look} {look : Look}
    (hmem : look ∈ looks) (h : settings.startupTimeoutSecs * 1000000000 < look.elapsed) :
    (await settings looks).isSome := by
  unfold await
  rw [List.findSome?_isSome_iff]
  refine ⟨look, hmem, ?_⟩
  unfold decide?
  split
  · rfl
  · rfl
  · rw [if_pos h]
    rfl

end PipelineStacks.Startup
