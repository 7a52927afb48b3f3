import PipelineStacks.CommandLine.Session
import PipelineStacks.Gateway
import PipelineStacks.Stack.Definition

/-!
# The programs

`stackctl` is the command line of users, `stack-controller` the controller, and `crdgen` prints the
definition of the resource.  The first word tells which one is meant.

The gateway is reached through two files, of which the variables `GATEWAY_QUESTIONS` and
`GATEWAY_ANSWERS` give the names.  The controller is told events by lines on its standard input.
-/

namespace PipelineStacks.Main

/-- The two ends of the gateway. -/
structure Link where
  questions : IO.FS.Handle
  answers : IO.FS.Handle

/-- Opens the gateway, if there is one. -/
def open? : IO (Option Link) := do
  match ← IO.getEnv "GATEWAY_QUESTIONS", ← IO.getEnv "GATEWAY_ANSWERS" with
  | some questions, some answers =>
    return some ⟨← IO.FS.Handle.mk questions .write, ← IO.FS.Handle.mk answers .read⟩
  | _, _ => return none

/-- Asks the gateway. -/
def ask {α : Type} (link : Option Link) (subject : String) (question : Json)
    (read : Json → Option α) : IO (Except Failure α) := do
  match link with
  | none => return .error (.root "there is no gateway")
  | some link =>
    link.questions.putStrLn (Json.object [(subject, question)]).text
    link.questions.flush
    match Json.parse? (← link.answers.getLine).toList with
    | some v => return Gateway.answer read v
    | none => return .error Gateway.unreadable

/-- Acts for a command. -/
def act (link : Option Link) : (a : CommandLine.Action) → IO a.Result
  | .print line => IO.println line
  | .send request => ask link "api" (Gateway.ofRequest request) Gateway.response?
  | .now => do
    match ← ask link "now" .null Json.int? with
    | .ok seconds => return seconds
    | .error _ => return (((← IO.monoMsNow) / 1000 : Nat) : Int)

/-- Answers the controller. -/
def reply (link : Option Link) (state : IO.Ref Download.State) :
    (q : Outside) → IO q.Answer
  | .request request => ask link "api" (Gateway.ofRequest request) Gateway.response?
  | .count _ => return ()
  | .download (.send request) =>
    ask link "web" (Gateway.ofWebRequest request) Gateway.webAnswer?
  | .download question => do
    let now ← IO.monoMsNow
    let offline (_ : WebRequest) (_ : Unit) : Except Failure WebAnswer × Unit :=
      (.error (.root "offline"), ())
    let (answer, after, _) :=
      Download.world offline question ({ ← state.get with now }, ())
    state.set after
    return answer

/-- Drops the archives that were not used for long. -/
def purge (state : IO.Ref Download.State) (settings : ControllerSettings) : IO Unit := do
  let now ← IO.monoMsNow
  state.modify fun s =>
    { s with cache := (s.cache.purge now (settings.cacheMaxAgeSecs * 1000)).2 }

/-- Handles events until the input ends. -/
partial def watch (link : Option Link) (state : IO.Ref Download.State) (c : Controller) :
    IO Unit := do
  let line ← (← IO.getStdin).getLine
  if line.isEmpty then return ()
  purge state c.settings
  match (Json.parse? line.toList).bind Gateway.event? with
  | none =>
    IO.eprintln "the event cannot be read"
    watch link state c
  | some event =>
    let (seconds, c) ←
      ((c.handle event).carryOut c.settings.githubToken).interpret (reply link state)
    IO.println (toString seconds)
    watch link state c

/-- The variables of the environment that the settings look at. -/
def environment : IO Environment := do
  let names := ["RECONCILE_INTERVAL_SECS", "HTTP_TIMEOUT_SECS", "ARCHIVE_CACHE_MAX_AGE_SECS",
    "ARCHIVE_CACHE_PURGE_INTERVAL_SECS", "GITHUB_TOKEN", "WATCH_NAMESPACE", "METRICS_PORT",
    "SERVER_STARTUP_TIMEOUT_SECS", "SERVER_POLL_INTERVAL_MS"]
  let values ← names.mapM fun name => return (name, ← IO.getEnv name)
  return fun name => (values.lookup name).bind id

end PipelineStacks.Main

open PipelineStacks in
/-- Runs the program that the first word names. -/
def main (words : List String) : IO UInt32 := do
  match words with
  | ["crdgen"] =>
    IO.print Stack.definitionText
    return 0
  | "stackctl" :: words =>
    let outcome ← (CommandLine.run words).interpret (Main.act (← Main.open?))
    outcome.report.forM IO.eprintln
    return outcome.code.toUInt32
  | "stack-controller" :: _ =>
    let settings := ControllerSettings.ofEnvironment (← Main.environment)
    Main.watch (← Main.open?) (← IO.mkRef {}) { settings }
    return 0
  | _ =>
    IO.eprintln "usage: (stackctl | stack-controller | crdgen) ..."
    return 2
