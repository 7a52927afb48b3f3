import PipelineStacks.Text.Blank
import PipelineStacks.Text.Quoted
import PipelineStacks.WordSize

/-!
# Settings

The controller is set up by variables of its environment.  Every setting has a default, which also
stands in for a number that cannot be read.  The text of the settings is shown at the start; it
never shows the token.
-/

namespace PipelineStacks

/-- The variables that are set. -/
abbrev Environment := String → Option String

namespace Environment

/-- A number without blanks, with or without a plus, below a bound. -/
def number? (bound : Nat) (s : String) : Option Nat :=
  let digits := match s.toList with
    | '+' :: cs => cs
    | cs => cs
  if digits.isEmpty || !digits.all Char.isDigit then none
  else
    let n := digits.foldl (fun n c => n * 10 + (c.toNat - 48)) 0
    if n < bound then some n else none

/-- The number that a variable gives, or the default. -/
def number (env : Environment) (name : String) (bound default : Nat) : Nat :=
  ((env name).bind (number? bound)).getD default

/-- The text that a variable gives, without blanks at its ends; an empty text is none. -/
def text? (env : Environment) (name : String) : Option String :=
  ((env name).map Text.trimmed).filter (· ≠ "")

end Environment

/-- Settings of reconciling and fetching. -/
structure ControllerSettings where
  /-- Seconds between two passes over a stack that did not fail. -/
  reconcileIntervalSecs : Nat := 300
  /-- Seconds after which a download is given up. -/
  httpTimeoutSecs : Nat := 60
  /-- Seconds without use after which a cached archive is dropped. -/
  cacheMaxAgeSecs : Nat := 12 * 60 * 60
  /-- Seconds between two looks at the cache for archives to be dropped. -/
  cachePurgeIntervalSecs : Nat := 30 * 60
  /-- The token for looking up releases. -/
  githubToken : Option String := none
  /-- The only namespace to be watched. -/
  watchNamespace : Option String := none
deriving DecidableEq, Repr, Inhabited

/-- Settings of the server for metrics and probes. -/
structure ServerSettings where
  metricsPort : Nat := 8080
  /-- Seconds to wait for the server at the start. -/
  startupTimeoutSecs : Nat := 10
  /-- Milliseconds between two looks at the server at the start. -/
  pollIntervalMs : Nat := 50
deriving DecidableEq, Repr, Inhabited

/-- An optional part of a shown text. -/
def shownOption (show_ : String → String) : Option String → String
  | some s => "Some(" ++ show_ s ++ ")"
  | none => "None"

/-- The fields of a record in one line. -/
def shownRecord (name : String) (fields : List (String × String)) : String :=
  name ++ " \x7b " ++ String.intercalate ", " (fields.map fun (k, v) => k ++ ": " ++ v) ++ " \x7d"

namespace ControllerSettings

/-- The settings of an environment. -/
def ofEnvironment (env : Environment) : ControllerSettings :=
  let default : ControllerSettings := {}
  {
    reconcileIntervalSecs :=
      env.number "RECONCILE_INTERVAL_SECS" (wordSize 64) default.reconcileIntervalSecs
    httpTimeoutSecs := env.number "HTTP_TIMEOUT_SECS" (wordSize 64) default.httpTimeoutSecs
    cacheMaxAgeSecs := env.number "ARCHIVE_CACHE_MAX_AGE_SECS" (wordSize 64) default.cacheMaxAgeSecs
    cachePurgeIntervalSecs :=
      env.number "ARCHIVE_CACHE_PURGE_INTERVAL_SECS" (wordSize 64) default.cachePurgeIntervalSecs
    githubToken := env.text? "GITHUB_TOKEN"
    watchNamespace := env.text? "WATCH_NAMESPACE" }

/-- The settings in one line, the token being hidden. -/
def text (s : ControllerSettings) : String :=
  shownRecord "ControllerConfig" [
    ("reconcile_interval_secs", toString s.reconcileIntervalSecs),
    ("http_timeout_secs", toString s.httpTimeoutSecs),
    ("cache_max_age_secs", toString s.cacheMaxAgeSecs),
    ("cache_purge_interval_secs", toString s.cachePurgeIntervalSecs),
    ("github_token", shownOption (fun _ => Text.quoted "<redacted>") s.githubToken),
    ("watch_namespace", shownOption Text.quoted s.watchNamespace)]

/-- The shown text does not depend on the token, but for there being one. -/
theorem text_eq_of_token (s : ControllerSettings) (a b : String) :
    text { s with githubToken := some a } = text { s with githubToken := some b } := rfl

end ControllerSettings

namespace ServerSettings

/-- The settings of an environment. -/
def ofEnvironment (env : Environment) : ServerSettings :=
  let default : ServerSettings := {}
  {
    metricsPort := env.number "METRICS_PORT" (wordSize 16) default.metricsPort
    startupTimeoutSecs :=
      env.number "SERVER_STARTUP_TIMEOUT_SECS" (wordSize 64) default.startupTimeoutSecs
    pollIntervalMs := env.number "SERVER_POLL_INTERVAL_MS" (wordSize 64) default.pollIntervalMs }

/-- The settings in one line. -/
def text (s : ServerSettings) : String :=
  shownRecord "ServerConfig" [
    ("metrics_port", toString s.metricsPort),
    ("startup_timeout_secs", toString s.startupTimeoutSecs),
    ("poll_interval_ms", toString s.pollIntervalMs)]

end ServerSettings

end PipelineStacks
