import PipelineStacks.Text.Chars

/-!
# Errors of a watch

The cluster tells about changes through a watch.  When the watch reports an error, its text decides
how the error is classed, and the class how long the controller waits.
-/

namespace PipelineStacks

/-- The classes of errors of a watch. -/
inductive WatchError
  | unauthorized
  | expired
  | throttled
  | notFound
  | other
deriving DecidableEq, Repr, Inhabited

namespace WatchError

/-- The class of an error by its text; the first class that fits is taken. -/
def classify (text : String) : WatchError :=
  let mentions := fun part : String => Text.occursIn part.toList text.toList
  if mentions "401" || mentions "Unauthorized" then .unauthorized
  else if mentions "410" || mentions "too old resource version" || mentions "Gone" then .expired
  else if mentions "429" || mentions "TooManyRequests" then .throttled
  else if mentions "ObjectNotFound" || (mentions "404" && mentions "not found") then .notFound
  else .other

/-- Seconds to wait before the watch is started again. -/
def restartDelay : Nat := 5

/-- Seconds to wait after an error. -/
def delay : WatchError → Nat
  | .unauthorized => restartDelay
  | .throttled => restartDelay
  | .expired => 0
  | .notFound => 0
  | .other => 0

end WatchError

end PipelineStacks
