import PipelineStacks.Cluster.Store
import PipelineStacks.Effect
import PipelineStacks.Reconcile.Record
import PipelineStacks.Transport.Download

/-!
# How effects are carried out

The effects of a pass come down to requests to the cluster, downloads, and counting.
-/

namespace PipelineStacks

/-- What the controller asks of the outside world. -/
inductive Outside
  | request (request : Api.Request)
  | download (question : Download.Question)
  | count (metric : Metric)

namespace Outside

/-- The answer to a question. -/
def Answer : Outside → Type
  | request _ => Except Failure Api.Response
  | download question => question.Answer
  | count _ => Unit

/-- The requests of a call. -/
def ofCall {α : Type} (c : Api.Call α) : Program Answer α :=
  c.expand fun r => Program.question (Outside.request r)

/-- The questions of a download; an answer that stands for a cached body is counted. -/
def ofTask {α : Type} (t : Download.Task α) : Program Answer α :=
  t.expand fun
    | .countHit => Program.question (Outside.count .archiveCacheHits)
    | q => Program.question (Outside.download q)

end Outside

/-- How an effect is carried out. -/
def Effect.carryOut (token : Option String) : (e : Effect) → Program Outside.Answer e.Answer
  | .get kind inNamespace name => Outside.ofCall (Store.get kind inNamespace name)
  | .create kind inNamespace object => Outside.ofCall (Store.create kind inNamespace object)
  | .update kind inNamespace object => Outside.ofCall (Store.update kind inNamespace object)
  | .delete kind inNamespace name => Outside.ofCall (Store.delete kind inNamespace name)
  | .fetch source skip => Outside.ofTask (Download.fetchSource token source skip)
  | .record inNamespace name status => Outside.ofCall (Stack.writeStatus inNamespace name status)
  | .count metric => Program.question (Outside.count metric)

/-- How a pass is carried out. -/
def Pass.carryOut {α : Type} (token : Option String) (p : Pass α) : Program Outside.Answer α :=
  p.expand (Effect.carryOut token)

end PipelineStacks
