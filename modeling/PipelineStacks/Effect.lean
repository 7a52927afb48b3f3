import PipelineStacks.Cluster.Kind
import PipelineStacks.Cluster.Object
import PipelineStacks.Failure
import PipelineStacks.Metrics
import PipelineStacks.Pipeline.Source
import PipelineStacks.Program
import PipelineStacks.Stack.Status
import PipelineStacks.Text.Utf8

/-!
# The effects of a pass

What a pass over a stack asks of the outside world: objects of the cluster are looked up, created,
replaced and deleted, archives are fetched, the status of a stack is written, and metrics are
counted.  Every request but the last may fail.
-/

namespace PipelineStacks

/-- A request to the outside world. -/
inductive Effect
  | get (kind : Kind) (inNamespace name : String)
  | create (kind : Kind) (inNamespace : String) (object : Object)
  | update (kind : Kind) (inNamespace : String) (object : Object)
  | delete (kind : Kind) (inNamespace name : String)
  | fetch (source : Source) (skipCertVerification : Bool)
  /-- Writes the status of a stack. -/
  | record (inNamespace name : String) (status : StackStatus)
  | count (metric : Metric)

namespace Effect

/-- The answer to a request.  An object that does not exist is looked up without failure, and to
delete it is no failure either. -/
def Answer : Effect → Type
  | get .. => Except Failure (Option Object)
  | create .. | update .. | delete .. => Except Failure Unit
  | fetch .. => Except Failure Bytes
  | record .. => Except Failure Unit
  | count _ => Unit

end Effect

/-- A computation that asks for effects. -/
abbrev Pass (α : Type) : Type := Program Effect.Answer α

namespace Pass

/-- Looks an object up. -/
def get (kind : Kind) (inNamespace name : String) : Pass (Except Failure (Option Object)) :=
  Program.question (Effect.get kind inNamespace name)

/-- Creates an object. -/
def create (kind : Kind) (inNamespace : String) (object : Object) : Pass (Except Failure Unit) :=
  Program.question (Effect.create kind inNamespace object)

/-- Replaces an object. -/
def update (kind : Kind) (inNamespace : String) (object : Object) : Pass (Except Failure Unit) :=
  Program.question (Effect.update kind inNamespace object)

/-- Deletes an object. -/
def delete (kind : Kind) (inNamespace name : String) : Pass (Except Failure Unit) :=
  Program.question (Effect.delete kind inNamespace name)

/-- Fetches an archive. -/
def fetch (source : Source) (skipCertVerification : Bool) : Pass (Except Failure Bytes) :=
  Program.question (Effect.fetch source skipCertVerification)

/-- Writes the status of a stack. -/
def record (inNamespace name : String) (status : StackStatus) : Pass (Except Failure Unit) :=
  Program.question (Effect.record inNamespace name status)

/-- Counts a metric. -/
def count (metric : Metric) : Pass Unit :=
  Program.question (Effect.count metric)

end Pass

end PipelineStacks
