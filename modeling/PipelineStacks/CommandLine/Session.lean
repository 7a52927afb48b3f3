import PipelineStacks.Cluster.Store
import PipelineStacks.CommandLine.Arguments
import PipelineStacks.CommandLine.Report
import PipelineStacks.Reconcile.Record

/-!
# Commands at work

A command prints lines, sends requests to the cluster and may look at the clock.  It ends well, or
with a failure that is shown with its causes.
-/

namespace PipelineStacks.CommandLine

/-- What a command does one after the other. -/
inductive Action
  | print (line : String)
  | send (request : Api.Request)
  /-- Looks at the clock: seconds since the start of 1970. -/
  | now

/-- What comes of an action. -/
def Action.Result : Action → Type
  | print _ => Unit
  | send _ => Except Failure Api.Response
  | now => Int

/-- A computation that acts. -/
abbrev Session (α : Type) : Type := Program Action.Result α

namespace Session

/-- Prints lines. -/
def print : List String → Session Unit
  | [] => return ()
  | line :: lines => do
    let () ← Program.question (Action.print line)
    print lines

/-- Sends the requests of a call. -/
def call {α : Type} (c : Api.Call α) : Session α :=
  c.expand fun request => Program.question (Action.send request)

end Session

/-! ## Reading lists -/

/-- Reads the list of stacks of an answer. -/
def stackList? (v : Json) : Option (List Stack) := do
  let fields ← v.object?
  let _ ← Json.defaulted () Store.listMetadata? (Fields.get? "metadata" fields)
  match ← Fields.get? "items" fields with
  | .null => return []
  | items => Json.list? Stack.ofJson? items

/-! ## Commands -/

/-- The namespace that is meant when none is given. -/
def defaultNamespace : String := "default"

/-- The annotation that is changed to make the controller look at a stack. -/
def triggerKey : String := "kabanero.io/reconcile"

/-- Lists the stacks of a namespace, or of all namespaces. -/
def listStacks (inNamespace : Option String) : Session (Except Failure Unit) := do
  match ← Session.call (Api.list (Stack.collection inNamespace) stackList?) with
  | .error e => return .error (e.during "Failed to list Stack resources")
  | .ok listed =>
    Session.print (table listed)
    return .ok ()

/-- Shows everything about a stack. -/
def showStack (inNamespace name : String) : Session (Except Failure Unit) := do
  match ← Session.call (Api.read (Stack.collection (some inNamespace)) name Stack.ofJson?) with
  | .error e =>
    return .error (e.during ("Failed to get Stack '" ++ inNamespace ++ "/" ++ name ++ "'"))
  | .ok stack =>
    Session.print (report inNamespace name stack)
    return .ok ()

/-- The change that makes the controller look at a stack. -/
def reconcilePatch (time : String) : Json :=
  .object [("metadata", .object [("annotations", .object [(triggerKey, .str time)])])]

/-- Makes the controller look at a stack. -/
def triggerReconcile (inNamespace name : String) : Session (Except Failure Unit) := do
  let place := inNamespace ++ "/" ++ name
  Session.print ["Triggering reconciliation for Stack '" ++ place ++ "'..."]
  let now : Int ← Program.question Action.now
  let time := toString now
  match ← Session.call
      (Api.merge (Stack.collection (some inNamespace)) name "?" (reconcilePatch time)
        Stack.ofJson?) with
  | .error e =>
    return .error (e.during ("Failed to trigger reconciliation for '" ++ place ++ "'"))
  | .ok _ =>
    Session.print ["Reconciliation triggered", "   Resource: " ++ place, "   Timestamp: " ++ time]
    return .ok ()

/-- Does what a user wants. -/
def Invocation.run (i : Invocation) : Session (Except Failure Unit) :=
  match i.command with
  | .list => listStacks i.namespaceName
  | .status name => showStack (i.namespaceName.getD defaultNamespace) name
  | .reconcile name => triggerReconcile (i.namespaceName.getD defaultNamespace) name

/-! ## Outcomes -/

/-- How the words of the command line are to be put. -/
def usage : String :=
  "usage: [-n NAMESPACE] (list | status --name NAME | reconcile --name NAME)"

/-- How a run ends. -/
inductive Outcome
  | done
  | help
  | misuse
  | failed (failure : Failure)
deriving DecidableEq, Repr, Inhabited

namespace Outcome

/-- The code that a run ends with. -/
def code : Outcome → Nat
  | done | help => 0
  | failed _ => 1
  | misuse => 2

/-- The causes of a failure behind the outermost; several are numbered. -/
def causeLines : List String → List String
  | [] => []
  | [cause] => ["", "Caused by:", "    " ++ cause]
  | causes =>
    ["", "Caused by:"] ++
      causes.zipIdx.map fun (cause, i) =>
        let number := toString i
        String.ofList (List.replicate (5 - number.length) ' ') ++ number ++ ": " ++ cause

/-- What is shown of a run that does not end well. -/
def report : Outcome → List String
  | done | help => []
  | misuse => [usage]
  | failed failure => ("Error: " ++ failure.outermost) :: causeLines failure.causes

end Outcome

/-- A whole run with the words of the command line. -/
def run (words : List String) : Session Outcome :=
  match parse words with
  | .error .help => do
    Session.print [usage]
    return .help
  | .error .misuse => return .misuse
  | .ok invocation => do
    match ← invocation.run with
    | .ok () => return .done
    | .error e => return .failed e

end PipelineStacks.CommandLine
