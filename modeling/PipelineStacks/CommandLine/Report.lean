import PipelineStacks.Stack.Resource

/-!
# Reports

What users are shown of stacks: a table of all of them, or everything about one.
-/

namespace PipelineStacks.CommandLine

/-- The text filled with blanks up to a width; a longer text is left alone. -/
def padded (width : Nat) (s : String) : String :=
  s ++ String.ofList (List.replicate (width - s.length) ' ')

theorem length_padded (width : Nat) (s : String) :
    (padded width s).length = max width s.length := by
  simp [padded]
  omega

/-- A row of the table. -/
def row (name inNamespace versions summary : String) : String :=
  padded 30 name ++ " " ++ padded 20 inNamespace ++ " " ++ padded 10 versions ++ " " ++ summary

/-- The row of a stack. -/
def stackRow (s : Stack) : String :=
  row s.name (s.metadata.namespaceName.getD "") (toString s.spec.versions.length)
    (((s.status.bind (·.summary))).getD "-")

/-- The table of some stacks. -/
def table (listed : List Stack) : List String :=
  if listed.isEmpty then ["No Stack resources found."]
  else
    [row "NAME" "NAMESPACE" "VERSIONS" "SUMMARY", String.ofList (List.replicate 90 '-')] ++
      listed.map stackRow

/-- The mark of a state. -/
def stateMark : AssetState → String
  | .active => "ok"
  | .failed => "FAILED"
  | .unknown => "?"

/-- What is recorded of an asset. -/
def assetLines (a : AssetStatus) : List String :=
  ("      [" ++ stateMark a.state ++ "] " ++ a.namespaceName ++ "/" ++ a.name ++ " " ++ a.group ++
    "/" ++ a.kind) :: a.message.toList.map ("          " ++ ·)

/-- What is recorded of a pipeline. -/
def pipelineLines (p : PipelineStatus) : List String :=
  ("    pipeline " ++ p.name ++ " digest " ++ p.digest) :: p.activeAssets.flatMap assetLines

/-- What is recorded of a version. -/
def versionLines (v : VersionStatus) : List String :=
  ("  " ++ v.version ++ " [" ++ ((v.state.map DesiredState.text).getD "-") ++ "]") ::
    (v.message.toList.map ("    " ++ ·) ++ v.pipelines.flatMap pipelineLines)

/-- What is asked for of a version. -/
def specLine (v : VersionSpec) : String :=
  "  spec " ++ v.version ++ " [" ++ v.desiredState.text ++ "]: " ++ toString v.pipelines.length ++
    " pipelines"

/-- What is recorded of a stack. -/
def statusLines : Option StackStatus → List String
  | none => ["", "Status: No status available (resource may not have been reconciled yet)"]
  | some status =>
    ["", "Status: " ++ status.summary.getD "-"] ++ status.versions.flatMap versionLines

/-- Everything about a stack that was found in a namespace under a name. -/
def report (inNamespace name : String) (s : Stack) : List String :=
  ("Stack " ++ inNamespace ++ "/" ++ name ++ " (" ++ s.spec.name ++ ")") ::
    (s.spec.versions.map specLine ++ statusLines s.status)

end PipelineStacks.CommandLine
