import PipelineStacks.Stack.Resource
import PipelineStacks.Yaml.Printer

/-!
# The definition of the resource

What the cluster is told about stacks so that it keeps them: their names, and the schema that
values of them have to meet.  `Stack.definitionText` is the document to be installed.
-/

namespace PipelineStacks

/-! ## Schemas -/

/-- The schema of a type of values, as the value that describes it. -/
abbrev Schema := List (String × Json)

namespace Schema

/-- A schema as a value. -/
def toJson (s : Schema) : Json :=
  .object s

/-- Texts. -/
def text : Schema :=
  [("type", .str "string")]

/-- Truth values. -/
def flag : Schema :=
  [("type", .str "boolean")]

/-- Words of a choice. -/
def choice (words : List String) : Schema :=
  [("enum", .arr (words.map Json.str)), ("type", .str "string")]

/-- A schema whose values may be missing. -/
def nullable (s : Schema) : Schema :=
  ("nullable", .bool true) :: s

/-- Words of a choice that may be missing. -/
def optionalChoice (words : List String) : Schema :=
  [("enum", .arr (words.map Json.str ++ [.null])), ("nullable", .bool true),
    ("type", .str "string")]

/-- A schema with the value that stands in for a missing one. -/
def defaulting (s : Schema) (value : Json) : Schema :=
  ("default", value) :: s

/-- A schema with a remark. -/
def described (s : Schema) (remark : String) : Schema :=
  ("description", .str remark) :: s

/-- Lists of values of a schema, empty when missing. -/
def list (items : Schema) : Schema :=
  [("default", .arr []), ("items", items.toJson), ("type", .str "array")]

/-- Records with these fields, of which some are required. -/
def record (fields : List (String × Schema)) (required : List String) : Schema :=
  [("properties", .object (fields.map fun (name, s) => (name, s.toJson))),
    ("type", .str "object")] ++
  if required = [] then [] else [("required", .arr (required.map Json.str))]

/-- A text that is empty when missing. -/
def optionalText : Schema :=
  text.defaulting (.str "")

/-- A truth value that is false when missing. -/
def optionalFlag : Schema :=
  flag.defaulting (.bool false)

end Schema

/-! ## Schemas of stacks -/

open Schema (text nullable record list choice optionalChoice optionalText optionalFlag)

/-- The fields of release coordinates. -/
def GitRelease.schemaFields : List (String × Schema) :=
  [("hostname", optionalText), ("organization", optionalText), ("project", optionalText),
    ("release", optionalText), ("assetName", optionalText)]

/-- The schema of release coordinates. -/
def GitRelease.schema : Schema :=
  (record schemaFields []).described
    "Coordinates of a release asset on a GitHub (or GitHub Enterprise) host"

/-- The schema of web addresses with their options. -/
def HttpsSource.schema : Schema :=
  record [("url", optionalText), ("skipCertVerification", optionalFlag)] []

/-- The schema of release coordinates with their options. -/
def GitReleaseSource.schema : Schema :=
  (record (GitRelease.schemaFields ++ [("skipCertVerification", optionalFlag)]) []).described
    "Git release coordinates plus transport options"

/-- The schema of pipelines of a version. -/
def PipelineSpec.schema : Schema :=
  (record [
    ("id", text.described "Pipeline id, used as the pipeline name in status"),
    ("sha256", text.described "Hex SHA-256 of the archive"),
    ("https", HttpsSource.schema.nullable),
    ("gitRelease", GitReleaseSource.schema.nullable)] ["id", "sha256"]).described
    "A pipeline archive referenced by a stack version"

/-- The words for desired states. -/
def DesiredState.words : List String :=
  [active.text, inactive.text]

/-- The schema of versions of a stack. -/
def VersionSpec.schema : Schema :=
  (record [
    ("version", text),
    ("desiredState",
      ((choice DesiredState.words).described
        "Whether this version's pipelines should be present in the cluster").defaulting
        (.str DesiredState.active.text)),
    ("pipelines", list PipelineSpec.schema)] ["version"]).described "One version of a stack"

/-- An example for those who install the definition. -/
def StackSpec.example_ : String :=
  String.intercalate "\n" [
    "Stack Custom Resource Definition",
    "",
    "# Example",
    "",
    "```yaml",
    "apiVersion: kabanero.io/v1alpha2",
    "kind: Stack",
    "metadata:",
    "  name: java-microprofile",
    "  namespace: kabanero",
    "spec:",
    "  name: java-microprofile",
    "  versions:",
    "    - version: 0.2.19",
    "      desiredState: active",
    "      pipelines:",
    "        - id: default",
    "          sha256: 8080cc3a...",
    "          https:",
    "            url: https://github.com/kabanero-io/pipelines/releases/download/0.6.0/" ++
      "default-kabanero-pipelines.tar.gz",
    "```"]

/-- The schema of what a stack asks for. -/
def StackSpec.schema : Schema :=
  (record [
    ("name",
      (text.described "Stack name, exposed to pipeline templates as `StackName`").defaulting
        (.str "")),
    ("versions", list VersionSpec.schema)] []).described StackSpec.example_

/-- The words for states of assets. -/
def AssetState.words : List String :=
  [active.text, failed.text, unknown.text]

/-- The schema of records of assets. -/
def AssetStatus.schema : Schema :=
  (record [
    ("name", text), ("namespace", optionalText), ("group", optionalText),
    ("version", optionalText), ("kind", optionalText), ("digest", optionalText),
    ("status",
      ((choice AssetState.words).described "State of an individual asset").defaulting
        (.str AssetState.unknown.text)),
    ("statusMessage", text.nullable)] ["name"]).described
    "Persisted status of one cluster object created from a pipeline archive"

/-- The schema of records of pipelines. -/
def PipelineStatus.schema : Schema :=
  record [
    ("name", text), ("url", text.nullable), ("gitRelease", GitRelease.schema.nullable),
    ("digest", optionalText), ("activeAssets", list AssetStatus.schema)] ["name"]

/-- The schema of records of versions. -/
def VersionStatus.schema : Schema :=
  record [
    ("version", text), ("location", text.nullable), ("pipelines", list PipelineStatus.schema),
    ("status",
      (optionalChoice DesiredState.words).described
        "Desired (and reported) state of a stack version"),
    ("statusMessage", text.nullable)] ["version"]

/-- The schema of what is recorded about a stack. -/
def StackStatus.schema : Schema :=
  (record [
    ("versions", list VersionStatus.schema),
    ("summary", text.nullable.described
      "Short human-readable summary, e.g. \"2 active versions, 0 failed assets\"")] []).described
    "Status of the Stack resource"

namespace Stack

/-- The schema of stacks. -/
def schema : Schema :=
  ("title", .str resourceKind.name) ::
    (record [("spec", StackSpec.schema), ("status", StackStatus.schema.nullable)]
      ["spec"]).described
      "Auto-generated derived type for StackSpec via `CustomResource`"

/-- The column that is shown when stacks are listed. -/
def summaryColumn : Json :=
  .object [("jsonPath", .str ".status.summary"), ("name", .str "Summary"),
    ("type", .str "string")]

/-- The names of the resource. -/
def names : Json :=
  .object [
    ("categories", .arr []), ("kind", .str resourceKind.name),
    ("plural", .str resourceKind.collection), ("shortNames", .arr [.str "stk"]),
    ("singular", .str (String.ofList (Text.lowerAscii resourceKind.name.toList)))]

/-- The only version of the resource. -/
def versionDefinition : Json :=
  .object [
    ("additionalPrinterColumns", .arr [summaryColumn]), ("name", .str resourceKind.version),
    ("schema", .object [("openAPIV3Schema", schema.toJson)]), ("served", .bool true),
    ("storage", .bool true), ("subresources", .object [("status", .obj [])])]

/-- The definition of the resource. -/
def definition : Json :=
  .object [
    ("apiVersion", .str "apiextensions.k8s.io/v1"), ("kind", .str "CustomResourceDefinition"),
    ("metadata", .object [("name", .str (resourceKind.collection ++ "." ++ resourceKind.group))]),
    ("spec", .object [
      ("group", .str resourceKind.group), ("names", names), ("scope", .str "Namespaced"),
      ("versions", .arr [versionDefinition])])]

/-- The definition as a document. -/
def definitionText : String :=
  Yaml.Printer.document definition

end Stack

end PipelineStacks
