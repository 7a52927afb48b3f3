import PipelineStacks.Cluster.Metadata

/-!
# Cluster objects

An object of any kind: the type that it names itself by, its metadata, and the rest of its fields.
`Object.toJson` is the form in which an object is sent.
-/

namespace PipelineStacks

/-- How an object names its type. -/
structure TypeName where
  apiVersion : String
  kind : String
deriving DecidableEq, Repr, Inhabited

/-- An object of the cluster. -/
structure Object where
  typeName : Option TypeName := none
  metadata : Metadata := {}
  /-- All fields but the type and the metadata. -/
  rest : List (String × Json) := []
deriving Inhabited

namespace Object

/-- The type is read off two texts.  When it cannot be, the fields read in vain are lost; reading
stops at an API version that is no text. -/
def typeOf (fields : List (String × Json)) : Option TypeName × List (String × Json) :=
  let rest := Fields.erase "apiVersion" fields
  match Fields.get? "apiVersion" fields, Fields.get? "kind" fields with
  | some (.str apiVersion), some (.str kind) => (some ⟨apiVersion, kind⟩, Fields.erase "kind" rest)
  | some (.str _), _ => (none, Fields.erase "kind" rest)
  | none, _ => (none, Fields.erase "kind" rest)
  | some _, _ => (none, rest)

/-- Reads an object. -/
def ofJson? (v : Json) : Option Object := do
  let fields ← v.object?
  let metadata ← match Fields.get? "metadata" fields with
    | some m => Metadata.ofJson? m
    | none => some {}
  let (typeName, rest) := typeOf (Fields.erase "metadata" fields)
  return { typeName, metadata, rest }

/-- An object as a value. -/
def toJson (o : Object) : Json :=
  let own : List (String × Json) := match o.typeName with
    | some t => [("apiVersion", .str t.apiVersion), ("kind", .str t.kind)]
    | none => []
  .object (own ++ ("metadata", o.metadata.toJson) :: o.rest)

/-- The name, empty if there is none. -/
def nameText (o : Object) : String :=
  o.metadata.name.getD ""

end Object

end PipelineStacks
