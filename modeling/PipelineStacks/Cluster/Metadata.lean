import PipelineStacks.Cluster.Timestamp
import PipelineStacks.Json.Record
import PipelineStacks.SortedMap
import PipelineStacks.WordSize

/-!
# Metadata of cluster objects

The typed part that every object of the cluster has.  Reading drops unknown fields and fields
without a value, and refuses a value of the wrong type.
-/

namespace PipelineStacks

/-- A reference to an object that owns another one of the same namespace. -/
structure OwnerReference where
  apiVersion : String
  kind : String
  name : String
  uid : String
  controller : Option Bool := none
  blockOwnerDeletion : Option Bool := none
deriving DecidableEq, Repr, Inhabited

/-- Which fields of an object a manager of the cluster has set. -/
structure ManagedFields where
  apiVersion : Option String := none
  fieldsType : Option String := none
  fieldsV1 : Option Json := none
  manager : Option String := none
  operation : Option String := none
  subresource : Option String := none
  time : Option Timestamp := none
deriving Repr, Inhabited

/-- The metadata of an object. -/
structure Metadata where
  annotations : Option (SortedMap String String) := none
  creationTimestamp : Option Timestamp := none
  deletionGracePeriodSeconds : Option Int := none
  deletionTimestamp : Option Timestamp := none
  finalizers : Option (List String) := none
  generateName : Option String := none
  generation : Option Int := none
  labels : Option (SortedMap String String) := none
  managedFields : Option (List ManagedFields) := none
  name : Option String := none
  namespaceName : Option String := none
  ownerReferences : Option (List OwnerReference) := none
  resourceVersion : Option String := none
  selfLink : Option String := none
  uid : Option String := none
deriving Inhabited

/-! ## Reading -/

namespace Json

/-- A whole number of 64 bits with a sign. -/
def int64? (v : Json) : Option Int :=
  v.int?.bind fun i => if -(wordSize 63 : Int) ≤ i ∧ i < wordSize 63 then some i else none

/-- A point in time. -/
def timestamp? (v : Json) : Option Timestamp :=
  v.string?.bind Timestamp.parse?

/-- A map from texts to texts. -/
def stringMap? (v : Json) : Option (SortedMap String String) := do
  let fields ← v.object?
  let entries ← fields.mapM fun (name, v) => v.string?.map fun s => (name, s)
  return SortedMap.ofList entries

/-- A list of texts. -/
def strings? (v : Json) : Option (List String) :=
  list? string? v

end Json

open Json (optional int64? timestamp? stringMap? strings?)

/-- Reads an owner reference; absent texts are empty. -/
def OwnerReference.ofJson? (v : Json) : Option OwnerReference := do
  let fields ← v.object?
  let text := fun name => optional Json.string? (Fields.get? name fields)
  let flag := fun name => optional Json.bool? (Fields.get? name fields)
  return {
    apiVersion := (← text "apiVersion").getD ""
    kind := (← text "kind").getD ""
    name := (← text "name").getD ""
    uid := (← text "uid").getD ""
    controller := ← flag "controller"
    blockOwnerDeletion := ← flag "blockOwnerDeletion" }

/-- Reads the fields set by a manager. -/
def ManagedFields.ofJson? (v : Json) : Option ManagedFields := do
  let fields ← v.object?
  let text := fun name => optional Json.string? (Fields.get? name fields)
  return {
    apiVersion := ← text "apiVersion"
    fieldsType := ← text "fieldsType"
    fieldsV1 := ← optional some (Fields.get? "fieldsV1" fields)
    manager := ← text "manager"
    operation := ← text "operation"
    subresource := ← text "subresource"
    time := ← optional timestamp? (Fields.get? "time" fields) }

/-- Reads the metadata of an object. -/
def Metadata.ofJson? (v : Json) : Option Metadata := do
  let fields ← v.object?
  let text := fun name => optional Json.string? (Fields.get? name fields)
  let time := fun name => optional timestamp? (Fields.get? name fields)
  let number := fun name => optional int64? (Fields.get? name fields)
  return {
    annotations := ← optional stringMap? (Fields.get? "annotations" fields)
    creationTimestamp := ← time "creationTimestamp"
    deletionGracePeriodSeconds := ← number "deletionGracePeriodSeconds"
    deletionTimestamp := ← time "deletionTimestamp"
    finalizers := ← optional strings? (Fields.get? "finalizers" fields)
    generateName := ← text "generateName"
    generation := ← number "generation"
    labels := ← optional stringMap? (Fields.get? "labels" fields)
    managedFields :=
      ← optional (Json.list? ManagedFields.ofJson?) (Fields.get? "managedFields" fields)
    name := ← text "name"
    namespaceName := ← text "namespace"
    ownerReferences :=
      ← optional (Json.list? OwnerReference.ofJson?) (Fields.get? "ownerReferences" fields)
    resourceVersion := ← text "resourceVersion"
    selfLink := ← text "selfLink"
    uid := ← text "uid" }

/-! ## Writing -/

namespace Json

/-- A map from texts to texts as a value. -/
def ofStringMap (m : SortedMap String String) : Json :=
  .obj (m.entries.map fun (name, s) => (name, .str s))

/-- A point in time as a value. -/
def ofTimestamp (t : Timestamp) : Json :=
  .str t.text

end Json

open Json (fieldOf ofStringMap ofTimestamp)

/-- An owner reference as a value. -/
def OwnerReference.toJson (r : OwnerReference) : Json :=
  .obj (
    [("apiVersion", .str r.apiVersion)] ++
    fieldOf "blockOwnerDeletion" Json.bool r.blockOwnerDeletion ++
    fieldOf "controller" Json.bool r.controller ++
    [("kind", .str r.kind), ("name", .str r.name), ("uid", .str r.uid)])

/-- The fields set by a manager as a value. -/
def ManagedFields.toJson (m : ManagedFields) : Json :=
  .obj (
    fieldOf "apiVersion" Json.str m.apiVersion ++
    fieldOf "fieldsType" Json.str m.fieldsType ++
    fieldOf "fieldsV1" id m.fieldsV1 ++
    fieldOf "manager" Json.str m.manager ++
    fieldOf "operation" Json.str m.operation ++
    fieldOf "subresource" Json.str m.subresource ++
    fieldOf "time" ofTimestamp m.time)

/-- The metadata of an object as a value. -/
def Metadata.toJson (m : Metadata) : Json :=
  .obj (
    fieldOf "annotations" ofStringMap m.annotations ++
    fieldOf "creationTimestamp" ofTimestamp m.creationTimestamp ++
    fieldOf "deletionGracePeriodSeconds" Json.int m.deletionGracePeriodSeconds ++
    fieldOf "deletionTimestamp" ofTimestamp m.deletionTimestamp ++
    fieldOf "finalizers" (fun names => Json.arr (names.map .str)) m.finalizers ++
    fieldOf "generateName" Json.str m.generateName ++
    fieldOf "generation" Json.int m.generation ++
    fieldOf "labels" ofStringMap m.labels ++
    fieldOf "managedFields" (fun entries => Json.arr (entries.map ManagedFields.toJson))
      m.managedFields ++
    fieldOf "name" Json.str m.name ++
    fieldOf "namespace" Json.str m.namespaceName ++
    fieldOf "ownerReferences" (fun refs => Json.arr (refs.map OwnerReference.toJson))
      m.ownerReferences ++
    fieldOf "resourceVersion" Json.str m.resourceVersion ++
    fieldOf "selfLink" Json.str m.selfLink ++
    fieldOf "uid" Json.str m.uid)

end PipelineStacks
