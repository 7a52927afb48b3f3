import PipelineStacks.Effect
import PipelineStacks.Pipeline.Asset
import PipelineStacks.Pipeline.Ownership

/-!
# Upkeep of single assets

What a pass does with one asset: it creates the object, records its owner on an object that exists,
or gives the object up.  An object that is given up is deleted when nobody else owns it.
-/

namespace PipelineStacks

/-- The object that an asset is created as. -/
def Asset.prepared (a : Asset) (inNamespace : String) (owner : Owner) : Object :=
  let placed : Object := { a.object with
    metadata := { a.object.metadata with
      namespaceName := some inNamespace
      resourceVersion := none
      uid := none } }
  (owner.mark inNamespace placed).2

/-- Creates the object of an asset with its owner recorded on it. -/
def createAsset (a : Asset) (inNamespace : String) (owner : Owner) : Pass (Except Failure Unit) :=
  Pass.create a.kind inNamespace (a.prepared inNamespace owner)

/-- Records the owner on an object that exists, and tells whether that was to be done. -/
def adoptAsset (kind : Kind) (inNamespace : String) (object : Object) (owner : Owner) :
    Pass (Except Failure Bool) :=
  match owner.mark inNamespace object with
  | (false, _) => return .ok false
  | (true, object) => do
    match ← Pass.update kind inNamespace object with
    | .ok () => return .ok true
    | .error e => return .error e

/-- What became of an asset that was given up. -/
inductive DeleteOutcome
  /-- It was never seen in the cluster and is left alone. -/
  | skipped
  | alreadyGone
  | deleted
  /-- It has other owners; ours is no longer recorded. -/
  | disowned
  /-- It was never ours and is left alone. -/
  | notOwned
deriving DecidableEq, Repr, Inhabited

/-- The outcome means that a claim on the object was given up. -/
def DeleteOutcome.isRelease : DeleteOutcome → Bool
  | .deleted | .disowned => true
  | .skipped | .alreadyGone | .notOwned => false

/-- The namespace of the object behind a record. -/
def AssetStatus.place (a : AssetStatus) (target : String) : String :=
  if a.namespaceName = "" then target else a.namespaceName

/-- Gives up an object that was found: removes the owner from it, and the object itself if no owner
is left.  An object of the owner's namespace counts as owned even if no owner is recorded. -/
def releaseObject (kind : Kind) (inNamespace name : String) (owner : Owner) (object : Object) :
    Pass (Except Failure DeleteOutcome) :=
  if !owner.isMarked object && !owner.canOwn inNamespace then return .ok .notOwned
  else
    match owner.unmark object with
    | (changed, object) =>
      if object.ownerCount = 0 then do
        match ← Pass.delete kind inNamespace name with
        | .ok () => return .ok .deleted
        | .error e => return .error e
      else if changed then do
        match ← Pass.update kind inNamespace object with
        | .ok () => return .ok .disowned
        | .error e => return .error e
      else return .ok .disowned

/-- Gives up a recorded asset. -/
def deleteAsset (a : AssetStatus) (target : String) (owner : Owner) :
    Pass (Except Failure DeleteOutcome) :=
  if a.state ≠ .active then return .ok .skipped
  else do
    match ← Pass.get a.objectKind (a.place target) a.name with
    | .error e => return .error e
    | .ok none => return .ok .alreadyGone
    | .ok (some object) => releaseObject a.objectKind (a.place target) a.name owner object

end PipelineStacks
