import PipelineStacks.Json.Basic

/-!
# Merge patches

A merge patch is a value that changes another one: the fields of an object are merged one by one,
a null removes a field, and everything else replaces what was there.  Status updates and reconcile
requests are sent as such patches.
-/

namespace PipelineStacks.Json

mutual

/-- The target changed by a patch. -/
def mergePatch (patch : Json) (target : Json) : Json :=
  match patch with
  | .obj changes =>
    .obj (mergeFields changes (match target with | .obj fields => fields | _ => []))
  | other => other

/-- The fields of a target changed by the fields of a patch, in order. -/
def mergeFields (changes : List (String × Json)) (fields : List (String × Json)) :
    List (String × Json) :=
  match changes with
  | [] => fields
  | (name, .null) :: changes => mergeFields changes (Fields.erase name fields)
  | (name, change) :: changes =>
    let old := (Fields.get? name fields).getD .null
    mergeFields changes (Fields.set name (mergePatch change old) fields)

end

end PipelineStacks.Json
