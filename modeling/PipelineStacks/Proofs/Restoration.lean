import PipelineStacks.Proofs.ArchiveIntegrity
import PipelineStacks.Proofs.ReleasedObject
import PipelineStacks.Proofs.Settling

/-!
# Whether giving an asset up undoes its creation

A manifest may name owners of its own, by references and in the annotation, and the object that is
created has them beside the stack.  An object is deleted only when nobody owns it any more.  So an
asset that is created under a free key and given up again leaves the store as it was exactly if its
manifest names no other owner (`release_undoes_creation_iff`); if it names some, the object stays
with these owners.
-/

namespace PipelineStacks

open Surroundings

/-! ## Owners that come and go -/

namespace Object

/-- A new reference is the only one that its owner comes to have. -/
lemma filter_references_addReference (o : Object) (r : OwnerReference) :
    (o.addReference r).2.references.filter (fun r' => r'.uid ≠ r.uid) =
      o.references.filter fun r' => r'.uid ≠ r.uid := by
  unfold addReference
  split
  · rfl
  · simp

/-- An owner that is added to the annotation is the only one that is new there. -/
lemma filter_annotatedOwners_addAnnotatedOwner (o : Object) {uid : String} (h : Listable uid) :
    (o.addAnnotatedOwner uid).2.annotatedOwners.filter (· ≠ uid) =
      o.annotatedOwners.filter (· ≠ uid) := by
  unfold addAnnotatedOwner
  split
  · rfl
  · have hall : ∀ u ∈ o.annotatedOwners ++ [uid], Listable u := by
      intro u hu
      rcases List.mem_append.mp hu with hu | hu
      · exact listable_of_mem_annotatedOwners hu
      · exact List.mem_singleton.mp hu ▸ h
    rw [annotatedOwners_setAnnotatedOwners o hall, List.filter_append]
    simp

end Object

/-- An owner that comes and goes leaves both places as they were without it. -/
lemma Owner.layers_unmark_mark (w : Owner) (hw : Listable w.uid) (ns : String) (o : Object) :
    (w.unmark (w.mark ns o).2).2.references = o.references.filter (fun r => r.uid ≠ w.uid) ∧
      (w.unmark (w.mark ns o).2).2.annotatedOwners = o.annotatedOwners.filter (· ≠ w.uid) := by
  obtain ⟨hreferences, hannotated⟩ := w.unmark_layers (w.mark ns o).2
  rw [hreferences, hannotated]
  unfold mark
  split
  · rw [Object.annotatedOwners_addReference]
    exact ⟨o.filter_references_addReference w.reference, rfl⟩
  · rw [Object.references_addAnnotatedOwner]
    exact ⟨rfl, o.filter_annotatedOwners_addAnnotatedOwner hw⟩

namespace Asset

/-- The object of an asset as it is placed in a namespace, before its owner is recorded. -/
def placed (a : Asset) (inNamespace : String) : Object :=
  { a.object with
    metadata := { a.object.metadata with
      namespaceName := some inNamespace
      resourceVersion := none
      uid := none } }

variable {a : Asset} {w : Owner} {ns : String}

/-- An asset is created as the placed object with its owner on it. -/
lemma prepared_eq : a.prepared ns w = (w.mark ns (a.placed ns)).2 := rfl

/-- The owners of the object that is created are its creator and those of the manifest. -/
lemma mem_owners_prepared (hw : Listable w.uid) {uid : String} :
    uid ∈ (a.prepared ns w).owners ↔ uid = w.uid ∨ uid ∈ a.object.owners := by
  rw [prepared_eq]
  exact w.mem_owners_mark ns (a.placed ns) hw

variable (a ns) in
/-- Its creator is alone on it exactly if the manifest names nobody else. -/
lemma soleOn_prepared_iff (hw : Listable w.uid) :
    w.SoleOn ns (a.prepared ns w) ↔ ∀ uid ∈ a.object.owners, uid = w.uid := by
  have hmarked : w.isMarked (a.prepared ns w) = true :=
    (w.isMarked_iff _).mpr ((mem_owners_prepared hw).mpr (Or.inl rfl))
  rw [Owner.soleOn_iff_alone (Or.inr hmarked)]
  constructor
  · intro halone uid huid
    exact halone uid ((mem_owners_prepared hw).mpr (Or.inr huid))
  · intro hmanifest uid huid
    rcases (mem_owners_prepared hw).mp huid with hown | hpreset
    · exact hown
    · exact hmanifest uid hpreset

end Asset

/-! ## Creation and release -/

/-- The record is that of the asset, seen in the cluster in a namespace. -/
structure AssetStatus.Confirms (x : AssetStatus) (a : Asset) (target inNamespace : String) :
    Prop where
  active : x.state = .active
  objectKind : x.objectKind = a.kind
  name : x.name = a.name
  place : x.place target = inNamespace

/-- Creates an asset and gives it up by its record. -/
def createAndRelease (a : Asset) (x : AssetStatus) (inNamespace target : String) (w : Owner) :
    Pass (Except Failure Unit × Except Failure DeleteOutcome) := do
  let created ← createAsset a inNamespace w
  let released ← deleteAsset x target w
  return (created, released)

section Round

variable {τ : Type} {c : Surroundings τ} (hc : c.StoreFaultless) {a : Asset} {x : AssetStatus}
  {ns target : String} {objects : Objects} {w : Owner}

include hc in
/-- Under a free key both requests succeed, and the owner is withdrawn from the object that was
created. -/
lemma yields_createAndRelease (hname : a.name = a.object.nameText) (hx : x.Confirms a target ns)
    (hfree : objects ⟨a.kind, ns, a.name⟩ = none) (w : Owner) :
    ∃ outcome, c.Yields (createAndRelease a x ns target w) objects (.ok (), .ok outcome)
      (objects.set ⟨a.kind, ns, a.name⟩ (w.leave ns (a.prepared ns w))) := by
  have hcreated : (⟨a.kind, ns, (a.prepared ns w).nameText⟩ : ObjectKey) =
      ⟨a.kind, ns, a.name⟩ := by
    rw [a.nameText_prepared, hname]
  have hkey : x.keyAt target = ⟨a.kind, ns, a.name⟩ := by
    rw [AssetStatus.keyAt, hx.objectKind, hx.place, hx.name]
  have hcreate : c.Yields (createAsset a ns w) objects (.ok ())
      (objects.set ⟨a.kind, ns, a.name⟩ (some (a.prepared ns w))) := by
    rw [← hcreated] at hfree ⊢
    exact yields_create_free hc hfree
  have hthere : objects.set ⟨a.kind, ns, a.name⟩ (some (a.prepared ns w)) (x.keyAt target) =
      some (a.prepared ns w) := by
    rw [hkey, Objects.set_same]
  obtain ⟨outcome, hrelease⟩ := Activation.yields_deleteAsset_of_active hc hx.active target
    (fun o ho => by
      obtain rfl := Option.some.inj (hthere.symm.trans ho)
      rw [a.nameText_prepared, hx.name, hname]) w
  rw [Owner.withdraw_of_some hthere, hkey, Objects.set_set] at hrelease
  exact ⟨outcome, hcreate.bind (hrelease.bind (yields_done _))⟩

/-- What is left of the object that was created has the owners of the manifest but for its creator,
and is else the placed object. -/
lemma Asset.eq_of_leave_prepared (hw : Listable w.uid) {o' : Object}
    (ho' : w.leave ns (a.prepared ns w) = some o') :
    o'.references = a.object.references.filter (fun r => r.uid ≠ w.uid) ∧
      o'.annotatedOwners = a.object.annotatedOwners.filter (· ≠ w.uid) ∧
        (a.placed ns).SameButOwners o' := by
  unfold Owner.leave at ho'
  split at ho'
  · cases ho'
  · obtain rfl := Option.some.inj ho'
    obtain ⟨hreferences, hannotated⟩ := w.layers_unmark_mark hw ns (a.placed ns)
    have hsame : (a.placed ns).SameButOwners (w.unmark (a.prepared ns w)).2 :=
      (w.sameButOwners_mark ns (a.placed ns)).trans (w.sameButOwners_unmark _)
    exact ⟨hreferences, hannotated, hsame⟩

include hc in
/-- If no request to the store fails, an asset that was decoded from the object `o` of a manifest is
created under its free key, and given up by the record of it.  Under other keys the store stays as
it is.  The whole store is as it was exactly if the manifest names no other owner, neither by
reference nor in the annotation.  Else the object stays: it is that of the manifest, placed in the
namespace, with the other owners of the manifest in their order in each place. -/
theorem release_undoes_creation_iff {sha256 : String} {o : Object}
    (ha : Asset.ofObject sha256 o = .ok a) (hx : x.Confirms a target ns)
    (hfree : objects ⟨a.kind, ns, a.name⟩ = none) (hw : Listable w.uid) (t : τ) :
    let key : ObjectKey := ⟨a.kind, ns, a.name⟩
    let done := (createAndRelease a x ns target w).run c.world (objects, t)
    (∃ outcome, done.1 = (.ok (), .ok outcome)) ∧
    (∀ key', key' ≠ key → done.2.1 key' = objects key') ∧
    (done.2.1 = objects ↔ ∀ uid ∈ o.owners, uid = w.uid) ∧
    ((∃ uid ∈ o.owners, uid ≠ w.uid) → ∃ o', done.2.1 key = some o' ∧
      o'.references = o.references.filter (fun r => r.uid ≠ w.uid) ∧
      o'.annotatedOwners = o.annotatedOwners.filter (· ≠ w.uid) ∧
      (a.placed ns).SameButOwners o') := by
  intro key done
  obtain ⟨-, rfl, hname, -⟩ := ofObject_eq_ok.mp ha
  obtain ⟨outcome, hyields⟩ := yields_createAndRelease hc hname hx hfree w
  obtain ⟨t', hrun⟩ := hyields t
  have hstore : done.2.1 = objects.set key (w.leave ns (a.prepared ns w)) :=
    congrArg (·.2.1) hrun
  have hgone : w.leave ns (a.prepared ns w) = none ↔ ∀ uid ∈ a.object.owners, uid = w.uid := by
    rw [← a.soleOn_prepared_iff ns hw, Owner.leave]
    split
    · next hsole => exact iff_of_true rfl hsole
    · next hshared => exact iff_of_false (Option.some_ne_none _) hshared
  rw [hstore]
  refine ⟨⟨outcome, congrArg (·.1) hrun⟩, fun key' hkey => Objects.set_of_ne _ _ hkey, ?_, ?_⟩
  · rw [← hgone]
    constructor
    · intro hsame
      have hthere := congrFun hsame key
      rwa [Objects.set_same, hfree] at hthere
    · intro hnone
      rw [hnone]
      exact Objects.set_eq_self hfree
  · rintro ⟨uid, huid, hne⟩
    have hleft : w.leave ns (a.prepared ns w) ≠ none := fun hnone => hne (hgone.mp hnone uid huid)
    obtain ⟨o', ho'⟩ := Option.ne_none_iff_exists'.mp hleft
    rw [Objects.set_same, ho']
    exact ⟨o', rfl, Asset.eq_of_leave_prepared hw ho'⟩

end Round

/-! ## A task that names an owner -/

namespace Stack

/-- A manifest of a task that names some owners. -/
def owningTask (uids : List String) : Object :=
  { taskOf uids with typeName := some ⟨"tekton.dev/v1beta1", "Task"⟩ }

/-- The asset that it is. -/
def owningAsset (uids : List String) : Asset :=
  ⟨"a", taskKind, "", owningTask uids⟩

lemma ofObject_owningTask (uids : List String) :
    Asset.ofObject "" (owningTask uids) = .ok (owningAsset uids) := rfl

lemma confirms_owningAsset (uids : List String) :
    unplacedTask.Confirms (owningAsset uids) "kabanero" "kabanero" :=
  ⟨rfl, rfl, rfl, rfl⟩

/-- A task that names its creator only comes and goes. -/
theorem own_task_comes_and_goes :
    let c := Surroundings.serving "" fun _ => false
    let objects : Objects := fun _ => none
    c.StoreFaultless ∧
      Asset.ofObject "" (owningTask ["uid-java"]) = .ok (owningAsset ["uid-java"]) ∧
      unplacedTask.Confirms (owningAsset ["uid-java"]) "kabanero" "kabanero" ∧
      objects taskKey = none ∧ Listable (Owner.stackIn "kabanero" "uid-java").uid ∧
      ((createAndRelease (owningAsset ["uid-java"]) unplacedTask "kabanero" "kabanero"
        (.stackIn "kabanero" "uid-java")).run c.world (objects, ())).2.1 = objects := by
  intro c objects
  have hc : c.StoreFaultless := Surroundings.storeFaultless_serving "" fun _ _ => rfl
  have hfree : objects taskKey = none := rfl
  obtain ⟨-, -, hsame, -⟩ := release_undoes_creation_iff hc (ofObject_owningTask ["uid-java"])
    (confirms_owningAsset ["uid-java"]) hfree (w := .stackIn "kabanero" "uid-java")
    listable_uid_java ()
  refine ⟨hc, rfl, confirms_owningAsset _, hfree, listable_uid_java, hsame.mpr fun uid huid => ?_⟩
  rw [show (owningTask ["uid-java"]).owners = ["uid-java"] from owners_taskOf _] at huid
  exact List.mem_singleton.mp huid

/-- What its creator leaves behind in an empty store if the task names another owner: the task,
owned by the other one. -/
lemma owners_of_left_task :
    (((createAndRelease (owningAsset ["uid-node"]) unplacedTask "kabanero" "kabanero"
      (.stackIn "kabanero" "uid-java")).run (Surroundings.serving "" fun _ => false).world
        ((fun _ => none : Objects), ())).2.1 taskKey).map (·.owners) = some ["uid-node"] := by
  decide +kernel

/-- A task that names another owner does not go with its creator. -/
theorem task_of_named_owner_is_left :
    let c := Surroundings.serving "" fun _ => false
    let objects : Objects := fun _ => none
    c.StoreFaultless ∧
      Asset.ofObject "" (owningTask ["uid-node"]) = .ok (owningAsset ["uid-node"]) ∧
      Asset.isAllowedGroup (owningAsset ["uid-node"]).kind.group = true ∧
      unplacedTask.Confirms (owningAsset ["uid-node"]) "kabanero" "kabanero" ∧
      objects taskKey = none ∧ Listable (Owner.stackIn "kabanero" "uid-java").uid ∧
      ((createAndRelease (owningAsset ["uid-node"]) unplacedTask "kabanero" "kabanero"
        (.stackIn "kabanero" "uid-java")).run c.world (objects, ())).2.1 ≠ objects := by
  intro c objects
  have hc : c.StoreFaultless := Surroundings.storeFaultless_serving "" fun _ _ => rfl
  refine ⟨hc, rfl, by decide, confirms_owningAsset _, rfl, listable_uid_java, fun hsame => ?_⟩
  have hleft := owners_of_left_task
  rw [hsame] at hleft
  cases hleft

end Stack

end PipelineStacks
