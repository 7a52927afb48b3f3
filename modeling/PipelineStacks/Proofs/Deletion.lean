import PipelineStacks.Proofs.Conduct
import PipelineStacks.Proofs.Convergence

/-!
# What may be deleted

A delete removes an object whoever owns it, so a pass asks for one only right after it has seen the
object with no other owner on it (`Owner.PermitsUpkeep`).  Whatever the world answers, a pass keeps
to that (`Stack.reconcile_guarded`), and what is deleted are active assets of archives that no
version needs.  `Stack.delete_is_safe` says so of the requests of a run.
-/

namespace PipelineStacks

namespace Effect

/-- The key under which a request deletes. -/
def deletedKey? : Effect → Option ObjectKey
  | .delete kind ns name => some ⟨kind, ns, name⟩
  | _ => none

/-- The request writes a status. -/
def isRecord : Effect → Bool
  | .record .. => true
  | _ => false

/-- A key that is deleted by some request is that of a delete among them. -/
lemma exists_delete_of_mem {log : List (Program.Exchange Effect.Answer)} {key : ObjectKey}
    (h : key ∈ log.filterMap fun x => x.1.deletedKey?) :
    ∃ before answer rest,
      log = before ++ ⟨.delete key.kind key.inNamespace key.name, answer⟩ :: rest := by
  obtain ⟨⟨e, answer⟩, hx, hkey⟩ := List.mem_filterMap.mp h
  cases e with
  | delete kind ns name =>
    obtain rfl := Option.some.inj hkey
    obtain ⟨before, rest, hlog⟩ := List.append_of_mem hx
    exact ⟨before, answer, rest, hlog⟩
  | _ => cases hkey

end Effect

namespace Owner

/-- What may be asked while the cluster is brought in line.  No status is written.  A delete is
permitted for some keys, and only if the exchange right before it has found an object under the key
that has no other owner.  Every other request is permitted. -/
def PermitsUpkeep (w : Owner) (keys : Set ObjectKey)
    (last : Option (Program.Exchange Effect.Answer)) : Effect → Prop
  | .delete kind ns name => ⟨kind, ns, name⟩ ∈ keys ∧ ∃ object,
      last = some ⟨.get kind ns name, (.ok (some object) : Except Failure (Option Object))⟩ ∧
        w.SoleOn ns object
  | .record .. => False
  | _ => True

/-- What may be asked in a whole pass: beyond upkeep, a status is written. -/
def PermitsPass (w : Owner) (keys : Set ObjectKey)
    (last : Option (Program.Exchange Effect.Answer)) (e : Effect) : Prop :=
  e.isRecord ∨ w.PermitsUpkeep keys last e

end Owner

/-! ## A pass -/

namespace Owner

variable {w : Owner} {keys : Set ObjectKey} {last : Option (Program.Exchange Effect.Answer)}
  {e : Effect}

/-- To give assets up is upkeep. -/
lemma GivesUp.permitsUpkeep (h : w.GivesUp keys last e) : w.PermitsUpkeep keys last e := by
  cases e with
  | delete kind ns name => exact h
  | record ns name status => exact h
  | _ => trivial

/-- To see to assets is upkeep, and nothing is deleted by it. -/
lemma Tends.permitsUpkeep {keys' : Set ObjectKey} {made : Set (Asset × String)}
    (h : w.Tends keys' made last e) : w.PermitsUpkeep keys last e := by
  cases e with
  | delete kind ns name => exact h.elim
  | record ns name status => exact h
  | _ => trivial

end Owner

/-- A pass deletes only active assets of archives that are not needed. -/
lemma Activation.run_guarded {a : Activation} {keys : Set ObjectKey}
    {last : Option (Program.Exchange Effect.Answer)} {m : UseMap}
    (hkeys : ∀ r u, (r, u) ∈ m.toDelete → ∀ s ∈ u.status.activeAssets, s.state = .active →
      s.keyAt a.target ∈ keys) : (a.run m).Guarded (a.owner.PermitsUpkeep keys) last := by
  have hrun : (a.run m).Conforms _ _ _ last :=
    run_conforms (S := Scope.unbounded a fun _ _ => True) hkeys
      fun _ u _ => Scope.covers_unbounded u
  refine hrun.guarded.imp fun last' e he => ?_
  rcases he with he | he
  · exact he.permitsUpkeep
  · exact he.permitsUpkeep

open Program (guarded_bind guarded_done guarded_question)

namespace Stack

variable {s : Stack}

/-- The keys of the recorded assets that are active and belong to an archive on the delete side of
the use map. -/
def deletable (s : Stack) (target : String) : Set ObjectKey :=
  {key | ∃ m, UseMap.build s.recorded.versions s.spec.versions = .ok m ∧
    ∃ v ∈ s.recorded.versions, ∃ p ∈ v.pipelines, (∃ u, (.ofStatus p, u) ∈ m.toDelete) ∧
      ∃ x ∈ p.activeAssets, x.state = .active ∧ x.keyAt target = key}

/-- The assets that a use map starts with are recorded, under the archive itself. -/
lemma mem_deletable {m : UseMap} (hm : UseMap.build s.recorded.versions s.spec.versions = .ok m)
    {r : Reference} {u : Usage} (hu : (r, u) ∈ m.toDelete) {x : AssetStatus}
    (hx : x ∈ u.status.activeAssets) (hactive : x.state = .active) (target : String) :
    x.keyAt target ∈ s.deletable target := by
  rw [UseMap.activeAssets_of_build hm (UseMap.mem_toDelete.mp hu).1] at hx
  obtain ⟨v, hv, p, hp, rfl, hrecorded⟩ := UseMap.exists_record_of_mem_assetsAt hx
  exact ⟨m, hm, v, hv, p, hp, ⟨u, hu⟩, x, hrecorded, hactive, rfl⟩

/-- While the cluster is brought in line only what is deletable is deleted, and only if it was found
without other owners. -/
theorem reconcileActiveVersions_guarded {a : Activation} (ha : s.activation = .ok a)
    (last : Option (Program.Exchange Effect.Answer)) :
    s.reconcileActiveVersions.Guarded (a.owner.PermitsUpkeep (s.deletable a.target)) last := by
  obtain ⟨m, hm, -⟩ := UseMap.build_eq_ok s.recorded.versions s.spec.versions
  rw [reconcileActiveVersions_eq ha hm]
  exact guarded_bind (Activation.run_guarded fun r u hu x hx hactive =>
    mem_deletable hm hu hx hactive _) fun _ _ => guarded_done _

/-- While the cluster is brought in line no status is written. -/
lemma isRecord_of_mem_log (ha : s.activation = .ok a) {σ : Type}
    {world : Program.World Effect.Answer σ} {t : σ} {x : Program.Exchange Effect.Answer}
    (hx : x ∈ s.reconcileActiveVersions.log world t) : x.1.isRecord = false := by
  obtain ⟨before, rest, hlog⟩ := List.append_of_mem hx
  have hpermitted := (reconcileActiveVersions_guarded ha none).of_log hlog
  cases hx : x.1 with
  | record ns name status =>
    rw [hx] at hpermitted
    exact hpermitted.elim
  | _ => rfl

/-- A whole pass deletes only what is deletable, and only if it was found without other owners. -/
theorem reconcile_guarded {a : Activation} (ha : s.activation = .ok a)
    (last : Option (Program.Exchange Effect.Answer)) :
    s.reconcile.Guarded (a.owner.PermitsPass (s.deletable a.target)) last := by
  have hactive : ∀ last', s.reconcileActiveVersions.Guarded
      (a.owner.PermitsPass (s.deletable a.target)) last' := fun last' =>
    (reconcileActiveVersions_guarded ha last').imp fun _ _ => Or.inr
  exact (reconcile_conforms (R := fun _ _ => True) (fun _ _ => Or.inr trivial)
    (fun _ _ _ _ => Or.inl rfl) fun last' => (hactive last').conforms).guarded

/-- A stack that can own nothing deletes nothing. -/
lemma reconcile_guarded_of_error {e : ReconcileError} (he : s.activation = .error e) (w : Owner)
    (last : Option (Program.Exchange Effect.Answer)) :
    s.reconcile.Guarded (w.PermitsUpkeep ∅) last := by
  unfold reconcile reconcileActiveVersions
  rw [he]
  exact guarded_bind (guarded_question trivial) fun _ _ => guarded_done _

/-- Whatever is recorded and asked for, and whatever the world answers: right before a pass deletes
an object it has found it under the same key without an owner other than the stack, and with the
stack as an owner if it is in another namespace.  The key is that of a recorded asset that is
active, and its archive is on the delete side of the use map, so that no active version asks for
it. -/
theorem delete_is_safe (s : Stack) {σ : Type} (world : Program.World Effect.Answer σ) (t : σ)
    {before rest : List (Program.Exchange Effect.Answer)} {kind : Kind} {ns name : String}
    {answer : Effect.Answer (.delete kind ns name)}
    (hlog : s.reconcile.log world t = before ++ ⟨.delete kind ns name, answer⟩ :: rest) :
    ∃ uid ownNs, s.metadata.uid = some uid ∧ s.metadata.namespaceName = some ownNs ∧
      (∃ earlier object, before = earlier ++
          [⟨.get kind ns name, (.ok (some object) : Except Failure (Option Object))⟩] ∧
        (∀ uid' ∈ object.owners, uid' = uid) ∧ (ns ≠ ownNs → uid ∈ object.owners)) ∧
      ∃ m, UseMap.build s.recorded.versions s.spec.versions = .ok m ∧
        ∃ v ∈ s.recorded.versions, ∃ p ∈ v.pipelines, (∃ u, (.ofStatus p, u) ∈ m.toDelete) ∧
          (∀ w ∈ s.spec.versions, w.isActive → ∀ q ∈ w.pipelines,
            Reference.ofSpec q ≠ .ofStatus p) ∧
          ∃ x ∈ p.activeAssets, x.state = .active ∧
            x.objectKind = kind ∧ x.place ownNs = ns ∧ x.name = name := by
  cases ha : s.activation with
  | error e => exact ((reconcile_guarded_of_error ha default none).of_log hlog).1.elim
  | ok a =>
    obtain ⟨huid, hns, htarget⟩ := activation_eq_ok ha
    obtain ⟨⟨m, hm, v, hv, p, hp, ⟨u, hu⟩, x, hx, hactive, hkey⟩, object, hlast, hsole⟩ :=
      ((reconcile_guarded ha none).of_log hlog).resolve_left Bool.false_ne_true
    obtain ⟨earlier, hbefore⟩ : ∃ earlier, before = earlier ++ [_] := by
      rw [Option.or_none] at hlast
      exact List.getLast?_eq_some_iff.mp hlast
    have hasked : ∀ w ∈ s.spec.versions, w.isActive → ∀ q ∈ w.pipelines,
        Reference.ofSpec q ≠ .ofStatus p := by
      intro w hw hwactive q hq hr
      obtain ⟨hget, hunneeded⟩ := UseMap.mem_toDelete.mp hu
      exact hunneeded
        ((UseMap.useCount_pos_iff hm hget).mpr (Or.inl ⟨w, hw, hwactive, q, hq, hr⟩))
    rw [AssetStatus.keyAt, htarget, ObjectKey.mk.injEq] at hkey
    exact ⟨_, _, huid, hns, ⟨earlier, object, hbefore, hsole.alone, hsole.recorded⟩, m, hm, v, hv,
      p, hp, ⟨u, hu⟩, hasked, x, hx, hactive, hkey⟩

/-! ## A task of an archive that is not needed -/

lemma listable_uid_java : Listable "uid-java" :=
  ⟨by decide, by decide, by decide⟩

/-- The key of the task. -/
def taskKey : ObjectKey :=
  ⟨taskKind, "kabanero", "a"⟩

/-- The task with some owners in its own namespace. -/
def taskOf (uids : List String) : Object where
  metadata := {
    name := some "a"
    namespaceName := some "kabanero"
    ownerReferences := some (uids.map fun uid =>
      ⟨resourceKind.apiVersion, resourceKind.name, uid, uid, none, none⟩) }

lemma owners_taskOf (uids : List String) : (taskOf uids).owners = uids := by
  have hannotated : (taskOf uids).annotatedOwners = [] := rfl
  rw [Object.owners, hannotated, List.append_nil, taskOf, Object.references, Option.getD_some,
    List.map_map]
  exact List.map_id uids

/-- The store that holds the task and nothing else. -/
def storeOf (uids : List String) : Objects :=
  Objects.set (fun _ => none) taskKey (some (taskOf uids))

/-- The small stack with the task recorded, which asks for nothing any more. -/
def leaving : Stack :=
  asking [] (tasksStatus [("a", none)] .active none "").versions

set_option maxRecDepth 100000 in
/-- The stack deletes the task if it is the only owner. -/
lemma leaving_deletes_task :
    taskKey ∈ (leaving.reconcile.log (Surroundings.serving "" fun _ => false).world
      (storeOf ["uid-java"], ())).filterMap fun x => x.1.deletedKey? := by
  decide +kernel

/-- Before the task is deleted it was found with no other owner. -/
theorem task_is_found_before_it_is_deleted :
    ∃ earlier object answer rest,
      leaving.reconcile.log (Surroundings.serving "" fun _ => false).world
          (storeOf ["uid-java"], ()) =
        (earlier ++ [⟨.get taskKind "kabanero" "a",
          (.ok (some object) : Except Failure (Option Object))⟩]) ++
          ⟨.delete taskKind "kabanero" "a", answer⟩ :: rest ∧
      ∀ uid ∈ object.owners, uid = "uid-java" := by
  obtain ⟨before, answer, rest, hlog⟩ := Effect.exists_delete_of_mem leaving_deletes_task
  obtain ⟨uid, ownNs, huid, -, ⟨earlier, object, rfl, halone, -⟩, -⟩ := delete_is_safe leaving
    (Surroundings.serving "" fun _ => false).world (storeOf ["uid-java"], ()) hlog
  obtain rfl : "uid-java" = uid := Option.some.inj huid
  exact ⟨earlier, object, answer, rest, hlog, halone⟩

end Stack

end PipelineStacks
