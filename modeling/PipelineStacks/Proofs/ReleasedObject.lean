import PipelineStacks.Proofs.Attempts
import PipelineStacks.Proofs.OwnerSet
import PipelineStacks.Proofs.Withdrawal

/-!
# What is left of an object that is given up

When a recorded asset is given up in a store that does not fail, the store changes under the key of
the asset only, and by one request at most; none is made exactly if the store stays as it is
(`mutations_deleteAsset`).  An object that the owner has a hold on is gone if nobody else owns it,
and else it is the same object without the owner (`release_takes_own_record`).
-/

namespace PipelineStacks

open Program (Exchange)

namespace Effect

/-- The request is to change what the store holds. -/
def isMutation : Effect → Bool
  | .create .. | .update .. | .delete .. => true
  | .get .. | .fetch .. | .record .. | .count _ => false

/-- The requests that are to change what the store holds. -/
def mutations (log : List (Exchange Effect.Answer)) : List (Exchange Effect.Answer) :=
  log.filter (·.1.isMutation)

end Effect

/-! ## The requests of an attempt -/

section Requests

variable {τ : Type} {c : Surroundings τ} (w : Owner)

/-- For an object that was found one request is made if the owner is alone on it or recorded on it,
and else none. -/
lemma length_mutations_releaseObject {σ : Type} (world : Program.World Effect.Answer σ)
    (kind : Kind) (ns name : String) (o : Object) (t : σ) :
    (Effect.mutations ((releaseObject kind ns name w o).log world t)).length =
      if w.SoleOn ns o ∨ w.isMarked o = true then 1 else 0 := by
  rw [releaseObject_eq]
  by_cases hsole : w.SoleOn ns o
  · rw [if_pos hsole, if_pos (Or.inl hsole)]
    rfl
  · rw [if_neg hsole]
    cases hmarked : w.isMarked o with
    | true =>
      rw [if_pos rfl, if_pos (Or.inr rfl)]
      rfl
    | false => simp [hsole, Effect.mutations]

/-- For an active asset one request is made if its object is there and the owner is alone on it or
recorded on it, and else none. -/
lemma length_mutations_deleteAsset (hc : c.StoreFaultless) (objects : Objects) {x : AssetStatus}
    (hactive : x.state = .active) (target : String) (t : τ) :
    (Effect.mutations ((deleteAsset x target w).log c.world (objects, t))).length =
      match objects (x.keyAt target) with
      | none => 0
      | some o => if w.SoleOn (x.place target) o ∨ w.isMarked o = true then 1 else 0 := by
  obtain ⟨t', hget⟩ := Surroundings.run_get hc x.objectKind (x.place target) x.name objects t
  change _ = (Except.ok (objects (x.keyAt target)), _) at hget
  unfold deleteAsset
  rw [if_neg (not_not.mpr hactive), Program.log_bind, hget]
  cases objects (x.keyAt target) with
  | none => rfl
  | some o => exact length_mutations_releaseObject w c.world x.objectKind _ x.name o _

end Requests

namespace Owner

variable {w : Owner} {objects : Objects} {key : ObjectKey} {o : Object}

/-- The store stays as it is exactly if the owner is neither alone on the object nor recorded on
it. -/
lemma withdraw_eq_self_iff (ho : objects key = some o) : w.withdraw objects key = objects ↔
    ¬ (w.SoleOn key.inNamespace o ∨ w.isMarked o = true) := by
  rw [withdraw_of_some ho, leave, not_or, Bool.not_eq_true]
  constructor
  · intro h
    have hkey := congrFun h key
    rw [Objects.set_same, ho] at hkey
    split at hkey
    · cases hkey
    · next hshared => exact ⟨hshared, unmark_snd_eq_self_iff.mp (Option.some.inj hkey)⟩
  · rintro ⟨hshared, hunmarked⟩
    rw [if_neg hshared, unmark_snd_eq_self_iff.mpr hunmarked, Objects.set_eq_self ho]

/-- An owner that has a hold on an object is alone on it exactly if nobody else is recorded. -/
lemma soleOn_iff_alone {ns : String} (h : w.namespaceName = ns ∨ w.isMarked o = true) :
    w.SoleOn ns o ↔ ∀ uid ∈ o.owners, uid = w.uid := by
  refine ⟨fun hsole => hsole.alone, fun halone => ⟨halone, fun hforeign => ?_⟩⟩
  rcases h with rfl | hmarked
  · exact (hforeign rfl).elim
  · exact (w.isMarked_iff o).mp hmarked

/-- An owner that has no hold on an object is not alone on it. -/
lemma not_soleOn_of_no_hold {ns : String} (h : ¬ (w.namespaceName = ns ∨ w.isMarked o = true)) :
    ¬ w.SoleOn ns o := by
  rw [not_or, w.isMarked_iff] at h
  exact fun hsole => h.2 (hsole.recorded (Ne.symm h.1))

/-- Of an object that is left both places have lost the owner, and nothing else has changed. -/
lemma unmark_layers (w : Owner) (o : Object) :
    (w.unmark o).2.references = o.references.filter (fun r => r.uid ≠ w.uid) ∧
      (w.unmark o).2.annotatedOwners = o.annotatedOwners.filter (· ≠ w.uid) := by
  change ((o.removeReference w.uid).2.removeAnnotatedOwner w.uid).2.references = _ ∧
    ((o.removeReference w.uid).2.removeAnnotatedOwner w.uid).2.annotatedOwners = _
  rw [Object.references_removeAnnotatedOwner, Object.references_removeReference,
    Object.annotatedOwners_removeAnnotatedOwner, Object.annotatedOwners_removeReference]
  exact ⟨rfl, rfl⟩

/-- An object that the owner has a hold on is gone exactly if nobody else is recorded on it, and
else the owner is taken off it. -/
lemma withdraw_of_hold (ho : objects key = some o)
    (hhold : w.namespaceName = key.inNamespace ∨ w.isMarked o = true) :
    (w.withdraw objects key key = none ↔ ∀ uid ∈ o.owners, uid = w.uid) ∧
      ∀ o', w.withdraw objects key key = some o' → o' = (w.unmark o).2 := by
  rw [withdraw_of_some ho, Objects.set_same, leave, ← soleOn_iff_alone hhold]
  split
  · next hsole => exact ⟨iff_of_true rfl hsole, fun o' ho' => by cases ho'⟩
  · next hshared =>
    exact ⟨iff_of_false (Option.some_ne_none _) hshared, fun o' ho' => (Option.some.inj ho').symm⟩

/-- Any other object stays as it is. -/
lemma withdraw_of_no_hold (ho : objects key = some o)
    (hhold : ¬ (w.namespaceName = key.inNamespace ∨ w.isMarked o = true)) :
    w.withdraw objects key key = some o := by
  have hunmarked : w.isMarked o = false := by
    rw [← Bool.not_eq_true]
    exact fun hmarked => hhold (Or.inr hmarked)
  rw [withdraw_of_some ho, Objects.set_same, leave, if_neg (not_soleOn_of_no_hold hhold),
    unmark_eq_self hunmarked]

end Owner

/-! ## The store after it -/

/-- For an active asset one request is made at most to change the store, and none exactly if the
store stays as it is. -/
lemma mutations_deleteAsset {τ : Type} {c : Surroundings τ} (hc : c.StoreFaultless)
    (objects : Objects) {x : AssetStatus} (hactive : x.state = .active) (target : String)
    (w : Owner) (t : τ) :
    (Effect.mutations ((deleteAsset x target w).log c.world (objects, t))).length ≤ 1 ∧
      (Effect.mutations ((deleteAsset x target w).log c.world (objects, t)) = [] ↔
        w.withdraw objects (x.keyAt target) = objects) := by
  rw [← List.length_eq_zero_iff, length_mutations_deleteAsset w hc objects hactive target t]
  cases ho : objects (x.keyAt target) with
  | none => exact ⟨Nat.zero_le 1, iff_of_true rfl (Owner.withdraw_of_none ho)⟩
  | some o =>
    rw [Owner.withdraw_eq_self_iff ho]
    change (if w.SoleOn (x.place target) o ∨ w.isMarked o = true then 1 else 0) ≤ 1 ∧
      ((if w.SoleOn (x.place target) o ∨ w.isMarked o = true then 1 else 0) = 0 ↔
        ¬ (w.SoleOn (x.place target) o ∨ w.isMarked o = true))
    split
    · next hchange => exact ⟨le_rfl, iff_of_false one_ne_zero (not_not.mpr hchange)⟩
    · next hsame => exact ⟨Nat.zero_le 1, iff_of_true rfl hsame⟩

/-- If no request to the store fails, an active asset is given up under its own key, where an empty
namespace stands for the target.  Under other keys the store stays as it is, and so does an object
that is in another namespace than the owner and does not carry its uid.  Any other object is gone
exactly if no other owner was recorded in either place; else it is the same object without the
owner, with the other owners in their order in each place.  One request is made at most to change
the store, and none exactly if the store stays as it is. -/
theorem release_takes_own_record {τ : Type} {c : Surroundings τ} (hc : c.StoreFaultless)
    {objects : Objects} (hobjects : objects.WellKeyed) {x : AssetStatus}
    (hactive : x.state = .active) (target : String) (w : Owner) (t : τ) :
    let ns := if x.namespaceName = "" then target else x.namespaceName
    let key : ObjectKey := ⟨⟨x.group, x.version, x.kind⟩, ns, x.name⟩
    let done := (deleteAsset x target w).run c.world (objects, t)
    let mutations := Effect.mutations ((deleteAsset x target w).log c.world (objects, t))
    (∃ outcome, done.1 = .ok outcome) ∧
    (∀ key', key' ≠ key → done.2.1 key' = objects key') ∧
    (objects key = none → done.2.1 key = none) ∧
    (∀ o, objects key = some o →
      (w.namespaceName = ns ∨ w.isMarked o = true →
        (done.2.1 key = none ↔ ∀ uid ∈ o.owners, uid = w.uid) ∧
        ∀ o', done.2.1 key = some o' →
          o'.references = o.references.filter (fun r => r.uid ≠ w.uid) ∧
          o'.annotatedOwners = o.annotatedOwners.filter (· ≠ w.uid) ∧ o.SameButOwners o') ∧
      (¬ (w.namespaceName = ns ∨ w.isMarked o = true) → done.2.1 key = some o)) ∧
    mutations.length ≤ 1 ∧ (mutations = [] ↔ done.2.1 = objects) := by
  intro ns key done mutations
  obtain ⟨outcome, hdelete⟩ := Activation.yields_deleteAsset hc hobjects x target w
  obtain ⟨t', hrun⟩ := hdelete t
  rw [if_pos hactive] at hrun
  have hstore : done.2.1 = w.withdraw objects key := congrArg (·.2.1) hrun
  rw [hstore]
  refine ⟨⟨outcome, congrArg (·.1) hrun⟩, fun key' hkey => Objects.set_of_ne _ _ hkey,
    fun hnone => ?_, fun o ho => ⟨fun hhold => ?_, Owner.withdraw_of_no_hold ho⟩,
    mutations_deleteAsset hc objects hactive target w t⟩
  · rw [Owner.withdraw_of_none hnone, hnone]
  · obtain ⟨hgone, hleft⟩ := Owner.withdraw_of_hold ho hhold
    refine ⟨hgone, fun o' ho' => ?_⟩
    obtain rfl := hleft o' ho'
    exact ⟨(w.unmark_layers o).1, (w.unmark_layers o).2, w.sameButOwners_unmark o⟩

/-! ## A task that two stacks own -/

namespace Stack

/-- The task as it is recorded, active and without a namespace of its own. -/
def unplacedTask : AssetStatus where
  name := "a"
  group := taskKind.group
  version := taskKind.version
  kind := taskKind.name
  state := .active

/-- If one of two stacks gives the task up, the task stays with the other one as its only owner. -/
theorem task_stays_with_other_owner :
    let c := Surroundings.serving "" fun _ => false
    let objects := storeOf ["uid-java", "uid-node"]
    c.StoreFaultless ∧ objects.WellKeyed ∧ unplacedTask.state = .active ∧
      ∃ o', ((deleteAsset unplacedTask "kabanero" (.stackIn "kabanero" "uid-java")).run c.world
        (objects, ())).2.1 taskKey = some o' ∧ o'.references.map (·.uid) = ["uid-node"] := by
  intro c objects
  have hc : c.StoreFaultless := Surroundings.storeFaultless_serving "" fun _ _ => rfl
  have hobjects : objects.WellKeyed := wellKeyed_storeOf _
  obtain ⟨-, -, -, hfound, -⟩ :=
    release_takes_own_record hc hobjects (x := unplacedTask) rfl "kabanero"
      (.stackIn "kabanero" "uid-java") ()
  obtain ⟨hgone, hleft⟩ := (hfound (taskOf ["uid-java", "uid-node"]) rfl).1 (Or.inl rfl)
  refine ⟨hc, hobjects, rfl, ?_⟩
  cases hdone : ((deleteAsset unplacedTask "kabanero" (.stackIn "kabanero" "uid-java")).run c.world
      (objects, ())).2.1 taskKey with
  | none =>
    have halone := hgone.mp hdone
    rw [owners_taskOf] at halone
    exact absurd (halone "uid-node" (by decide)) (by decide)
  | some o' =>
    refine ⟨o', rfl, ?_⟩
    rw [(hleft o' hdone).1]
    rfl

end Stack

end PipelineStacks
