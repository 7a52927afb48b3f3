import PipelineStacks.Proofs.Owners
import PipelineStacks.Stack.Resource

/-!
# The owners of an object as a set

Owners are recorded on an object and taken off it in any order, each by a reference or in the
annotation (`OwnerAct`).  Each of the two holds what it held of all but the owner that acts
(`hasReference_apply_of_ne`, `hasAnnotatedOwner_apply_of_ne`), and the owner is recorded afterwards
exactly if it was to be (`mem_owners_apply`).  So after any number of acts an owner is recorded if
the last of its acts has recorded it, and if it did not act, as it was before
(`owners_follow_last_acts`).
-/

namespace PipelineStacks

/-- An owner of an object is recorded in one place or the other. -/
lemma Object.mem_owners_iff {o : Object} {uid : String} :
    uid ∈ o.owners ↔ o.hasReference uid = true ∨ o.hasAnnotatedOwner uid = true := by
  rw [owners, List.mem_append, hasReference_iff, hasAnnotatedOwner_iff]

/-- An object has no owners if nobody is recorded on it in either place. -/
lemma Object.ownerCount_eq_zero_iff {o : Object} :
    o.ownerCount = 0 ↔ ∀ uid, o.hasReference uid = false ∧ o.hasAnnotatedOwner uid = false := by
  rw [← length_owners, List.length_eq_zero_iff, List.eq_nil_iff_forall_not_mem]
  refine forall_congr' fun uid => ?_
  rw [mem_owners_iff, not_or, Bool.not_eq_true, Bool.not_eq_true]

/-- To take an owner off an object leaves the object as it is exactly if the owner is not recorded
on it. -/
lemma Owner.unmark_snd_eq_self_iff {w : Owner} {o : Object} :
    (w.unmark o).2 = o ↔ w.isMarked o = false := by
  refine ⟨fun h => ?_, fun h => by rw [unmark_eq_self h]⟩
  rw [← Bool.not_eq_true, w.isMarked_iff, ← h, w.owners_unmark]
  simp

/-- An owner is recorded on an object of a namespace, or taken off an object. -/
inductive OwnerAct
  | mark (owner : Owner) (inNamespace : String)
  | unmark (owner : Owner)

namespace OwnerAct

/-- Who acts. -/
def owner : OwnerAct → Owner
  | mark w _ | unmark w => w

/-- The owner is to be recorded. -/
def isMark : OwnerAct → Bool
  | mark .. => true
  | unmark _ => false

/-- Carries the act out on an object, and tells whether that changed it. -/
def apply : OwnerAct → Object → Bool × Object
  | mark w ns, o => w.mark ns o
  | unmark w, o => w.unmark o

/-- The object after some acts. -/
def applyAll (acts : List OwnerAct) (o : Object) : Object :=
  acts.foldl (fun o act => (act.apply o).2) o

/-- The last act of the owner with a uid. -/
def lastOf (uid : String) (acts : List OwnerAct) : Option OwnerAct :=
  (acts.filter (·.owner.uid = uid)).getLast?

lemma applyAll_concat (acts : List OwnerAct) (act : OwnerAct) (o : Object) :
    applyAll (acts ++ [act]) o = (act.apply (applyAll acts o)).2 := by
  rw [applyAll, List.foldl_append]
  rfl

lemma lastOf_concat (uid : String) (acts : List OwnerAct) (act : OwnerAct) :
    lastOf uid (acts ++ [act]) = if act.owner.uid = uid then some act else lastOf uid acts := by
  unfold lastOf
  rw [List.filter_append]
  by_cases h : act.owner.uid = uid <;> simp [h]

/-- An owner that did not act has no last act. -/
lemma lastOf_eq_none_iff {uid : String} {acts : List OwnerAct} :
    lastOf uid acts = none ↔ ∀ act ∈ acts, act.owner.uid ≠ uid := by
  simp [lastOf]

/-! ## One act -/

section Step

variable {act : OwnerAct} {uid : String} (o : Object)

/-- References to others are left alone. -/
lemma hasReference_apply_of_ne (h : act.owner.uid ≠ uid) :
    (act.apply o).2.hasReference uid = o.hasReference uid := by
  rw [Bool.eq_iff_iff, Object.hasReference_iff, Object.hasReference_iff]
  cases act with
  | mark w ns =>
    change uid ∈ (w.mark ns o).2.references.map (·.uid) ↔ _
    unfold Owner.mark
    split
    · exact (o.mem_references_addReference w.reference).trans (or_iff_right (Ne.symm h))
    · rw [Object.references_addAnnotatedOwner]
  | unmark w =>
    change uid ∈ ((o.removeReference w.uid).2.removeAnnotatedOwner w.uid).2.references.map _ ↔ _
    rw [Object.references_removeAnnotatedOwner, Object.references_removeReference]
    simp only [List.mem_map, List.mem_filter, decide_eq_true_eq]
    refine exists_congr fun r => ?_
    constructor
    · rintro ⟨⟨hr, -⟩, huid⟩
      exact ⟨hr, huid⟩
    · rintro ⟨hr, rfl⟩
      exact ⟨⟨hr, Ne.symm h⟩, rfl⟩

/-- Others stay listed in the annotation, and nobody else comes to be. -/
lemma hasAnnotatedOwner_apply_of_ne (hact : Listable act.owner.uid) (h : act.owner.uid ≠ uid) :
    (act.apply o).2.hasAnnotatedOwner uid = o.hasAnnotatedOwner uid := by
  rw [Bool.eq_iff_iff, Object.hasAnnotatedOwner_iff, Object.hasAnnotatedOwner_iff]
  cases act with
  | mark w ns =>
    change uid ∈ (w.mark ns o).2.annotatedOwners ↔ _
    unfold Owner.mark
    split
    · rw [Object.annotatedOwners_addReference]
    · exact (o.mem_annotatedOwners_addAnnotatedOwner hact).trans (or_iff_right (Ne.symm h))
  | unmark w =>
    change uid ∈ ((o.removeReference w.uid).2.removeAnnotatedOwner w.uid).2.annotatedOwners ↔ _
    rw [Object.annotatedOwners_removeAnnotatedOwner, Object.annotatedOwners_removeReference,
      List.mem_filter, decide_eq_true_eq]
    exact and_iff_left (Ne.symm h)

/-- Whoever acts is among the owners afterwards exactly if the act is a mark. -/
lemma mem_owners_apply (hact : Listable act.owner.uid) :
    act.owner.uid ∈ (act.apply o).2.owners ↔ act.isMark = true := by
  cases act with
  | mark w ns => exact iff_of_true ((w.mem_owners_mark ns o hact).mpr (Or.inl rfl)) rfl
  | unmark w =>
    change w.uid ∈ (w.unmark o).2.owners ↔ _
    rw [w.owners_unmark]
    simp [isMark]

/-- An act tells whether it changes the object. -/
lemma apply_fst_eq_false_iff (hact : Listable act.owner.uid) :
    (act.apply o).1 = false ↔ (act.apply o).2 = o := by
  cases act with
  | mark w ns =>
    change (w.mark ns o).1 = false ↔ (w.mark ns o).2 = o
    refine ⟨fun h => by rw [Owner.mark_eq_self h], fun h => ?_⟩
    have hagain : (w.mark ns (w.mark ns o).2).1 = false := w.mark_mark ns o hact
    rwa [h] at hagain
  | unmark w =>
    change (w.unmark o).1 = false ↔ (w.unmark o).2 = o
    rw [w.unmark_fst, Owner.unmark_snd_eq_self_iff]

/-- An act leaves all but the owners alone. -/
lemma sameButOwners_apply (act : OwnerAct) : o.SameButOwners (act.apply o).2 := by
  cases act with
  | mark w ns => exact w.sameButOwners_mark ns o
  | unmark w => exact w.sameButOwners_unmark o

end Step

/-! ## Any number of acts -/

section Run

variable {acts : List OwnerAct} {uid : String} {o : Object}

/-- Of an owner that did not act each of the two says what it said before. -/
lemma layers_applyAll_of_ne (hacts : ∀ act ∈ acts, Listable act.owner.uid)
    (h : ∀ act ∈ acts, act.owner.uid ≠ uid) :
    (applyAll acts o).hasReference uid = o.hasReference uid ∧
      (applyAll acts o).hasAnnotatedOwner uid = o.hasAnnotatedOwner uid := by
  induction acts using List.reverseRecOn with
  | nil => exact ⟨rfl, rfl⟩
  | append_singleton acts act ih =>
    obtain ⟨hbefore, hact⟩ := List.forall_mem_append.mp hacts
    obtain ⟨hothers, hne⟩ := List.forall_mem_append.mp h
    have hact := hact act (List.mem_singleton_self act)
    have hne := hne act (List.mem_singleton_self act)
    obtain ⟨hreference, hlisted⟩ := ih hbefore hothers
    rw [applyAll_concat, hasReference_apply_of_ne _ hne,
      hasAnnotatedOwner_apply_of_ne _ hact hne]
    exact ⟨hreference, hlisted⟩

/-- An owner is recorded after some acts if the last of its own was a mark, and if there was none,
as it was before. -/
lemma mem_owners_applyAll (hacts : ∀ act ∈ acts, Listable act.owner.uid) :
    uid ∈ (applyAll acts o).owners ↔ (∃ act, lastOf uid acts = some act ∧ act.isMark = true) ∨
      lastOf uid acts = none ∧ uid ∈ o.owners := by
  induction acts using List.reverseRecOn with
  | nil => simp [applyAll, lastOf]
  | append_singleton acts act ih =>
    obtain ⟨hbefore, hact⟩ := List.forall_mem_append.mp hacts
    have hact := hact act (List.mem_singleton_self act)
    rw [applyAll_concat, lastOf_concat]
    by_cases huid : act.owner.uid = uid
    · subst huid
      rw [mem_owners_apply _ hact]
      simp
    · rw [if_neg huid, ← ih hbefore, Object.mem_owners_iff, Object.mem_owners_iff,
        hasReference_apply_of_ne _ huid, hasAnnotatedOwner_apply_of_ne _ hact huid]

lemma sameButOwners_applyAll (acts : List OwnerAct) (o : Object) :
    o.SameButOwners (applyAll acts o) := by
  induction acts using List.reverseRecOn with
  | nil => exact .refl o
  | append_singleton acts act ih =>
    rw [applyAll_concat]
    exact ih.trans (sameButOwners_apply _ act)

end Run

/-- Both places together hold a set of owners.  Whatever is written on the object at first, and
whatever owners act on it whose uids can be listed: after their acts an owner is recorded exactly if
the last of its own acts was a mark, or if it did not act and was recorded at first.  Of an owner
that did not act each of the two places says what it said before.  No owners are counted exactly if
nobody is recorded in either place.  Each act tells whether it changes the object, and all along
everything else stays as it is; annotations that are missing count as none. -/
theorem owners_follow_last_acts (o : Object) {acts : List OwnerAct}
    (hacts : ∀ act ∈ acts, Listable act.owner.uid) :
    (∀ v : Owner, v.isMarked (applyAll acts o) = true ↔
      (∃ act, lastOf v.uid acts = some act ∧ act.isMark = true) ∨
        lastOf v.uid acts = none ∧ v.isMarked o = true) ∧
    (∀ uid, lastOf uid acts = none →
      (applyAll acts o).hasReference uid = o.hasReference uid ∧
        (applyAll acts o).hasAnnotatedOwner uid = o.hasAnnotatedOwner uid) ∧
    ((applyAll acts o).ownerCount = 0 ↔ ∀ uid, (applyAll acts o).hasReference uid = false ∧
      (applyAll acts o).hasAnnotatedOwner uid = false) ∧
    (∀ before act after, acts = before ++ act :: after →
      ((act.apply (applyAll before o)).1 = false ↔
        (act.apply (applyAll before o)).2 = applyAll before o)) ∧
    ∀ before after, acts = before ++ after → o.SameButOwners (applyAll before o) := by
  refine ⟨fun v => ?_, fun uid huid => ?_, Object.ownerCount_eq_zero_iff, ?_, ?_⟩
  · rw [v.isMarked_iff, v.isMarked_iff]
    exact mem_owners_applyAll hacts
  · exact layers_applyAll_of_ne hacts (lastOf_eq_none_iff.mp huid)
  · rintro before act after rfl
    exact apply_fst_eq_false_iff _ (hacts act (by simp))
  · rintro before after -
    exact sameButOwners_applyAll before o

end OwnerAct

/-! ## A task whose annotation is untidy -/

/-- The stack with a uid, as an owner in a namespace. -/
def Owner.stackIn (ns uid : String) : Owner :=
  ⟨⟨Stack.resourceKind.apiVersion, Stack.resourceKind.name, uid, uid, none, none⟩, ns⟩

namespace OwnerAct

open Owner (stackIn)

/-- A task that refers to one stack, and lists the same and another one with blanks, empty parts and
repetitions between. -/
def untidyTask : Object where
  metadata := {
    name := some "a"
    ownerReferences := some [(stackIn "kabanero" "uid-java").reference]
    annotations := some (.ofList [(Metadata.ownerAnnotation, " uid-node ,,uid-java, uid-node")]) }

/-- One stack takes itself off the task, and a third one records itself twice. -/
def untidyActs : List OwnerAct :=
  [.mark (stackIn "apps" "uid-go") "kabanero", .unmark (stackIn "kabanero" "uid-java"),
    .mark (stackIn "kabanero" "uid-go") "kabanero"]

/-- The stack that took itself off is recorded nowhere, and the others are recorded. -/
theorem untidy_task_follows_acts : (∀ act ∈ untidyActs, Listable act.owner.uid) ∧
    (stackIn "kabanero" "uid-java").isMarked (applyAll untidyActs untidyTask) = false ∧
    (stackIn "kabanero" "uid-node").isMarked (applyAll untidyActs untidyTask) = true ∧
    (stackIn "kabanero" "uid-go").isMarked (applyAll untidyActs untidyTask) = true := by
  have hacts : ∀ act ∈ untidyActs, Listable act.owner.uid := by
    have hgo : Listable "uid-go" := ⟨by decide, by decide, by decide⟩
    have hjava : Listable "uid-java" := ⟨by decide, by decide, by decide⟩
    simp only [untidyActs, List.forall_mem_cons, List.not_mem_nil, false_implies, implies_true,
      and_true]
    exact ⟨hgo, hjava, hgo⟩
  have hmarked := (owners_follow_last_acts untidyTask hacts).1
  refine ⟨hacts, ?_, (hmarked _).mpr (Or.inr ⟨rfl, by decide⟩),
    (hmarked _).mpr (Or.inl ⟨_, rfl, rfl⟩)⟩
  rw [← Bool.not_eq_true, hmarked]
  rintro (⟨act, hlast, hmark⟩ | ⟨hlast, -⟩)
  · obtain rfl := Option.some.inj hlast
    exact Bool.false_ne_true hmark
  · cases hlast

end OwnerAct

end PipelineStacks
