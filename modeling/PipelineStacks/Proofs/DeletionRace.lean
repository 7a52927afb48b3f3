import PipelineStacks.Proofs.Deletion
import PipelineStacks.Proofs.VersionedStore

/-!
# Deletes among other stacks

A pass looks an object up and then deletes it: two requests, and other stacks have their turns
between them.  The delete names no version, so the store takes it whatever was written since.
`delete_meets_other_owner_iff` says when an object that is deleted has another owner, and
`delete_removes_task_of_other_stack` is a schedule of two stacks in which it has.
-/

namespace PipelineStacks

open Program (Concurrent guarded_bind guarded_done settle)

namespace Effect

/-- Only a delete has a key that it deletes. -/
lemma eq_delete {e : Effect} {key : ObjectKey} (h : e.deletedKey? = some key) :
    e = .delete key.kind key.inNamespace key.name := by
  cases e with
  | delete kind ns name =>
    obtain rfl := Option.some.inj h
    rfl
  | _ => cases h

/-- A delete is asked for only if the exchange right before it has found an object under the key
with no other owner. -/
def DeletesAlone (uid : String) (last : Option (Program.Exchange Effect.Answer)) :
    Effect → Prop
  | .delete kind ns name => ∃ object,
      last = some (found ⟨kind, ns, name⟩ object) ∧ ∀ u ∈ object.owners, u = uid
  | _ => True

end Effect

namespace Stack

variable {α τ : Type}

/-- Passes over stacks of one uid, one after the other.  How a pass ends may decide on those that
follow. -/
inductive Passes (uid : String) : Pass α → Prop
  | done (a : α) : Passes uid (.done a)
  | pass {s : Stack} (huid : s.metadata.uid = some uid)
      {k : Except ReconcileError StackStatus → Pass α} (hk : ∀ result, Passes uid (k result)) :
      Passes uid (s.reconcile >>= k)

/-- A single pass. -/
lemma passes_reconcile {s : Stack} {uid : String} (huid : s.metadata.uid = some uid) :
    Passes uid s.reconcile := by
  have h := Passes.pass huid (k := .done) Passes.done
  rwa [show s.reconcile >>= .done = s.reconcile from Program.bind_done _] at h

/-- Whatever passes run, each of their deletes comes right after a look-up that has found no other
owner. -/
lemma Passes.guarded {uid : String} {p : Pass α} (h : Passes uid p)
    (last : Option (Program.Exchange Effect.Answer)) :
    p.Guarded (Effect.DeletesAlone uid) last := by
  induction h generalizing last with
  | done a => exact guarded_done a
  | @pass s huid k hk ih =>
    refine guarded_bind ?_ ih
    cases ha : s.activation with
    | error e =>
      refine (reconcile_guarded_of_error ha default last).imp fun last' q hq => ?_
      cases q with
      | delete kind ns name => exact hq.1.elim
      | _ => trivial
    | ok a =>
      obtain ⟨howner, -, -⟩ := activation_eq_ok ha
      obtain rfl : uid = a.owner.uid := Option.some.inj (huid.symm.trans howner)
      refine (reconcile_guarded ha last).imp fun last' q hq => ?_
      cases q with
      | delete kind ns name =>
        obtain ⟨-, object, hlast, hsole⟩ := hq.resolve_left Bool.false_ne_true
        exact ⟨object, hlast, hsole.alone⟩
      | _ => trivial

end Stack

/-- Objects with the same owners are owned by the same. -/
lemma exists_owner_iff {x y : Option Object} (h : x.map Object.owners = y.map Object.owners)
    {u : String} : (∃ o, x = some o ∧ u ∈ o.owners) ↔ ∃ o, y = some o ∧ u ∈ o.owners := by
  have hmap : ∀ z : Option Object, (∃ o, z = some o ∧ u ∈ o.owners) ↔
      ∃ uids, z.map Object.owners = some uids ∧ u ∈ uids := by
    simp
  rw [hmap x, hmap y, h]

namespace Stack

variable {κ α τ : Type} [DecidableEq κ]

/-- Stacks of any number run their passes in turns, in any order.  Before a stack deletes an object
it has looked it up and found no other owner; the turns since then were those of other stacks.  An
object that is deleted has another owner exactly if the last of these turns that wrote it put it
there with that owner. -/
theorem delete_meets_other_owner_iff {uid : κ → String} (c : Surroundings τ)
    (fresh : List String → String) {p : Concurrent κ Effect.Answer α (VersionedStore × τ)}
    (hp : ∀ i, Passes (uid i) (p.threads i)) {schedule : List κ}
    {before rest : List (Program.Turn κ Effect.Answer)} {i : κ} {kind : Kind} {ns name : String}
    {answer : Effect.Answer (.delete kind ns name)}
    (h : p.turns (c.versionedWorld fresh) schedule =
      before ++ (i, ⟨.delete kind ns name, answer⟩) :: rest) :
    ∃ earlier object between,
      before = earlier ++ (i, Effect.found ⟨kind, ns, name⟩ object) :: between ∧
      (∀ u ∈ object.owners, u = uid i) ∧ (∀ x ∈ between, x.1 ≠ i) ∧
      ∀ u, u ≠ uid i →
        ((∃ o, (settle (c.versionedWorld fresh) p.state before).1.objects ⟨kind, ns, name⟩ =
            some o ∧ u ∈ o.owners) ↔
        ∃ o, VersionedStore.lastWritten ⟨kind, ns, name⟩ between = some (some o) ∧
          u ∈ o.owners) := by
  obtain ⟨object, hlast, hsole⟩ := Concurrent.guarded_of_turns (fun j => (hp j).guarded none) h
  rw [Option.or_none] at hlast
  obtain ⟨earlier, between, rfl, hbetween⟩ := Concurrent.exists_of_lastOf hlast
  refine ⟨earlier, object, between, rfl, hsole, hbetween, fun u hu => ?_⟩
  have hanswered : Program.Answered (c.versionedWorld fresh) p.state
      (p.turns (c.versionedWorld fresh) schedule) := p.answered_turns schedule
  rw [h, Program.answered_append, Program.answered_append] at hanswered
  -- the look-up was answered with what the store held then; the turns between decide what it holds
  obtain ⟨⟨-, hget, hbetween⟩, -⟩ := hanswered
  obtain ⟨hfound, hsame⟩ := VersionedStore.get_versionedWorld hget
  have howners := VersionedStore.owners_settle hbetween ⟨kind, ns, name⟩
  rw [hsame, hfound] at howners
  have hbefore : settle (c.versionedWorld fresh) p.state
      (earlier ++ (i, Effect.found ⟨kind, ns, name⟩ object) :: between) =
      settle (c.versionedWorld fresh) (c.versionedWorld fresh (.get kind ns name)
        (settle (c.versionedWorld fresh) p.state earlier)).2 between :=
    Program.settle_append _ _ _ _
  rw [hbefore, exists_owner_iff howners]
  cases VersionedStore.lastWritten ⟨kind, ns, name⟩ between with
  | none =>
    refine ⟨?_, fun ⟨o, ho, _⟩ => nomatch ho⟩
    rintro ⟨o, ho, howner⟩
    obtain rfl := Option.some.inj ho
    exact (hu (hsole u howner)).elim
  | some written => simp only [Option.getD_some, Option.some.injEq]

/-! ## Two stacks and one task -/

/-- Two stacks: one that gives the task up, and one that asks for it. -/
inductive Rival
  | java
  | node
deriving DecidableEq

namespace Rival

/-- The uid of the stack. -/
def uid : Rival → String
  | java => "uid-java"
  | node => "uid-node"

/-- The stack. -/
def stack : Rival → Stack
  | java => leaving
  | node =>
    { asking [.ofUrl "https://e.com/p.yaml"] [] with
      metadata :=
        { name := some "node", namespaceName := some "kabanero", uid := some "uid-node" } }

lemma passes_stack (r : Rival) : Passes r.uid r.stack.reconcile := by
  cases r <;> exact passes_reconcile rfl

/-- The world that serves the task. -/
def world : Program.World Effect.Answer (VersionedStore × Unit) :=
  (quiet (document "Task" "a")).versionedWorld VersionedStore.longer

/-- The store that holds the task, with some owners, and nothing else. -/
def store (uids : List String) : VersionedStore :=
  .write VersionedStore.longer ⟨fun _ => none, []⟩ taskKey (some (taskOf uids))

/-- Both stacks are about to reconcile, and one of them owns the task. -/
def race : Concurrent Rival Effect.Answer (Except ReconcileError StackStatus)
    (VersionedStore × Unit) where
  threads r := r.stack.reconcile
  state := (store [java.uid], ())

/-- One stack looks the task up, and then the other has its turns until it has adopted the task. -/
def untilDelete : List Rival :=
  [java, java] ++ List.replicate 6 node

set_option maxRecDepth 100000 in
/-- Then both stacks own the task; what the first one asks for next is to delete it, and it goes. -/
lemma race_untilDelete :
    ((race.after world untilDelete).state.1.objects taskKey).map Object.owners =
        some [java.uid, node.uid] ∧
      ((race.after world untilDelete).turn? world java).map (fun x => (x.1, x.2.1.deletedKey?)) =
        some (java, some taskKey) ∧
      ((race.after world (untilDelete ++ [java])).state.1.objects taskKey).isNone := by
  decide +kernel

/-- The other stack is an owner by then. -/
lemma node_owns_untilDelete : ∃ o,
    (race.after world untilDelete).state.1.objects taskKey = some o ∧ node.uid ∈ o.owners := by
  obtain ⟨o, ho, howners⟩ := Option.map_eq_some_iff.mp race_untilDelete.1
  exact ⟨o, ho, howners ▸ List.mem_cons_of_mem _ List.mem_cons_self⟩

end Rival

open Rival in
/-- The other stack has written the task since the first one looked it up. -/
theorem other_stack_adopts_before_the_delete :
    ∃ earlier object between answer,
      race.turns world (untilDelete ++ [java]) =
        (earlier ++ (java, Effect.found taskKey object) :: between) ++
        [(java, ⟨.delete taskKind "kabanero" "a", answer⟩)] ∧
      ∃ o, VersionedStore.lastWritten taskKey between = some (some o) ∧ node.uid ∈ o.owners := by
  obtain ⟨⟨r, e, answer⟩, hasked, heq⟩ := Option.map_eq_some_iff.mp race_untilDelete.2.1
  obtain ⟨rfl, hkey⟩ := Prod.mk.inj heq
  obtain rfl := Effect.eq_delete hkey
  have hturns : race.turns world (untilDelete ++ [java]) = race.turns world untilDelete ++
      [(java, ⟨.delete taskKind "kabanero" "a", answer⟩)] := by
    rw [Concurrent.turns_append, Concurrent.turns, hasked]
    rfl
  obtain ⟨earlier, object, between, hbefore, -, -, hiff⟩ :=
    delete_meets_other_owner_iff _ _ passes_stack hturns
  refine ⟨earlier, object, between, answer, hbefore ▸ hturns, (hiff node.uid (by decide)).mp ?_⟩
  have hstate : (race.after world untilDelete).state =
      settle world race.state (race.turns world untilDelete) := Concurrent.state_after _ _
  exact hstate ▸ node_owns_untilDelete

open Rival in
/-- The stack deletes the task though the other stack owns it. -/
theorem delete_removes_task_of_other_stack :
    (∀ r : Rival, Passes r.uid (race.threads r)) ∧ java.uid ≠ node.uid ∧
      (∃ o, (race.after world untilDelete).state.1.objects taskKey = some o ∧
        node.uid ∈ o.owners) ∧
      ((race.after world untilDelete).turn? world java).map (fun x => (x.1, x.2.1.deletedKey?)) =
        some (java, some taskKey) ∧
      (race.after world (untilDelete ++ [java])).state.1.objects taskKey = none := by
  obtain ⟨-, hturn, hgone⟩ := race_untilDelete
  exact ⟨passes_stack, by decide, node_owns_untilDelete, hturn, Option.isNone_iff_eq_none.mp hgone⟩

end Stack

end PipelineStacks
