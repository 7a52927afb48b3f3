import PipelineStacks.Proofs.Conduct
import PipelineStacks.Proofs.Deletion
import PipelineStacks.Proofs.Presence
import PipelineStacks.Proofs.StoreTrace

/-!
# Are active assets owned?

A pass that finds the object of an asset records its owner on it and reports the asset as active,
whether or not the object could be replaced.  `found_asset_is_owned_iff` says, whatever fails, when
an object that was found carries the owner at the end of the pass: if it did before, or if some
later request of the pass has written it.
-/

namespace PipelineStacks

open Program (Exchange)

/-! ## Owners that stand on objects -/

namespace Owner

/-- The owner is recorded on an object of a namespace in the place for it: among the references in
its own namespace, and else in the annotation. -/
def StandsOn (w : Owner) (ns : String) (o : Object) : Prop :=
  if w.canOwn ns then w.uid ∈ o.references.map (·.uid) else w.uid ∈ o.annotatedOwners

variable {w : Owner} {ns : String} {o : Object}

/-- The owner stands on an object if there is nothing to mark. -/
lemma standsOn_iff : w.StandsOn ns o ↔ (w.mark ns o).1 = false := by
  unfold StandsOn mark
  split
  · rw [← Object.hasReference_iff, Object.addReference, uid]
    cases o.hasReference w.reference.uid <;> simp
  · rw [← Object.hasAnnotatedOwner_iff, Object.addAnnotatedOwner]
    cases o.hasAnnotatedOwner w.uid <;> simp

lemma standsOn_mark (hw : Listable w.uid) : w.StandsOn ns (w.mark ns o).2 :=
  standsOn_iff.mpr (w.mark_mark ns o hw)

/-- While assets are seen to the owner stands on everything that is written. -/
lemma Tends.standsOn_of_written (hw : Listable w.uid) {keys : Set ObjectKey}
    {made : Set (Asset × String)} {last : Option (Exchange Effect.Answer)} {e : Effect}
    (h : w.Tends keys made last e) {answer : Effect.Answer e} {key : ObjectKey} {v : Option Object}
    (hv : e.written? answer = some (key, v)) :
    ∃ o, v = some o ∧ w.StandsOn key.inNamespace o := by
  cases e with
  | create kind ns o =>
    obtain ⟨m, -, rfl, rfl⟩ := h
    match answer, hv with
    | .ok (), rfl => exact ⟨_, rfl, standsOn_mark hw⟩
  | update kind ns o =>
    obtain ⟨key', -, object, -, rfl, rfl, rfl⟩ := h
    match answer, hv with
    | .ok (), rfl => exact ⟨_, rfl, standsOn_mark hw⟩
  | delete kind ns name => exact h.elim
  | _ => cases hv

end Owner

namespace Stack

variable {s : Stack} {a : Activation} {τ : Type}

/-! ## What was found -/

/-- An object that is found while assets are seen to is still there in the end, and the owner stands
on it then exactly if it did before or some later request has written it. -/
lemma found_is_owned_iff (hw : Listable a.owner.uid) (c : Surroundings τ) (m : UseMap)
    (start : Objects × τ) {before rest : List (Exchange Effect.Answer)} {key : ObjectKey}
    {o : Object} (hlog : (a.seeToAll m).log c.world start = before ++ Effect.found key o :: rest) :
    ∃ o', ((a.seeToAll m).run c.world start).2.1 key = some o' ∧
      (a.owner.StandsOn key.inNamespace o' ↔
        a.owner.StandsOn key.inNamespace o ∨ ∃ y ∈ rest, Effect.WritesAt key y) := by
  have hround : (a.seeToAll m).Guarded _ none := Activation.seeToAll_guarded a m
  obtain ⟨-, t', p', hanswer, hrest, hlogged, hrun⟩ := hround.conforms.exists_rest .anything hlog
  obtain ⟨hthere, hsame⟩ := c.get_world hanswer.symm
  have hstart : (c.world (.get key.kind key.inNamespace key.name) t').2.1 key = some o := by
    rw [hsame, hthere]
  obtain ⟨o', ho', hstands⟩ := Surroundings.exists_of_puts
    (a.owner.StandsOn key.inNamespace) hrest .anything
    (fun _ _ _ _ hasked hv => hasked.standsOn_of_written hw hv) hstart
  rw [hrun] at ho'
  rw [hlogged] at hstands
  exact ⟨o', ho', hstands⟩

/-- Whatever fails in a pass: if an object is found under the key of an asset while the pass sees to
what is needed, and the asset is active in the status that the pass yields, then the object is there
at the end of the pass.  The stack is recorded on it as an owner, in the place for it, exactly if it
was when the object was found, or if the object was written since. -/
theorem found_asset_is_owned_iff (ha : s.activation = .ok a) (hw : Listable a.owner.uid)
    (c : Surroundings τ) (objects : Objects) (t : τ) :
    ∃ m status, UseMap.build s.recorded.versions s.spec.versions = .ok m ∧
      let first := (a.giveUp m).run c.world (objects, t)
      let checks := (a.seeToAll first.1).log c.world first.2
      let done := s.reconcileActiveVersions.run c.world (objects, t)
      s.reconcileActiveVersions.log c.world (objects, t) =
          (a.giveUp m).log c.world (objects, t) ++ checks ∧
        done.1 = .ok status ∧
        ∀ v ∈ status.versions, ∀ p ∈ v.pipelines, ∀ x ∈ p.activeAssets, x.state = .active →
          ∀ before o rest, checks = before ++ Effect.found (x.keyAt a.target) o :: rest →
            ∃ o', done.2.1 (x.keyAt a.target) = some o' ∧
              (a.owner.StandsOn (x.place a.target) o' ↔ a.owner.StandsOn (x.place a.target) o ∨
                ∃ y ∈ rest, Effect.WritesAt (x.keyAt a.target) y) := by
  obtain ⟨m, hm, -⟩ := UseMap.build_eq_ok s.recorded.versions s.spec.versions
  have hrun := reconcileActiveVersions_run ha c.world (objects, t) hm
  refine ⟨m, _, hm, ?_, congrArg Prod.fst hrun, fun v _ p _ x _ _ before o rest hchecks => ?_⟩
  · rw [reconcileActiveVersions_eq ha hm, Activation.run_eq, Program.log_bind, Program.log_bind]
    exact List.append_nil _
  · have hend := found_is_owned_iff hw c _ _ hchecks
    rw [hrun, Activation.run_eq, Program.run_bind]
    exact hend

end Stack

/-! ## A task that another stack owns -/

namespace Effect

/-- The key under which an exchange has found an object or has written, and whether it has
written. -/
def met? (x : Exchange Effect.Answer) : Option (Bool × ObjectKey) :=
  match x with
  | ⟨.get kind ns name, .ok (some _)⟩ => some (false, ⟨kind, ns, name⟩)
  | ⟨e, answer⟩ => (e.written? answer).map fun written => (true, written.1)

lemma exists_found_of_met? {x : Exchange Effect.Answer} {key : ObjectKey}
    (h : met? x = some (false, key)) : ∃ o, x = Effect.found key o := by
  unfold met? at h
  split at h
  · next kind ns name o =>
    cases h
    exact ⟨o, rfl⟩
  · obtain ⟨written, -, hfalse⟩ := Option.map_eq_some_iff.mp h
    cases hfalse

lemma writesAt_of_met? {x : Exchange Effect.Answer} {key : ObjectKey}
    (h : met? x = some (true, key)) : Effect.WritesAt key x := by
  unfold met? at h
  split at h
  · cases h
  · next e answer _ =>
    obtain ⟨⟨key', o⟩, hwritten, hkey⟩ := Option.map_eq_some_iff.mp h
    cases hkey
    exact ⟨o, hwritten⟩

end Effect

namespace Stack

set_option maxRecDepth 100000 in
/-- What a first pass over a task does with it: it finds the task, replaces it and reports it as
active. -/
lemma first_pass_over_task :
    let world := (quiet (document "Task" "a")).world
    (UseMap.build [] [.ofUrl "https://e.com/p.yaml"]).map (fun m =>
      let first := (askingActivation.giveUp m).run world (storeOf ["uid-node"], ())
      ((askingActivation.seeToAll first.1).log world first.2).filterMap Effect.met?) =
        .ok [(false, taskKey), (true, taskKey)] ∧
    ((asking [.ofUrl "https://e.com/p.yaml"] []).reconcileActiveVersions.run world
      (storeOf ["uid-node"], ())).1.map (fun status =>
        ((status.versions.flatMap (·.pipelines)).flatMap (·.activeAssets)).map fun x =>
          (x.keyAt "kabanero", x.state)) = .ok [(taskKey, .active)] := by
  decide +kernel

/-- A task that another stack owns is owned by the small stack too after its first pass. -/
theorem task_of_other_stack_is_adopted :
    ∃ o, ((asking [.ofUrl "https://e.com/p.yaml"] []).reconcileActiveVersions.run
        (quiet (document "Task" "a")).world (storeOf ["uid-node"], ())).2.1 taskKey = some o ∧
      askingActivation.owner.StandsOn "kabanero" o := by
  obtain ⟨m, status, hm, -, hstatus, hall⟩ := found_asset_is_owned_iff
    (activation_asking [.ofUrl "https://e.com/p.yaml"] []) listable_uid_java
    (quiet (document "Task" "a")) (storeOf ["uid-node"]) ()
  obtain ⟨hmet, hassets⟩ := first_pass_over_task
  rw [show UseMap.build [] [.ofUrl "https://e.com/p.yaml"] = .ok m from hm] at hmet
  rw [hstatus] at hassets
  -- the task is found, and the request that comes next replaces it
  obtain ⟨before, x, rest, hchecks, -, hfound, hrest⟩ :=
    List.filterMap_eq_cons_iff.mp (Except.ok.inj hmet)
  obtain ⟨o, rfl⟩ := Effect.exists_found_of_met? hfound
  obtain ⟨y, hy, hwritten⟩ : ∃ y ∈ rest, Effect.met? y = some (true, taskKey) := by
    rw [← List.mem_filterMap, hrest]
    exact List.mem_cons_self
  -- the record of the task
  obtain ⟨asset, hasset, hrecord⟩ : ∃ asset ∈ (status.versions.flatMap (·.pipelines)).flatMap
      (·.activeAssets), (asset.keyAt "kabanero", asset.state) = (taskKey, .active) := by
    have hlisted := List.mem_of_mem_head? (congrArg List.head? (Except.ok.inj hassets))
    exact List.mem_map.mp hlisted
  obtain ⟨hkey, hactive⟩ := Prod.mk.inj hrecord
  obtain ⟨p, hp, hasset⟩ := List.mem_flatMap.mp hasset
  obtain ⟨v, hv, hp⟩ := List.mem_flatMap.mp hp
  obtain ⟨o', ho', howned⟩ := hall v hv p hp asset hasset hactive before o rest (by
    rw [show asset.keyAt askingActivation.target = taskKey from hkey]
    exact hchecks)
  rw [show asset.keyAt askingActivation.target = taskKey from hkey] at ho' howned
  rw [show asset.place askingActivation.target = "kabanero" from
    congrArg ObjectKey.inNamespace hkey] at howned
  exact ⟨o', ho', howned.mpr (Or.inr ⟨y, hy, Effect.writesAt_of_met? hwritten⟩)⟩

set_option maxRecDepth 100000 in
/-- If the task cannot be replaced it is active in the status all the same, and only the other stack
owns it. -/
theorem active_task_is_not_owned :
    let world := (Surroundings.serving (document "Task" "a") fun
      | .update .. => true
      | _ => false).world
    let done := (asking [.ofUrl "https://e.com/p.yaml"] []).reconcileActiveVersions.run world
      (storeOf ["uid-node"], ())
    done.1.map (fun status =>
      ((status.versions.flatMap (·.pipelines)).flatMap (·.activeAssets)).map fun x =>
        (x.key, x.state)) = .ok [(taskKey, .active)] ∧
    (done.2.1 taskKey).map Object.owners = some ["uid-node"] := by
  decide +kernel

end Stack

end PipelineStacks
