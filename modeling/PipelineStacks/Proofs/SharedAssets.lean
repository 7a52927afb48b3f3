import PipelineStacks.Proofs.StoreTrace
import PipelineStacks.Proofs.Withdrawal

/-!
# Do shared objects remain?

Several archives may list one object.  Owners are counted for each stack and not for each archive,
and a pass gives up what is not needed before it sees to what is needed.  So it may delete an object
that a needed archive lists.  If no request to the store fails, `object_remains_iff` says which
objects remain whatever is fetched: all but those that are abandoned (`Activation.Abandons`), which
an archive lists that is not needed, and which nobody else owns.  An abandoned object is deleted,
and it exists after the pass only if it was created again.
-/

namespace PipelineStacks

namespace Activation

variable {a : Activation}

/-- The bound on what is done while no archive can be had: nothing is created. -/
def Scope.offline (a : Activation) : a.Scope (Effect.Among fun _ => ∅) where
  archives := Set.univ
  loaded _ _ := False
  keys _ := Set.univ
  made := ∅
  loads r _ name skip := by
    refine getManifests_always_among.imp ?_
    intro result hresult found hfound
    obtain ⟨raw, hraw, -⟩ := hresult found hfound
    exact hraw
  listed _ _ _ h := h.elim
  makes _ _ _ h := h.elim

/-- Without archives nothing comes to exist while assets are seen to. -/
lemma free_seeToAll {τ : Type} {c : Surroundings τ}
    (hworld : c.world.Admits (Effect.Among fun _ => ∅)) {m : UseMap}
    (hm : ∀ r u, m.get? r = some u → u.manifests = []) {start : Objects × τ} {key : ObjectKey}
    (hfree : start.1 key = none) : ((a.seeToAll m).run c.world start).2.1 key = none := by
  have hround : (a.seeToAll m).Conforms _ (Scope.offline a).Permits _ none :=
    seeToAll_conforms fun r u hu => ⟨trivial, Or.inl (hm r u hu), fun _ _ => trivial⟩
  refine Surroundings.free_of_no_create hround hworld (fun last e he => ?_) hfree
  cases e with
  | create kind ns o =>
    obtain ⟨m, hmade, -⟩ := he
    exact hmade.elim
  | _ => rfl

end Activation

/-- Surroundings in which no archive can be had, and nothing else fails. -/
def Surroundings.offline : Surroundings Unit :=
  .serving "" fun
    | .fetch .. => true
    | _ => false

lemma Surroundings.storeFaultless_offline : offline.StoreFaultless := by
  refine storeFaultless_serving "" fun e he => ?_
  cases e with
  | fetch source skip => cases he
  | _ => rfl

lemma Surroundings.among_offline : offline.world.Admits (Effect.Among fun _ => ∅) :=
  among_serving "" fun _ _ => rfl

/-- An archive that is not needed lists the object under the key as active, and nobody else owns the
object. -/
def Activation.Abandons (a : Activation) (m : UseMap) (key : ObjectKey) (o : Object) : Prop :=
  (∃ r u, (r, u) ∈ m.toDelete ∧
    ∃ x ∈ u.status.activeAssets, x.state = .active ∧ x.keyAt a.target = key) ∧
  a.owner.SoleOn key.inNamespace o

namespace Stack

variable {s : Stack} {a : Activation} {objects : Objects} {m : UseMap} {key : ObjectKey}
  {o : Object} {τ : Type} {c : Surroundings τ}

/-- What a pass does if no request to the store fails: objects are given up, and then assets are
seen to. -/
lemma run_of_faultless (ha : s.activation = .ok a)
    (hm : UseMap.build s.recorded.versions s.spec.versions = .ok m) (hobjects : objects.WellKeyed)
    (hc : c.StoreFaultless) (t : τ) :
    ∃ first, (a.giveUp m).run c.world (objects, t) = first ∧
      first.1 = (m.map fun _ u => u.givenUp) ∧
      first.2.1 = a.owner.withdrawAll objects (m.leavings a.target) ∧
      (s.reconcileActiveVersions.run c.world (objects, t)).2 =
        ((a.seeToAll first.1).run c.world first.2).2 := by
  obtain ⟨t', hfirst⟩ := Activation.yields_giveUp hc a m hobjects t
  refine ⟨_, hfirst, rfl, rfl, ?_⟩
  rw [reconcileActiveVersions_run ha c.world (objects, t) hm, Activation.run_eq, Program.run_bind,
    hfirst]

/-- What was given up in the first round is gone after it exactly if it was abandoned. -/
lemma withdrawAll_leavings_eq_none_iff (ho : objects key = some o) :
    a.owner.withdrawAll objects (m.leavings a.target) key = none ↔ a.Abandons m key o := by
  rw [Owner.withdrawAll_eq_none_iff, UseMap.mem_leavings_iff, ho, Activation.Abandons]
  simp

/-- An object exists after a pass exactly if it was not abandoned or the second round has written it
again. -/
lemma exists_after_pass_iff (ha : s.activation = .ok a)
    (hm : UseMap.build s.recorded.versions s.spec.versions = .ok m) (hobjects : objects.WellKeyed)
    (ho : objects key = some o) (hc : c.StoreFaultless) (t : τ) :
    let first := (a.giveUp m).run c.world (objects, t)
    (s.reconcileActiveVersions.run c.world (objects, t)).2.1 key ≠ none ↔ (a.Abandons m key o →
      ∃ x ∈ (a.seeToAll first.1).log c.world first.2, Effect.WritesAt key x) := by
  obtain ⟨first, hfirst, -, hstore, hdone⟩ := run_of_faultless ha hm hobjects hc t
  have hround : (a.seeToAll first.1).Guarded _ none := Activation.seeToAll_guarded a first.1
  have hfree : ((a.seeToAll first.1).run c.world first.2).2.1 key = none ↔ _ :=
    Surroundings.free_iff_of_puts hround.conforms .anything
      fun _ _ _ _ hasked hv => hasked.put_of_written hv
  rw [hstore, withdrawAll_leavings_eq_none_iff ho] at hfree
  rw [hfirst, hdone, Ne, hfree, not_and]
  simp only [not_forall, not_not, exists_prop]

/-- While no archive can be had, what was abandoned is gone after a pass: nothing is created
again. -/
lemma gone_after_pass_offline (ha : s.activation = .ok a)
    (hm : UseMap.build s.recorded.versions s.spec.versions = .ok m) (hobjects : objects.WellKeyed)
    (ho : objects key = some o) (habandoned : a.Abandons m key o) :
    (s.reconcileActiveVersions.run Surroundings.offline.world (objects, ())).2.1 key = none := by
  obtain ⟨first, -, hmap, hstore, hdone⟩ :=
    run_of_faultless ha hm hobjects Surroundings.storeFaultless_offline ()
  have hunloaded : ∀ r u, first.1.get? r = some u → u.manifests = [] := by
    intro r u hu
    rw [hmap] at hu
    obtain ⟨u₀, hu₀, rfl⟩ := (m.pointwise_map fun _ u => u.givenUp).exists_of_some hu
    rw [Usage.manifests_givenUp]
    exact (UseMap.manifests_of_build hm hu₀).1
  have hfree : first.2.1 key = none := by
    rw [hstore]
    exact (withdrawAll_leavings_eq_none_iff ho).mpr habandoned
  rw [hdone]
  exact Activation.free_seeToAll Surroundings.among_offline hunloaded hfree

/-- If no request to the store fails, an object exists after a pass exactly if it was not abandoned
or the second round has written it again; it exists whatever is fetched exactly if it was not
abandoned.  That some archive which is needed lists it makes no difference. -/
theorem object_remains_iff (ha : s.activation = .ok a) (hobjects : objects.WellKeyed)
    (ho : objects key = some o) :
    ∃ m, UseMap.build s.recorded.versions s.spec.versions = .ok m ∧
      (∀ {τ : Type} (c : Surroundings τ), c.StoreFaultless → ∀ t,
        let first := (a.giveUp m).run c.world (objects, t)
        let done := s.reconcileActiveVersions.run c.world (objects, t)
        done.2.1 key ≠ none ↔ (a.Abandons m key o →
          ∃ x ∈ (a.seeToAll first.1).log c.world first.2, Effect.WritesAt key x)) ∧
      ((∀ {τ : Type} (c : Surroundings τ), c.StoreFaultless → ∀ t,
        (s.reconcileActiveVersions.run c.world (objects, t)).2.1 key ≠ none) ↔
          ¬ a.Abandons m key o) := by
  obtain ⟨m, hm, -⟩ := UseMap.build_eq_ok s.recorded.versions s.spec.versions
  refine ⟨m, hm, fun c hc t => exists_after_pass_iff ha hm hobjects ho hc t, ?_⟩
  constructor
  · intro hall habandoned
    exact hall _ Surroundings.storeFaultless_offline ()
      (gone_after_pass_offline ha hm hobjects ho habandoned)
  · intro hkept τ c hc t
    exact (exists_after_pass_iff ha hm hobjects ho hc t).mpr fun habandoned =>
      (hkept habandoned).elim

/-! ## A task of two archives -/

/-- A version that lists two archives. -/
def bothArchives : VersionSpec where
  version := "1"
  pipelines := [.ofUrl "p" "https://e.com/p.yaml", .ofUrl "q" "https://e.com/q.yaml"]

/-- The same version when it lists one of them only. -/
def oneArchive : VersionSpec where
  version := "1"
  pipelines := [.ofUrl "q" "https://e.com/q.yaml"]

/-- The record of a task under each of the archives. -/
def taskOfBoth : List VersionStatus :=
  [{ version := "1"
     pipelines := bothArchives.pipelines.map fun p => {
      name := p.id
      url := p.https.map (·.url)
      digest := p.sha256
      activeAssets := (tasksStatus [("a", none)] .active none "").versions.flatMap fun v =>
        v.pipelines.flatMap (·.activeAssets) } }]

/-- If another stack owns the task too, it remains even if the archive that is still listed cannot
be had. -/
theorem task_of_two_owners_remains :
    ((asking [oneArchive] taskOfBoth).reconcileActiveVersions.run Surroundings.offline.world
      (storeOf ["uid-java", "uid-node"], ())).2.1 taskKey ≠ none := by
  obtain ⟨m, -, -, hiff⟩ := object_remains_iff (activation_asking [oneArchive] taskOfBoth)
    (wellKeyed_storeOf ["uid-java", "uid-node"]) (Objects.set_same _ taskKey _)
  refine hiff.mpr ?_ _ Surroundings.storeFaultless_offline ()
  rintro ⟨-, hsole⟩
  have hnode : "uid-node" ∈ (taskOf ["uid-java", "uid-node"]).owners := by
    rw [owners_taskOf]
    exact List.mem_cons_of_mem _ List.mem_cons_self
  exact absurd (hsole.alone "uid-node" hnode) (by decide)

set_option maxRecDepth 100000 in
/-- After a pass in which both archives held the task it is recorded of both.  When the version
lists one of them only, and this one cannot be had, the next pass deletes the task, though it is
recorded of an archive that is needed. -/
theorem task_of_needed_archive_is_deleted :
    let first := (asking [bothArchives] []).reconcileActiveVersions.run
      (quiet (document "Task" "a")).world (fun _ => none, ())
    let assetsOf := fun status : StackStatus => status.versions.flatMap fun v =>
      v.pipelines.flatMap fun p => p.activeAssets.map fun x => (p.name, x.key, x.state)
    first.1.map assetsOf = .ok [("p", taskKey, .active), ("q", taskKey, .active)] ∧
    (first.2.1 taskKey).isSome ∧
    first.1.map (fun status =>
      (UseMap.build status.versions [oneArchive]).map fun m => m.toEnsure.map fun e =>
        (e.1, e.2.status.activeAssets.map (·.keyAt "kabanero"))) =
      .ok (.ok [(.ofUrl "https://e.com/q.yaml", [taskKey])]) ∧
    first.1.map (fun status =>
      let second := (asking [oneArchive] status.versions).reconcileActiveVersions
      let world := Surroundings.offline.world
      ((second.log world first.2).filterMap (·.1.deletedKey?),
        ((second.run world first.2).2.1 taskKey).isSome)) = .ok ([taskKey], false) := by
  decide +kernel

end Stack

end PipelineStacks
