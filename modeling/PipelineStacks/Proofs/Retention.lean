import PipelineStacks.Proofs.ObjectStore
import PipelineStacks.Proofs.Recorded

/-!
# What becomes of assets that could not be given up

An asset that could not be given up has to stay in the status: what is not recorded is not tried
again.  `listed_iff_recorded_under_lingering` says when it does.  The status keeps the leftovers of
versions that are inactive or removed, but not those of a version that stays active while its
pipelines are replaced: `leftover_of_replaced_pipeline_is_lost` is an archive that is recorded under
such a version only.
-/

namespace PipelineStacks

open UseMap

/-- The status lists an asset of an archive. -/
def StackStatus.Lists (status : StackStatus) (r : Reference) (x : AssetStatus) : Prop :=
  ∃ v ∈ status.versions, ∃ p ∈ v.pipelines, Reference.ofStatus p = r ∧ x ∈ p.activeAssets

instance (status : StackStatus) (r : Reference) (x : AssetStatus) :
    Decidable (status.Lists r x) :=
  inferInstanceAs (Decidable (∃ v ∈ status.versions, ∃ p ∈ v.pipelines,
    Reference.ofStatus p = r ∧ x ∈ p.activeAssets))

namespace Stack

open StackStatus (Lingers)

variable {σ : Type} {s : Stack} {a : Activation} {m : UseMap}

/-- What a pass leaves of an archive that is not needed is still active. -/
lemma active_of_run (world : Program.World Effect.Answer σ) (t : σ) {r : Reference} {u : Usage}
    (hu : (r, u) ∈ ((a.run m).run world t).1.toDelete) :
    ∀ x ∈ u.status.activeAssets, x.state = .active := by
  obtain ⟨hu, hcount⟩ := mem_toDelete.mp hu
  obtain ⟨u₀, -, hkept, hactive⟩ := Activation.run_forall .anything
    (Q := fun _ u u' => u.Kept u' ∧
      (¬ u.isNeeded → ∀ x ∈ u'.status.activeAssets, x.state = .active))
    (fun r u _ => by
      unfold Activation.seeTo
      split
      · next hneeded =>
        exact (a.ensure_always_kept r u).imp fun _ h => ⟨h, fun hnot => (hnot hneeded).elim⟩
      · exact (a.release_always u).imp fun _ h => ⟨h.1, fun _ => h.2.2⟩) t hu
  rw [hkept.useCount] at hcount
  exact hactive (by simpa [Usage.isNeeded] using hcount)

/-- The record of an archive that is not needed stands under a version that lingers. -/
lemma listed_iff (hm : UseMap.build s.recorded.versions s.spec.versions = .ok m)
    (world : Program.World Effect.Answer σ) (t : σ) {r : Reference} {u : Usage}
    (hu : (r, u) ∈ ((a.run m).run world t).1.toDelete) {x : AssetStatus}
    (hx : x ∈ u.status.activeAssets) :
    (StackStatus.build s.spec s.recorded ((a.run m).run world t).1).Lists r x ↔
      ∃ v ∈ s.recorded.versions, (∃ p ∈ v.pipelines, Reference.ofStatus p = r) ∧
        Lingers s.spec s.recorded v.version := by
  obtain ⟨hget, hcount⟩ := mem_toDelete.mp hu
  obtain ⟨u₀, hu₀, hkept⟩ := kept_of_run a world m t hget
  constructor
  · rintro ⟨v, hv, p, hp, rfl, -⟩
    rcases StackStatus.record_iff.mp ⟨v, hv, rfl, hp⟩ with
      ⟨w, hw, -, hactive, q, hq, rfl⟩ | ⟨hlingers, hp⟩
    · -- an active version that lists the archive needs it
      refine (hcount ?_).elim
      rw [hkept.useCount, useCount_pos_iff hm hu₀]
      exact Or.inl ⟨w, hw, hactive, q, hq, (ofStatus_freshStatus q q).symm⟩
    · obtain ⟨r', u', hu', hversion, -, rfl⟩ := StackStatus.mem_residual.mp hp
      obtain rfl := ofStatus_of_run hm a world t (mem_toDelete.mp hu').1
      obtain rfl : u' = u := Option.some.inj ((mem_toDelete.mp hu').1.symm.trans hget)
      rw [hkept.statusVersions, contains_statusVersions_of_build hm hu₀] at hversion
      obtain ⟨⟨_, p⟩, hmem, rfl⟩ := List.mem_map.mp hversion
      obtain ⟨v₀, hv₀, hp₀, hr, hname⟩ := mem_recordedUses.mp hmem
      exact ⟨v₀, hv₀, ⟨p, hp₀, hr⟩, hname ▸ hlingers⟩
  · rintro ⟨v, hv, ⟨p, hp, hr⟩, hlingers⟩
    have hversion : u.statusVersions.contains v.version := by
      rw [hkept.statusVersions, contains_statusVersions_of_build hm hu₀]
      exact List.mem_map.mpr ⟨_, mem_recordedUses.mpr ⟨v, hv, hp, hr, rfl⟩, rfl⟩
    obtain ⟨v', hv', -, hrecord⟩ := StackStatus.record_iff.mpr (Or.inr ⟨hlingers,
      StackStatus.mem_residual.mpr ⟨r, u, hu, hversion, List.ne_nil_of_mem hx, rfl⟩⟩)
    exact ⟨v', hv', _, hrecord, ofStatus_of_run hm a world t hget, hx⟩

/-- What the status lists of an archive that is not needed is in the next use map, whatever is asked
for then. -/
lemma exists_next_of_listed (hm : UseMap.build s.recorded.versions s.spec.versions = .ok m)
    (world : Program.World Effect.Answer σ) (t : σ) {r : Reference} {u : Usage}
    (hu : (r, u) ∈ ((a.run m).run world t).1.toDelete) {x : AssetStatus}
    (hlists : (StackStatus.build s.spec s.recorded ((a.run m).run world t).1).Lists r x)
    (desired : List VersionSpec) :
    ∃ m' u', UseMap.build
        (StackStatus.build s.spec s.recorded ((a.run m).run world t).1).versions desired = .ok m' ∧
      m'.get? r = some u' ∧ u'.status.activeAssets = u.status.activeAssets := by
  obtain ⟨m', hm', -⟩ := build_eq_ok
    (StackStatus.build s.spec s.recorded ((a.run m).run world t).1).versions desired
  obtain ⟨v, hv, p, hp, hr, -⟩ := hlists
  have hsome := isSome_get?_of_recorded hm' hv hp
  rw [hr] at hsome
  obtain ⟨u', hu'⟩ := Option.isSome_iff_exists.mp hsome
  refine ⟨m', u', hm', hu', ?_⟩
  rw [activeAssets_of_build hm' hu']
  rcases StackStatus.assetsAt_build (fun r u hu => ofStatus_of_run hm a world t hu) r with
    ⟨-, hnone⟩ | heq
  · exact (hnone v hv p hp hr).elim
  · rw [heq, (mem_toDelete.mp hu).1]
    rfl

/-- Whatever fails during a pass, an asset that is left of an archive that is not needed is listed
in the status exactly if the archive was recorded under a version that is now inactive or removed.
Then it is active still, and the next use map has it and holds it for something to be given up
unless the archive is asked for again or recorded twice under one name. -/
theorem listed_iff_recorded_under_lingering (ha : s.activation = .ok a)
    (world : Program.World Effect.Answer σ) (t : σ) :
    ∃ m status, UseMap.build s.recorded.versions s.spec.versions = .ok m ∧
      (s.reconcileActiveVersions.run world t).1 = .ok status ∧
      ∀ r u x, (r, u) ∈ ((a.run m).run world t).1.toDelete → x ∈ u.status.activeAssets →
        (status.Lists r x ↔
          ∃ v ∈ s.recorded.versions, (∃ p ∈ v.pipelines, Reference.ofStatus p = r) ∧
            Lingers s.spec s.recorded v.version) ∧
        (status.Lists r x → x.state = .active ∧ ∀ desired, ∃ m' u',
          UseMap.build status.versions desired = .ok m' ∧ m'.get? r = some u' ∧
            x ∈ u'.status.activeAssets ∧
            ((r, u') ∈ m'.toDelete ↔
              ¬ (∃ v ∈ desired, v.isActive ∧ ∃ p ∈ v.pipelines, Reference.ofSpec p = r) ∧
              ∀ version,
                ((recordedUses status.versions).map Prod.fst).count (r, version) ≤ 1)) := by
  obtain ⟨m, hm, -⟩ := build_eq_ok s.recorded.versions s.spec.versions
  refine ⟨m, _, hm, congrArg Prod.fst (reconcileActiveVersions_run ha world t hm), ?_⟩
  intro r u x hu hx
  refine ⟨listed_iff hm world t hu hx, fun hlists => ⟨active_of_run world t hu x hx, ?_⟩⟩
  intro desired
  obtain ⟨m', u', hm', hu', hassets⟩ := exists_next_of_listed hm world t hu hlists desired
  refine ⟨m', u', hm', hu', by rwa [hassets], ?_⟩
  rw [mem_toDelete, and_iff_right hu', useCount_pos_iff hm' hu', not_or]
  simp only [not_exists, not_lt]

/-! ## A version whose pipeline is replaced -/

/-- An asset that is recorded as active. -/
def recordedTask : AssetStatus where
  name := "a"
  namespaceName := "kabanero"
  group := "tekton.dev"
  version := "v1beta1"
  kind := "Task"
  state := .active

/-- The same asset after an attempt to give it up that failed. -/
def leftoverTask : AssetStatus :=
  { recordedTask with message := some "Unable to delete asset: timeout" }

/-- A version under which the asset is recorded. -/
def recordedVersion : VersionStatus where
  version := "1"
  pipelines := [{
    name := "default"
    url := some "https://e.com/p.yaml"
    digest := "00"
    activeAssets := [recordedTask] }]
  state := some .active

/-- The leftover of a version that was removed is listed. -/
theorem leftover_of_removed_version_is_listed :
    ∃ status,
      ((asking [] [recordedVersion]).reconcileActiveVersions.run outage ()).1 = .ok status ∧
      status.Lists (.ofUrl "https://e.com/p.yaml") leftoverTask := by
  obtain ⟨m, status, hm, hstatus, hlisted⟩ :=
    listed_iff_recorded_under_lingering (activation_asking [] [recordedVersion]) outage ()
  obtain rfl := Except.ok.inj hm
  have hmem : recordedVersion ∈ (asking [] [recordedVersion]).recorded.versions :=
    List.mem_singleton_self _
  refine ⟨status, hstatus,
    (hlisted _ _ _ (List.mem_singleton_self _) (List.mem_singleton_self _)).1.mpr ?_⟩
  refine ⟨recordedVersion, hmem, ⟨_, List.mem_singleton_self _, rfl⟩, ?_⟩
  exact Or.inr ⟨⟨recordedVersion, hmem, rfl⟩, fun w hw => by cases hw⟩

/-- The leftover of a pipeline that was replaced in a version that stays active is lost. -/
theorem leftover_of_replaced_pipeline_is_lost :
    ∃ m status, UseMap.build [recordedVersion] [.ofUrl "https://e.com/q.yaml"] = .ok m ∧
      ((asking [.ofUrl "https://e.com/q.yaml"] [recordedVersion]).reconcileActiveVersions.run
        outage ()).1 = .ok status ∧
      (((askingActivation.run m).run outage ()).1.toDelete.map fun e =>
        (e.1, e.2.status.activeAssets)) = [(.ofUrl "https://e.com/p.yaml", [leftoverTask])] ∧
      ¬ status.Lists (.ofUrl "https://e.com/p.yaml") leftoverTask := by
  refine ⟨_, _, rfl, rfl, ?_, ?_⟩
  · decide +kernel
  · decide +kernel

end Stack

end PipelineStacks
