import PipelineStacks.Proofs.Recorded

/-!
# The shape of a status

A status is made of what is asked for, of what was recorded and of the use map that a pass leaves.
`versions_build_shape` tells all of its records, in order: first one for each version that is asked
for (`VersionRecord`), then one for each recorded version that is no longer asked for while archives
still await deletion under it (`RemovedRecord`).  Such archives are recorded in the order of the map
(`Residue`), and the pipelines of an active version with the assets of their archives in the map
(`PipelineRecord`), so that pipelines that share an archive have the same assets.
-/

namespace PipelineStacks

/-! ## Archives that await deletion -/

/-- The archive was recorded under the version, no version needs it, and it still has assets. -/
structure Usage.AwaitsDeletion (u : Usage) (version : String) : Prop where
  unneeded : u.useCount ≤ 0
  assets : u.status.activeAssets ≠ []
  recorded : version ∈ u.statusVersions.keys

instance (u : Usage) (version : String) : Decidable (u.AwaitsDeletion version) :=
  decidable_of_iff (u.useCount ≤ 0 ∧ u.status.activeAssets ≠ [] ∧ version ∈ u.statusVersions.keys)
    ⟨fun h => ⟨h.1, h.2.1, h.2.2⟩, fun h => ⟨h.unneeded, h.assets, h.recorded⟩⟩

/-- Some archive awaits deletion under the version. -/
def UseMap.HoldsBack (m : UseMap) (version : String) : Prop :=
  ∃ r u, m.get? r = some u ∧ u.AwaitsDeletion version

lemma UseMap.exists_entry_iff_holdsBack {m : UseMap} {version : String} :
    (∃ e ∈ m.entries, e.2.AwaitsDeletion version) ↔ m.HoldsBack version := by
  simp only [HoldsBack, Prod.exists, SortedMap.mem_entries_iff]

instance (m : UseMap) (version : String) : Decidable (m.HoldsBack version) :=
  decidable_of_iff _ UseMap.exists_entry_iff_holdsBack

/-- The version is not asked for. -/
def StackSpec.Lacks (spec : StackSpec) (version : String) : Prop :=
  ∀ w ∈ spec.versions, w.version ≠ version

instance (spec : StackSpec) (version : String) : Decidable (spec.Lacks version) :=
  inferInstanceAs (Decidable (∀ w ∈ spec.versions, w.version ≠ version))

namespace StackStatus

/-- The records are those of all archives that await deletion under the version, each once and in
the order of the map. -/
def Residue (m : UseMap) (version : String) (pipelines : List PipelineStatus) : Prop :=
  ∃ refs : List Reference, refs.Pairwise Precedes ∧
    (∀ r, r ∈ refs ↔ ∃ u, m.get? r = some u ∧ u.AwaitsDeletion version) ∧
    List.Forall₂ (fun r p => ∃ u, m.get? r = some u ∧ p = u.status) refs pipelines

variable {spec : StackSpec} {current : StackStatus} {m : UseMap}

/-- An entry of the map is residual if it awaits deletion. -/
lemma mem_filter_toDelete_iff {version : String} {e : Reference × Usage} :
    e ∈ m.toDelete.filter (fun e =>
        e.2.statusVersions.contains version && !e.2.status.activeAssets.isEmpty) ↔
      m.get? e.1 = some e.2 ∧ e.2.AwaitsDeletion version := by
  obtain ⟨r, u⟩ := e
  rw [List.mem_filter, UseMap.mem_toDelete, Bool.and_eq_true, Bool.not_eq_true',
    List.isEmpty_eq_false_iff, SortedMap.contains_iff_mem_keys, not_lt]
  constructor
  · rintro ⟨⟨hget, hunneeded⟩, hrecorded, hassets⟩
    exact ⟨hget, hunneeded, hassets, hrecorded⟩
  · rintro ⟨hget, hunneeded, hassets, hrecorded⟩
    exact ⟨⟨hget, hunneeded⟩, hrecorded, hassets⟩

variable (m) in
/-- What is residual under a version are the archives that await deletion. -/
lemma residue_residual (version : String) : Residue m version (residual m version) := by
  refine ⟨(m.toDelete.filter fun e => e.2.statusVersions.contains version &&
    !e.2.status.activeAssets.isEmpty).map Prod.fst, ?_, fun r => ?_, ?_⟩
  · exact m.sorted.sublist ((List.filter_sublist.trans List.filter_sublist).map Prod.fst)
  · rw [List.mem_map]
    constructor
    · rintro ⟨⟨r, u⟩, he, rfl⟩
      exact ⟨u, mem_filter_toDelete_iff.mp he⟩
    · rintro ⟨u, hu⟩
      exact ⟨(r, u), mem_filter_toDelete_iff.mpr hu, rfl⟩
  · rw [residual, List.forall₂_map_left_iff, List.forall₂_map_right_iff, List.forall₂_same]
    intro e he
    exact ⟨e.2, (mem_filter_toDelete_iff.mp he).1, rfl⟩

/-- Nothing is residual if no archive awaits deletion. -/
lemma residual_eq_nil_iff {version : String} : residual m version = [] ↔ ¬ m.HoldsBack version := by
  rw [List.eq_nil_iff_forall_not_mem, UseMap.HoldsBack]
  obtain ⟨refs, -, hrefs, hrecords⟩ := residue_residual m version
  constructor
  · rintro hnone ⟨r, u, hu⟩
    obtain ⟨p, hp, -⟩ := exists_of_forall₂ hrecords ((hrefs r).mpr ⟨u, hu⟩)
    exact hnone p hp
  · intro hnone p hp
    obtain ⟨r, hr, -⟩ := exists_of_forall₂ hrecords.flip hp
    obtain ⟨u, hu⟩ := (hrefs r).mp hr
    exact hnone ⟨r, u, hu⟩

/-! ## What is recorded of one version -/

/-- The location is that of the first record of the version; without a record there is none. -/
def LocatedAs (current : StackStatus) (version : String) (location : Option String) : Prop :=
  (∃ before v after, current.versions = before ++ v :: after ∧
    (∀ w ∈ before, w.version ≠ version) ∧ v.version = version ∧ location = v.location) ∨
  (∀ w ∈ current.versions, w.version ≠ version) ∧ location = none

variable (current) in
/-- The location that is found is that of the first record. -/
lemma locatedAs_versionNamed? (version : String) :
    current.LocatedAs version ((current.versionNamed? version).bind (·.location)) := by
  unfold versionNamed?
  cases hfound : current.versions.find? (·.version = version) with
  | none =>
    refine Or.inr ⟨fun w hw => ?_, rfl⟩
    simpa using List.find?_eq_none.mp hfound w hw
  | some v =>
    obtain ⟨hv, before, after, hversions, hbefore⟩ := List.find?_eq_some_iff_append.mp hfound
    refine Or.inl ⟨before, v, after, hversions, fun w hw => ?_, by simpa using hv, rfl⟩
    simpa using hbefore w hw

/-- The record of a pipeline of an active version: its name, its source and digest, and the assets
that the map holds of its archive. -/
structure PipelineRecord (m : UseMap) (p : PipelineSpec) (q : PipelineStatus) : Prop where
  name : q.name = p.id
  url : q.url = (Reference.ofSpec p).source.url?
  gitRelease : q.gitRelease = (Reference.ofSpec p).source.release?
  digest : q.digest = p.sha256
  assets : q.activeAssets = ((m.get? (.ofSpec p)).map (·.status.activeAssets)).getD []

/-- The record of a version that is asked for. -/
structure VersionRecord (current : StackStatus) (m : UseMap) (v : VersionSpec)
    (e : VersionStatus) : Prop where
  version : e.version = v.version
  state : e.state = some v.desiredState
  location : current.LocatedAs v.version e.location
  /-- There is a message exactly if the assets of some pipeline could not be loaded. -/
  active : v.isActive → List.Forall₂ (PipelineRecord m) v.pipelines e.pipelines ∧
    (e.message ≠ none ↔ ∃ p ∈ v.pipelines, ∃ u, m.get? (.ofSpec p) = some u ∧
      u.manifestError ≠ none)
  inactive : ¬ v.isActive → Residue m v.version e.pipelines

/-- The record of a recorded version that is no longer asked for. -/
structure RemovedRecord (m : UseMap) (previous e : VersionStatus) : Prop where
  version : e.version = previous.version
  state : e.state = some .inactive
  location : e.location = previous.location
  pipelines : Residue m previous.version e.pipelines

variable (m) in
/-- A pipeline of an active version is recorded with the assets of its archive. -/
lemma pipelineRecord_activePipeline (p : PipelineSpec) :
    PipelineRecord m p (activePipeline m p) where
  name := rfl
  url := rfl
  gitRelease := rfl
  digest := rfl
  assets := by
    simp only [activePipeline]
    cases m.get? (.ofSpec p) <;> rfl

/-- The record of a pipeline is about the archive that the pipeline asks for. -/
lemma PipelineRecord.ofStatus_eq {p : PipelineSpec} {q : PipelineStatus}
    (h : PipelineRecord m p q) : Reference.ofStatus q = .ofSpec p := by
  have hsame : Reference.ofStatus q = .ofStatus (UseMap.freshStatus (.ofSpec p) p) := by
    simp only [Reference.ofStatus, h.url, h.gitRelease, h.digest]
    rfl
  rw [hsame, UseMap.ofStatus_freshStatus]

/-- Pipelines that share an archive are recorded with the same assets. -/
lemma PipelineRecord.assets_eq {p p' : PipelineSpec} {q q' : PipelineStatus}
    (h : PipelineRecord m p q) (h' : PipelineRecord m p' q')
    (hshared : Reference.ofStatus q = .ofStatus q') : q.activeAssets = q'.activeAssets := by
  rw [h.assets, h'.assets, ← h.ofStatus_eq, hshared, h'.ofStatus_eq]

/-- There is a reason to tell if the assets of the pipeline could not be loaded. -/
lemma pipelineError?_ne_none_iff {p : PipelineSpec} : pipelineError? m p ≠ none ↔
    ∃ u, m.get? (.ofSpec p) = some u ∧ u.manifestError ≠ none := by
  unfold pipelineError?
  cases m.get? (.ofSpec p) with
  | none => simp
  | some u => cases he : u.manifestError <;> simp [he]

variable (current m) in
/-- A version that is asked for is recorded as it is asked for. -/
lemma versionRecord_ofVersion (v : VersionSpec) :
    VersionRecord current m v (ofVersion current m v) := by
  unfold ofVersion
  by_cases hactive : v.isActive
  · rw [if_pos hactive]
    have hstate : v.desiredState = .active := by simpa [VersionSpec.isActive] using hactive
    refine ⟨rfl, congrArg some hstate.symm, locatedAs_versionNamed? current v.version,
      fun _ => ⟨?_, ?_⟩, fun hnot => (hnot hactive).elim⟩
    · rw [List.forall₂_map_right_iff, List.forall₂_same]
      exact fun p _ => pipelineRecord_activePipeline m p
    · have herrors : v.pipelines.filterMap (pipelineError? m) ≠ [] ↔
          ∃ p ∈ v.pipelines, pipelineError? m p ≠ none := by
        simp [List.filterMap_eq_nil_iff]
      simp only [← pipelineError?_ne_none_iff, ← herrors]
      split <;> simp_all
  · rw [if_neg hactive]
    have hstate : v.desiredState = .inactive := by
      cases hs : v.desiredState with
      | active => exact (hactive (by simp [VersionSpec.isActive, hs])).elim
      | inactive => rfl
    exact ⟨rfl, congrArg some hstate.symm, locatedAs_versionNamed? current v.version,
      fun h => (hactive h).elim, fun _ => residue_residual m v.version⟩

/-! ## All records -/

/-- A recorded version stays recorded if it is not asked for and some archive awaits deletion under
it. -/
lemma ofRemoved?_eq_none_iff {previous : VersionStatus} : ofRemoved? spec m previous = none ↔
    ¬ (spec.Lacks previous.version ∧ m.HoldsBack previous.version) := by
  have hasked : spec.versions.any (·.version = previous.version) = true ↔
      ¬ spec.Lacks previous.version := by
    simp [StackSpec.Lacks]
  rw [ofRemoved?, ite_eq_left_iff, Bool.or_eq_true, hasked, List.isEmpty_iff, residual_eq_nil_iff,
    ← not_and_or]
  simp only [reduceCtorEq, imp_false, not_not]

/-- It is recorded with the archives that await deletion. -/
lemma removedRecord_of_eq_some {previous e : VersionStatus}
    (h : ofRemoved? spec m previous = some e) : RemovedRecord m previous e := by
  unfold ofRemoved? at h
  simp only at h
  split at h
  · cases h
  · cases h
    exact ⟨rfl, rfl, rfl, residue_residual m previous.version⟩

variable (spec m) in
/-- The recorded versions that stay recorded, in order. -/
lemma forall₂_removedRecord (versions : List VersionStatus) :
    List.Forall₂ (RemovedRecord m)
      (versions.filter fun v => spec.Lacks v.version ∧ m.HoldsBack v.version)
      (versions.filterMap (ofRemoved? spec m)) := by
  induction versions with
  | nil => exact .nil
  | cons v versions ih =>
    cases hremoved : ofRemoved? spec m v with
    | none =>
      have hnot := ofRemoved?_eq_none_iff.mp hremoved
      rw [List.filterMap_cons_none hremoved, List.filter_cons_of_neg (by simpa using hnot)]
      exact ih
    | some e =>
      have hkept : spec.Lacks v.version ∧ m.HoldsBack v.version := by
        by_contra hnot
        rw [ofRemoved?_eq_none_iff.mpr hnot] at hremoved
        cases hremoved
      rw [List.filterMap_cons_some hremoved, List.filter_cons_of_pos (by simpa using hkept)]
      exact .cons (removedRecord_of_eq_some hremoved) ih

variable (spec current m) in
/-- Whatever is asked for, recorded and held by the map: the status has first one record for each
version that is asked for, in order, and after these, in recorded order, one for each recorded
version that is not asked for and under which some archive awaits deletion; there are no others.
Pipelines of active versions that share an archive are recorded with the same assets. -/
theorem versions_build_shape :
    ∃ asked retained, (build spec current m).versions = asked ++ retained ∧
      List.Forall₂ (VersionRecord current m) spec.versions asked ∧
      List.Forall₂ (RemovedRecord m)
        (current.versions.filter fun v => spec.Lacks v.version ∧ m.HoldsBack v.version) retained ∧
      ∀ e ∈ asked, ∀ e' ∈ asked, e.state = some .active → e'.state = some .active →
        ∀ q ∈ e.pipelines, ∀ q' ∈ e'.pipelines, Reference.ofStatus q = .ofStatus q' →
          q.activeAssets = q'.activeAssets := by
  have hasked : List.Forall₂ (VersionRecord current m) spec.versions
      (spec.versions.map (ofVersion current m)) := by
    rw [List.forall₂_map_right_iff, List.forall₂_same]
    exact fun v _ => versionRecord_ofVersion current m v
  refine ⟨_, _, rfl, hasked, forall₂_removedRecord spec m current.versions, ?_⟩
  -- the record of a pipeline of an active version is one of a pipeline that is asked for
  have hrecord : ∀ e ∈ spec.versions.map (ofVersion current m), e.state = some .active →
      ∀ q ∈ e.pipelines, ∃ p, PipelineRecord m p q := by
    intro e he hactive q hq
    obtain ⟨v, -, hv⟩ := exists_of_forall₂ hasked.flip he
    have hasks : v.isActive := by
      have hstate := Option.some.inj (hv.state.symm.trans hactive)
      simp [VersionSpec.isActive, hstate]
    obtain ⟨p, -, hp⟩ := exists_of_forall₂ (hv.active hasks).1.flip hq
    exact ⟨p, hp⟩
  intro e he e' he' hactive hactive' q hq q' hq' hshared
  obtain ⟨p, hp⟩ := hrecord e he hactive q hq
  obtain ⟨p', hp'⟩ := hrecord e' he' hactive' q' hq'
  exact hp.assets_eq hp' hshared

end StackStatus

end PipelineStacks
