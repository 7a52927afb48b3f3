import PipelineStacks.Proofs.Activation
import PipelineStacks.Proofs.UseCount
import PipelineStacks.Reconcile.Pass

/-!
# What a pass records

The status is written from the use map that a pass leaves.  `StackStatus.record_iff` tells its
records apart: those of pipelines that an active version lists, and those of archives that are still
to be given up, under versions that are inactive or removed (`Lingers`).  Either way the assets of a
record are those of its archive in the map (`activeAssets_eq_of_record`), and the next map starts
with them (`activeAssets_of_build`).  `reconcileActiveVersions_run` says that a pass of a stack that
can own anything yields the status of its final map.
-/

namespace PipelineStacks

/-! ## The archive of a record -/

/-- The source of an archive is recorded such that it is read again. -/
lemma Source.resolve_url?_release? (url : Option String) (release : Option GitRelease) :
    resolve (resolve url release).url? (resolve url release).release? = resolve url release := by
  unfold resolve
  cases release with
  | none => rfl
  | some g =>
    by_cases h : g.isComplete
    · simp [h, release?]
    · simp [h, url?, release?]

namespace UseMap

/-- A fresh record names the archive that was asked for. -/
lemma ofStatus_freshStatus (p q : PipelineSpec) :
    Reference.ofStatus (freshStatus (.ofSpec p) q) = .ofSpec p := by
  simp only [Reference.ofStatus, freshStatus, Reference.ofSpec, Source.resolve_url?_release?]

/-- The assets that are recorded of an archive: those of its first record. -/
def assetsAt (recorded : List VersionStatus) (r : Reference) : List AssetStatus :=
  match usesOf r (recordedUses recorded) with
  | [] => []
  | first :: _ => first.2.activeAssets

/-- What is recorded of an archive stands in one of its records. -/
lemma exists_record_of_mem_assetsAt {recorded : List VersionStatus} {r : Reference}
    {x : AssetStatus} (hx : x ∈ assetsAt recorded r) :
    ∃ v ∈ recorded, ∃ p ∈ v.pipelines, Reference.ofStatus p = r ∧ x ∈ p.activeAssets := by
  unfold assetsAt at hx
  split at hx
  · exact (List.not_mem_nil hx).elim
  · next first rest hs =>
    obtain ⟨⟨r', version⟩, p⟩ := first
    obtain ⟨hmem, rfl⟩ := mem_usesOf.mp (hs ▸ List.mem_cons_self : _ ∈ usesOf r _)
    obtain ⟨v, hv, hp, rfl, -⟩ := mem_recordedUses.mp hmem
    exact ⟨v, hv, p, hp, rfl, hx⟩

/-- The assets that are recorded of an archive are those of one of its records. -/
lemma exists_record_of_assetsAt {recorded : List VersionStatus} {v : VersionStatus}
    (hv : v ∈ recorded) {p : PipelineStatus} (hp : p ∈ v.pipelines) :
    ∃ v' ∈ recorded, ∃ p' ∈ v'.pipelines, Reference.ofStatus p' = Reference.ofStatus p ∧
      assetsAt recorded (.ofStatus p) = p'.activeAssets := by
  unfold assetsAt
  split
  · next hnone =>
    have hmem : ((.ofStatus p, v.version), p) ∈ usesOf (.ofStatus p) (recordedUses recorded) :=
      mem_usesOf.mpr ⟨mem_recordedUses.mpr ⟨v, hv, hp, rfl, rfl⟩, rfl⟩
    rw [hnone] at hmem
    cases hmem
  · next first rest hs =>
    obtain ⟨⟨r', version⟩, p'⟩ := first
    obtain ⟨hmem, hr⟩ := mem_usesOf.mp (hs ▸ List.mem_cons_self : _ ∈ usesOf (.ofStatus p) _)
    obtain ⟨v', hv', hp', rfl, -⟩ := mem_recordedUses.mp hmem
    exact ⟨v', hv', p', hp', hr, rfl⟩

section Built

variable {recorded : List VersionStatus} {desired : List VersionSpec} {m : UseMap}

/-- Every entry is about the archive that it stands under. -/
theorem ofStatus_of_build (h : build recorded desired = .ok m) {r : Reference} {u : Usage}
    (hu : m.get? r = some u) : Reference.ofStatus u.status = r := by
  rcases eq_added_of_get?_build h hu with
    ⟨first, rest, hs, rfl⟩ | ⟨hs, first, rest, -, rfl⟩
  · obtain ⟨hmem, rfl⟩ := mem_usesOf.mp (hs ▸ List.mem_cons_self : first ∈ usesOf r _)
    obtain ⟨v, -, -, hr, -⟩ := mem_recordedUses.mp hmem
    exact hr
  · obtain ⟨v, -, -, p, -, rfl⟩ := exists_desired_of_not_recorded h hu hs
    exact ofStatus_freshStatus p first.2

/-- The map starts with the recorded assets of every archive. -/
theorem activeAssets_of_build (h : build recorded desired = .ok m) {r : Reference} {u : Usage}
    (hu : m.get? r = some u) : u.status.activeAssets = assetsAt recorded r := by
  rcases eq_added_of_get?_build h hu with
    ⟨first, rest, hs, rfl⟩ | ⟨hs, first, rest, -, rfl⟩
  · rw [assetsAt, hs]
    rfl
  · rw [assetsAt, hs]
    rfl

end Built

end UseMap

/-! ## The records of a status -/

namespace StackStatus

open UseMap

/-- A version that is recorded is not asked for as active: it is asked for as inactive, or it was
removed. -/
def Lingers (spec : StackSpec) (current : StackStatus) (version : String) : Prop :=
  (∃ w ∈ spec.versions, w.version = version ∧ ¬ w.isActive) ∨
    (∃ v ∈ current.versions, v.version = version) ∧ ∀ w ∈ spec.versions, w.version ≠ version

variable {spec : StackSpec} {current : StackStatus} {m : UseMap}

/-- What is residual are the archives that are still to be given up. -/
lemma mem_residual {version : String} {p : PipelineStatus} :
    p ∈ residual m version ↔ ∃ r u, (r, u) ∈ m.toDelete ∧
      u.statusVersions.contains version ∧ u.status.activeAssets ≠ [] ∧ u.status = p := by
  simp only [residual, List.mem_map, List.mem_filter, Bool.and_eq_true, Bool.not_eq_true',
    List.isEmpty_eq_false_iff, Prod.exists]
  constructor
  · rintro ⟨r, u, ⟨hu, hversion, hassets⟩, rfl⟩
    exact ⟨r, u, hu, hversion, hassets, rfl⟩
  · rintro ⟨r, u, hu, hversion, hassets, rfl⟩
    exact ⟨r, u, ⟨hu, hversion, hassets⟩, rfl⟩

variable (current m) in
/-- A version is recorded under its name. -/
lemma version_ofVersion (v : VersionSpec) : (ofVersion current m v).version = v.version := by
  unfold ofVersion
  split <;> rfl

/-- Under a version that was removed the residual archives are recorded. -/
lemma record_ofRemoved?_iff {previous : VersionStatus} {version : String} {p : PipelineStatus} :
    (∃ v, ofRemoved? spec m previous = some v ∧ v.version = version ∧ p ∈ v.pipelines) ↔
      (∀ w ∈ spec.versions, w.version ≠ previous.version) ∧ previous.version = version ∧
        p ∈ residual m previous.version := by
  have hany : spec.versions.any (·.version = previous.version) = false ↔
      ∀ w ∈ spec.versions, w.version ≠ previous.version := by simp
  rw [← hany]
  simp only [ofRemoved?]
  constructor
  · rintro ⟨v, hv, hversion, hp⟩
    split at hv
    · cases hv
    · next hnot =>
      cases hv
      rw [Bool.or_eq_true, not_or, Bool.not_eq_true] at hnot
      exact ⟨hnot.1, hversion, hp⟩
  · rintro ⟨hnot, hversion, hp⟩
    have hne : (residual m previous.version).isEmpty = false := by
      simpa using List.ne_nil_of_mem hp
    rw [hnot, hne]
    exact ⟨_, rfl, hversion, hp⟩

/-- The records of a status are those of pipelines that an active version lists, and those of
archives that are still to be given up under versions that linger. -/
theorem record_iff {version : String} {p : PipelineStatus} :
    (∃ v ∈ (build spec current m).versions, v.version = version ∧ p ∈ v.pipelines) ↔
      (∃ w ∈ spec.versions, w.version = version ∧ w.isActive ∧
        ∃ q ∈ w.pipelines, activePipeline m q = p) ∨
      Lingers spec current version ∧ p ∈ residual m version := by
  simp only [build, List.mem_append, List.mem_map, List.mem_filterMap]
  constructor
  · rintro ⟨v, ⟨w, hw, rfl⟩ | ⟨previous, hprevious, hremoved⟩, hversion, hp⟩
    · by_cases hactive : w.isActive
      · rw [ofVersion, if_pos hactive] at hversion hp
        obtain ⟨q, hq, hp⟩ := List.mem_map.mp hp
        exact Or.inl ⟨w, hw, hversion, hactive, q, hq, hp⟩
      · rw [ofVersion, if_neg hactive] at hversion hp
        obtain rfl := hversion
        exact Or.inr ⟨Or.inl ⟨w, hw, rfl, hactive⟩, hp⟩
    · obtain ⟨hnot, rfl, hp⟩ := record_ofRemoved?_iff.mp ⟨v, hremoved, hversion, hp⟩
      exact Or.inr ⟨Or.inr ⟨⟨previous, hprevious, rfl⟩, hnot⟩, hp⟩
  · rintro (⟨w, hw, rfl, hactive, q, hq, rfl⟩ | ⟨⟨w, hw, rfl, hactive⟩ | ⟨⟨v, hv, rfl⟩, hnot⟩, hp⟩)
    · refine ⟨_, Or.inl ⟨w, hw, rfl⟩, ?_⟩
      rw [ofVersion, if_pos hactive]
      exact ⟨rfl, List.mem_map.mpr ⟨q, hq, rfl⟩⟩
    · refine ⟨_, Or.inl ⟨w, hw, rfl⟩, ?_⟩
      rw [ofVersion, if_neg hactive]
      exact ⟨rfl, hp⟩
    · obtain ⟨v', hremoved, hrecord⟩ := record_ofRemoved?_iff.mpr ⟨hnot, rfl, hp⟩
      exact ⟨v', Or.inr ⟨v, hv, hremoved⟩, hrecord⟩

/-- In a map every entry of which is about its own archive, the assets of a record are those of its
archive. -/
theorem activeAssets_eq_of_record (hm : ∀ r u, m.get? r = some u → Reference.ofStatus u.status = r)
    {v : VersionStatus} (hv : v ∈ (build spec current m).versions) {p : PipelineStatus}
    (hp : p ∈ v.pipelines) :
    p.activeAssets = ((m.get? (.ofStatus p)).map (·.status.activeAssets)).getD [] := by
  rcases record_iff.mp ⟨v, hv, rfl, hp⟩ with ⟨w, -, -, -, q, -, rfl⟩ | ⟨-, hp⟩
  · have hr : Reference.ofStatus (activePipeline m q) = .ofSpec q := ofStatus_freshStatus q q
    rw [hr, activePipeline]
    cases m.get? (.ofSpec q) <;> rfl
  · obtain ⟨r, u, hu, -, -, rfl⟩ := mem_residual.mp hp
    have hu := (mem_toDelete.mp hu).1
    rw [hm r u hu, hu]
    rfl

/-- The assets that a status records of an archive are those that the map holds, or it does not
record the archive. -/
theorem assetsAt_build (hm : ∀ r u, m.get? r = some u → Reference.ofStatus u.status = r)
    (r : Reference) :
    (assetsAt (build spec current m).versions r = [] ∧
      ∀ v ∈ (build spec current m).versions, ∀ p ∈ v.pipelines, Reference.ofStatus p ≠ r) ∨
    assetsAt (build spec current m).versions r =
      ((m.get? r).map (·.status.activeAssets)).getD [] := by
  unfold assetsAt
  cases hs : usesOf r (recordedUses (build spec current m).versions) with
  | nil =>
    refine Or.inl ⟨rfl, fun v hv p hp hr => ?_⟩
    have hmem : ((r, v.version), p) ∈ usesOf r (recordedUses (build spec current m).versions) :=
      mem_usesOf.mpr ⟨mem_recordedUses.mpr ⟨v, hv, hp, hr, rfl⟩, rfl⟩
    rw [hs] at hmem
    cases hmem
  | cons first rest =>
    have hfirst : first ∈ usesOf r (recordedUses (build spec current m).versions) := by
      rw [hs]
      exact List.mem_cons_self
    obtain ⟨⟨r', version⟩, p⟩ := first
    obtain ⟨hmem, rfl⟩ := mem_usesOf.mp hfirst
    obtain ⟨v, hv, hp, rfl, -⟩ := mem_recordedUses.mp hmem
    exact Or.inr (activeAssets_eq_of_record hm hv hp)

end StackStatus

/-! ## A pass -/

namespace Stack

variable {σ : Type} {s : Stack} {a : Activation}

/-- For whom the passes of the small stack act. -/
def askingActivation : Activation where
  owner :=
    ⟨⟨resourceKind.apiVersion, resourceKind.name, "java", "uid-java", none, none⟩, "kabanero"⟩
  target := "kabanero"
  context := (asking [] []).renderContext

lemma activation_asking (versions : List VersionSpec) (recorded : List VersionStatus) :
    (asking versions recorded).activation = .ok askingActivation := rfl

/-- What a stack acts for: itself, by its uid, and in its own namespace. -/
lemma activation_eq_ok (ha : s.activation = .ok a) :
    s.metadata.uid = some a.owner.uid ∧ s.metadata.namespaceName = some a.owner.namespaceName ∧
      a.target = a.owner.namespaceName := by
  unfold activation ownerReference? at ha
  cases hns : s.metadata.namespaceName with
  | none =>
    rw [hns] at ha
    cases ha
  | some ns =>
    rw [hns] at ha
    cases hname : s.metadata.name with
    | none =>
      rw [hname] at ha
      cases ha
    | some name =>
      cases huid : s.metadata.uid with
      | none =>
        rw [hname, huid] at ha
        cases ha
      | some uid =>
        rw [hname, huid] at ha
        cases ha
        exact ⟨rfl, rfl, rfl⟩

/-- A pass of a stack that can own anything is the pass over its map. -/
lemma reconcileActiveVersions_eq (ha : s.activation = .ok a) {m : UseMap}
    (hm : UseMap.build s.recorded.versions s.spec.versions = .ok m) :
    s.reconcileActiveVersions = (do
      let m' ← a.run m
      return .ok (.build s.spec s.recorded m')) := by
  unfold reconcileActiveVersions
  rw [ha, hm]

/-- It yields the status of its final map. -/
theorem reconcileActiveVersions_run (ha : s.activation = .ok a)
    (world : Program.World Effect.Answer σ) (t : σ) {m : UseMap}
    (hm : UseMap.build s.recorded.versions s.spec.versions = .ok m) :
    s.reconcileActiveVersions.run world t =
      (.ok (.build s.spec s.recorded ((a.run m).run world t).1), ((a.run m).run world t).2) := by
  rw [reconcileActiveVersions_eq ha hm]
  exact Program.run_bind world (a.run m) _ t

/-- The books are kept over a pass. -/
theorem kept_of_run (a : Activation) (world : Program.World Effect.Answer σ) (m : UseMap) (t : σ)
    {r : Reference} {u' : Usage} (hu' : ((a.run m).run world t).1.get? r = some u') :
    ∃ u, m.get? r = some u ∧ u.Kept u' := by
  refine Activation.run_forall .anything (Q := fun _ u u' => u.Kept u') (fun r u _ => ?_) t hu'
  unfold Activation.seeTo
  split
  · exact a.ensure_always_kept r u
  · exact (a.release_always u).imp fun _ h => h.1

/-- After a pass every entry of the map is still about the archive that it stands under. -/
lemma ofStatus_of_run {recorded : List VersionStatus} {desired : List VersionSpec} {m : UseMap}
    (hm : UseMap.build recorded desired = .ok m) (a : Activation)
    (world : Program.World Effect.Answer σ) (t : σ) {r : Reference} {u : Usage}
    (hu : ((a.run m).run world t).1.get? r = some u) : Reference.ofStatus u.status = r := by
  obtain ⟨u₀, hu₀, hkept⟩ := kept_of_run a world m t hu
  rw [hkept.reference, UseMap.ofStatus_of_build hm hu₀]

/-- In a pass in which every fetch of an archive succeeds, what is recorded of it, if it is asked
for, are the assets that were recorded, or all of it if none were. -/
theorem keys_of_served_pass {s : Stack} {a : Activation} (ha : s.activation = .ok a)
    {world : Program.World Effect.Answer σ} {r : Reference} {raw : Bytes}
    (hworld : world.Admits (Effect.ServedAt r.source raw)) {t : σ} {status : StackStatus}
    (hrun : (s.reconcileActiveVersions.run world t).1 = .ok status) {found : List Asset}
    (hfound : ∀ name, assetsIn (fun _ => raw) r name (a.contextFor r) = .ok found)
    (hasked : ∃ v ∈ s.spec.versions, v.isActive ∧ ∃ p ∈ v.pipelines, Reference.ofSpec p = r)
    {v : VersionStatus} (hv : v ∈ status.versions) {q : PipelineStatus} (hq : q ∈ v.pipelines)
    (hr : Reference.ofStatus q = r) :
    q.activeAssets.map (·.keyAt a.target) =
      if UseMap.assetsAt s.recorded.versions r = [] then found.map (·.key a.target)
      else (UseMap.assetsAt s.recorded.versions r).map (·.keyAt a.target) := by
  obtain ⟨m, hm, -⟩ := UseMap.build_eq_ok s.recorded.versions s.spec.versions
  rw [reconcileActiveVersions_run ha world t hm] at hrun
  obtain rfl := Except.ok.inj hrun
  obtain ⟨w, hw, hactive, p, hp, rfl⟩ := hasked
  obtain ⟨u, hu⟩ := Option.isSome_iff_exists.mp (UseMap.isSome_get?_of_desired hm hw hactive hp)
  obtain ⟨t', hget⟩ := a.get?_run (.ofSpec p) world m t
  have hneeded := UseMap.isNeeded_of_asked hm hu ⟨w, hw, hactive, p, hp, rfl⟩
  have hassets : q.activeAssets =
      ((a.ensure (.ofSpec p) u).run world t').1.status.activeAssets := by
    rw [StackStatus.activeAssets_eq_of_record
      (fun r u hu => ofStatus_of_run hm a world t hu) hv hq, hr, hget, hu]
    simp [Activation.seeTo, hneeded]
  rw [hassets, ← UseMap.activeAssets_of_build hm hu]
  by_cases hempty : u.status.activeAssets = []
  · obtain ⟨-, result, rfl, hkeys⟩ :=
      (a.ensure_always_of_empty _ hempty getManifests_always_servedAt).run hworld t'
    rw [hfound] at hkeys
    rw [if_pos hempty, hkeys]
  · rw [if_neg hempty]
    exact ((a.ensure_always_of_recorded (.ofSpec p) hempty).run hworld t').2

end Stack

end PipelineStacks
