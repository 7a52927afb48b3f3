import PipelineStacks.Proofs.Reach
import PipelineStacks.Proofs.Retention
import PipelineStacks.Proofs.SharedAssets
import PipelineStacks.Proofs.Sightings

/-!
# Is what was applied released?

Spec versions with different names and different archives make for records in which every use
stands once (`StackStatus.Orderly`).  With these an archive is needed exactly if it is asked for,
and so a pass in which no request to the store fails gives up what is reported as active and no
longer listed (`holds_after_faultless_pass`).

A stack goes through many passes (`Stack.Career`), and what is released hangs on the latest status
alone.  Whether an object that was reported once is still reported then hangs on whether it was
seen: a failed look-up takes the report back, and so does an attempt to give the object up that
fails under a version that stays active.  `released_unless_lapsed` says that these are, with objects
that are created in place of others, the only ways for an object to be left.
-/

namespace PipelineStacks

open UseMap
open Program (Exchange)

/-! ## Orderly records -/

/-- Versions have different names, and a version lists different archives. -/
structure StackSpec.Distinct (spec : StackSpec) : Prop where
  names : (spec.versions.map (·.version)).Nodup
  archives : ∀ v ∈ spec.versions, (v.pipelines.map Reference.ofSpec).Nodup

namespace StackStatus

/-- Versions have different names, a version has different archives, and of an archive the same is
recorded everywhere. -/
structure Orderly (status : StackStatus) : Prop where
  names : (status.versions.map (·.version)).Nodup
  archives : ∀ v ∈ status.versions, (v.pipelines.map Reference.ofStatus).Nodup
  assets : ∀ v ∈ status.versions, ∀ p ∈ v.pipelines,
    p.activeAssets = assetsAt status.versions (.ofStatus p)

lemma orderly_empty : Orderly {} where
  names := List.nodup_nil
  archives _ hv := (List.not_mem_nil hv).elim
  assets _ hv := (List.not_mem_nil hv).elim

/-- No use of an archive is recorded twice. -/
lemma Orderly.nodup_uses {status : StackStatus} (h : status.Orderly) :
    ((recordedUses status.versions).map Prod.fst).Nodup := by
  unfold recordedUses
  rw [List.map_flatMap, List.nodup_flatMap]
  refine ⟨fun v hv => ?_, ?_⟩
  · refine List.Nodup.of_map Prod.fst ?_
    rw [List.map_map, List.map_map]
    exact h.archives v hv
  · refine (List.pairwise_map.mp h.names).imp fun {v w} hne => ?_
    refine List.disjoint_left.mpr fun use hv hw => hne ?_
    simp only [List.map_map, List.mem_map] at hv hw
    obtain ⟨p, -, hp⟩ := hv
    obtain ⟨q, -, hq⟩ := hw
    exact congrArg Prod.snd (hp.trans hq.symm)

/-- With such records an archive is needed exactly if it is asked for. -/
lemma Orderly.isNeeded_iff {status : StackStatus} (h : status.Orderly)
    {desired : List VersionSpec} {m : UseMap} (hm : UseMap.build status.versions desired = .ok m)
    {r : Reference} {u : Usage} (hu : m.get? r = some u) : 0 < u.useCount ↔ Asked desired r := by
  rw [useCount_pos_iff hm hu]
  refine or_iff_left ?_
  rintro ⟨version, hrepeated⟩
  exact absurd (List.nodup_iff_count_le_one.mp h.nodup_uses (r, version)) hrepeated.not_ge

variable {spec : StackSpec} {current : StackStatus} {m : UseMap}

/-- The versions that are recorded without being asked for. -/
lemma ofRemoved?_eq_some {previous v : VersionStatus} (h : ofRemoved? spec m previous = some v) :
    v.version = previous.version ∧ v.pipelines = residual m previous.version ∧
      ∀ w ∈ spec.versions, w.version ≠ previous.version := by
  unfold ofRemoved? at h
  simp only at h
  split at h
  · cases h
  · next hnot =>
    cases h
    simp only [Bool.or_eq_true, not_or, List.any_eq_true, decide_eq_true_eq, not_exists,
      not_and] at hnot
    exact ⟨rfl, rfl, hnot.1⟩

/-- The residual archives are different. -/
lemma nodup_residual (hm : ∀ r u, m.get? r = some u → Reference.ofStatus u.status = r)
    (version : String) : ((residual m version).map Reference.ofStatus).Nodup := by
  have hkeys : (residual m version).map Reference.ofStatus =
      (m.toDelete.filter fun e =>
        e.2.statusVersions.contains version && !e.2.status.activeAssets.isEmpty).map Prod.fst := by
    rw [residual, List.map_map]
    refine List.map_congr_left fun e he => ?_
    exact hm e.1 e.2 (mem_toDelete.mp (List.mem_of_mem_filter he)).1
  rw [hkeys]
  exact m.keys_nodup.sublist ((List.filter_sublist.trans List.filter_sublist).map Prod.fst)

/-- A pass leaves orderly records. -/
theorem Orderly.build (hm : ∀ r u, m.get? r = some u → Reference.ofStatus u.status = r)
    (hspec : spec.Distinct) (hcurrent : current.Orderly) : (build spec current m).Orderly where
  names := by
    change ((spec.versions.map (ofVersion current m) ++
      current.versions.filterMap (ofRemoved? spec m)).map (·.version)).Nodup
    rw [List.map_append, List.map_map, List.nodup_append]
    refine ⟨?_, ?_, ?_⟩
    · rw [show (fun v : VersionStatus => v.version) ∘ ofVersion current m = VersionSpec.version from
        funext (version_ofVersion current m)]
      exact hspec.names
    · rw [List.Nodup, List.pairwise_map]
      refine (List.pairwise_map.mp hcurrent.names).filterMap _ ?_
      intro v w hne v' hv' w' hw'
      rw [(ofRemoved?_eq_some hv').1, (ofRemoved?_eq_some hw').1]
      exact hne
    · intro name hname name' hname' heq
      obtain ⟨w, hw, rfl⟩ := List.mem_map.mp hname
      obtain ⟨v', hv', rfl⟩ := List.mem_map.mp hname'
      obtain ⟨previous, -, hremoved⟩ := List.mem_filterMap.mp hv'
      obtain ⟨hsame, -, hnot⟩ := ofRemoved?_eq_some hremoved
      exact hnot w hw ((version_ofVersion current m w).symm.trans (heq.trans hsame))
  archives v hv := by
    rcases List.mem_append.mp hv with hv | hv
    · obtain ⟨w, hw, rfl⟩ := List.mem_map.mp hv
      unfold ofVersion
      split
      · rw [List.map_map, show Reference.ofStatus ∘ activePipeline m = Reference.ofSpec from
          funext fun q => ofStatus_freshStatus q q]
        exact hspec.archives w hw
      · exact nodup_residual hm _
    · obtain ⟨previous, -, hremoved⟩ := List.mem_filterMap.mp hv
      rw [(ofRemoved?_eq_some hremoved).2.1]
      exact nodup_residual hm _
  assets v hv p hp := by
    rw [activeAssets_eq_of_record hm hv hp]
    rcases @assetsAt_build spec current m hm (.ofStatus p) with ⟨-, hnone⟩ | heq
    · exact (hnone v hv p hp rfl).elim
    · exact heq.symm

/-- The status reports the object under the key as active. -/
def Reports (status : StackStatus) (target : String) (key : ObjectKey) : Prop :=
  ∃ v ∈ status.versions, ∃ p ∈ v.pipelines, ∃ x ∈ p.activeAssets, x.ActiveAt target key

instance (status : StackStatus) (target : String) (key : ObjectKey) :
    Decidable (status.Reports target key) :=
  inferInstanceAs (Decidable (∃ v ∈ status.versions, ∃ p ∈ v.pipelines, ∃ x ∈ p.activeAssets,
    x.ActiveAt target key))

/-- What the map holds of an archive that is asked for is listed. -/
lemma lists_of_asked {r : Reference} {u : Usage} (hasked : Asked spec.versions r)
    (hu : m.get? r = some u) {x : AssetStatus} (hx : x ∈ u.status.activeAssets) :
    (StackStatus.build spec current m).Lists r x := by
  obtain ⟨w, hw, hactive, q, hq, rfl⟩ := hasked
  obtain ⟨v, hv, -, hp⟩ := record_iff.mpr (Or.inl ⟨w, hw, rfl, hactive, q, hq, rfl⟩)
  refine ⟨v, hv, _, hp, ofStatus_freshStatus q q, ?_⟩
  rw [activePipeline, hu]
  exact hx

end StackStatus

namespace Stack

variable {s : Stack} {a : Activation} {m : UseMap} {key : ObjectKey} {objects : Objects}
  {τ : Type} {c : Surroundings τ}

/-! ## One pass -/

/-- What a pass asks: first what is asked to give objects up, and then what is asked to see to
assets. -/
lemma log_reconcileActiveVersions {σ : Type} (ha : s.activation = .ok a)
    (world : Program.World Effect.Answer σ) (t : σ)
    (hm : UseMap.build s.recorded.versions s.spec.versions = .ok m) :
    s.reconcileActiveVersions.log world t = (a.giveUp m).log world t ++
      (a.seeToAll ((a.giveUp m).run world t).1).log world ((a.giveUp m).run world t).2 := by
  rw [reconcileActiveVersions_eq ha hm, Activation.run_eq, Program.log_bind, Program.log_bind]
  exact List.append_nil _

/-- What the second round sees is active in the status, under an archive that is asked for. -/
lemma exists_listed_of_seen {σ : Type} (hrecorded : s.recorded.Orderly)
    (hm : UseMap.build s.recorded.versions s.spec.versions = .ok m)
    {world : Program.World Effect.Answer σ} {t : σ}
    (hseen : ∃ x ∈ (a.seeToAll ((a.giveUp m).run world t).1).log world
      ((a.giveUp m).run world t).2, Effect.Sights key x) :
    ∃ r x, Asked s.spec.versions r ∧ x.ActiveAt a.target key ∧
      (StackStatus.build s.spec s.recorded ((a.run m).run world t).1).Lists r x := by
  obtain ⟨⟨r, u⟩, hu, x, hx, hactive⟩ := a.tells_seeToAll _ _ hseen
  rw [← Program.run_bind, ← Activation.run_eq, mem_toEnsure] at hu
  obtain ⟨hget, hcount⟩ := hu
  obtain ⟨u₀, hu₀, hkept⟩ := kept_of_run a world m t hget
  rw [hkept.useCount, hrecorded.isNeeded_iff hm hu₀] at hcount
  exact ⟨r, x, hcount, hactive, StackStatus.lists_of_asked hcount hget hx⟩

/-- What the status does not report was not seen in the second round. -/
lemma unseen_of_unreported {σ : Type} (hrecorded : s.recorded.Orderly)
    (hm : UseMap.build s.recorded.versions s.spec.versions = .ok m)
    {world : Program.World Effect.Answer σ} {t : σ}
    (hunreported : ¬ (StackStatus.build s.spec s.recorded
      ((a.run m).run world t).1).Reports a.target key) :
    ∀ x ∈ (a.seeToAll ((a.giveUp m).run world t).1).log world ((a.giveUp m).run world t).2,
      ¬ Effect.Sights key x := by
  intro y hy hsights
  obtain ⟨r, x, -, hactive, v, hv, p, hp, -, hx⟩ :=
    exists_listed_of_seen hrecorded hm ⟨y, hy, hsights⟩
  exact hunreported ⟨v, hv, p, hp, x, hx, hactive⟩

variable (key) in
/-- If only look-ups fail in a pass, an object that carries the uid after it and that the status
does not report as active was created, or it carried the uid before and was not seen. -/
theorem made_or_unseen_of_unreported (ha : s.activation = .ok a) (hrecorded : s.recorded.Orderly)
    (hc : c.OnlyLooksFail) (hobjects : objects.WellKeyed) {t : τ} {status : StackStatus}
    (hrun : (s.reconcileActiveVersions.run c.world (objects, t)).1 = .ok status)
    (hunreported : ¬ status.Reports a.target key)
    (hholds : (s.reconcileActiveVersions.run c.world (objects, t)).2.1.Holds a.owner.uid key) :
    (∃ x ∈ s.reconcileActiveVersions.log c.world (objects, t),
      Effect.Makes a.owner.uid key x) ∨
    objects.Holds a.owner.uid key ∧
      ∀ x ∈ s.reconcileActiveVersions.log c.world (objects, t), ¬ Effect.Sights key x := by
  obtain ⟨m, hm, -⟩ := UseMap.build_eq_ok s.recorded.versions s.spec.versions
  rw [log_reconcileActiveVersions ha c.world (objects, t) hm]
  rw [reconcileActiveVersions_run ha c.world (objects, t) hm] at hrun hholds
  obtain rfl := Except.ok.inj hrun
  rw [Activation.run_eq, Program.run_bind] at hholds
  have hunseen := unseen_of_unreported hrecorded hm hunreported
  have hkeyed := Surroundings.wellKeyed_run (c := c) (a.giveUp m) (s := (objects, t)) hobjects
  rcases (a.holds_seeToAll_iff _ hkeyed hunseen).mp hholds with hbetween | ⟨x, hx, hmakes⟩
  · obtain ⟨hbefore, hunseen'⟩ := Activation.frees_giveUp hc a m (objects, t) hobjects hbetween
    exact Or.inr ⟨hbefore, List.forall_mem_append.mpr ⟨hunseen', hunseen⟩⟩
  · exact Or.inl ⟨x, List.mem_append_right _ hx, hmakes⟩

/-- What is recorded of an archive that is asked for stays listed. -/
lemma exists_listed_of_recorded {σ : Type}
    (hm : UseMap.build s.recorded.versions s.spec.versions = .ok m)
    (world : Program.World Effect.Answer σ) (t : σ) {r : Reference} {u : Usage}
    (hasked : Asked s.spec.versions r) (hu : m.get? r = some u) {x : AssetStatus}
    (hx : x ∈ u.status.activeAssets) :
    ∃ y, (StackStatus.build s.spec s.recorded ((a.run m).run world t).1).Lists r y ∧
      y.keyAt a.target = x.keyAt a.target := by
  obtain ⟨t', hget⟩ := a.get?_run r world m t
  rw [hu, Option.map_some, Activation.seeTo, if_pos (isNeeded_of_asked hm hu hasked)] at hget
  obtain ⟨-, hkeys⟩ :=
    (a.ensure_always_of_recorded r (List.ne_nil_of_mem hx)).run .anything t'
  obtain ⟨y, hy, hkey⟩ := List.mem_map.mp (hkeys ▸ List.mem_map_of_mem hx)
  exact ⟨y, StackStatus.lists_of_asked hasked hget hy, hkey⟩

/-- If no archive that is asked for lists the object then, a pass gives it up exactly if it is
reported. -/
lemma mem_leavings_iff_reports {σ : Type} (hrecorded : s.recorded.Orderly)
    (hm : UseMap.build s.recorded.versions s.spec.versions = .ok m)
    {world : Program.World Effect.Answer σ} {t : σ}
    (hunlisted : ∀ r x, Asked s.spec.versions r →
      (StackStatus.build s.spec s.recorded ((a.run m).run world t).1).Lists r x →
        x.keyAt a.target ≠ key) :
    key ∈ m.leavings a.target ↔ s.recorded.Reports a.target key := by
  rw [mem_leavings_iff]
  constructor
  · rintro ⟨r, u, hu, x, hx, hactive⟩
    rw [activeAssets_of_build hm (mem_toDelete.mp hu).1] at hx
    obtain ⟨v, hv, p, hp, -, hrecord⟩ := exists_record_of_mem_assetsAt hx
    exact ⟨v, hv, p, hp, x, hrecord, hactive⟩
  · rintro ⟨v, hv, p, hp, x, hx, hactive⟩
    obtain ⟨u, hu⟩ := Option.isSome_iff_exists.mp (isSome_get?_of_recorded hm hv hp)
    rw [hrecorded.assets v hv p hp, ← activeAssets_of_build hm hu] at hx
    refine ⟨.ofStatus p, u, mem_toDelete.mpr ⟨hu, fun hcount => ?_⟩, x, hx, hactive⟩
    rw [hrecorded.isNeeded_iff hm hu] at hcount
    obtain ⟨y, hlists, hkey⟩ := exists_listed_of_recorded hm world t hcount hu hx
    exact hunlisted _ y hcount hlists (hkey.trans hactive.2)

/-- If no request to the store fails in a pass, and no archive that is asked for lists the object
then, the object carries the uid after the pass exactly if it was created, or if it carried the uid
before and was not reported. -/
theorem holds_after_faultless_pass (ha : s.activation = .ok a) (hrecorded : s.recorded.Orderly)
    (hc : c.StoreFaultless) (hobjects : objects.WellKeyed) {t : τ} {status : StackStatus}
    (hrun : (s.reconcileActiveVersions.run c.world (objects, t)).1 = .ok status)
    (hunlisted : ∀ r x, Asked s.spec.versions r → status.Lists r x → x.keyAt a.target ≠ key) :
    (s.reconcileActiveVersions.run c.world (objects, t)).2.1.Holds a.owner.uid key ↔
      (∃ x ∈ s.reconcileActiveVersions.log c.world (objects, t),
        Effect.Makes a.owner.uid key x) ∨
      objects.Holds a.owner.uid key ∧ ¬ s.recorded.Reports a.target key := by
  obtain ⟨m, hm, -⟩ := UseMap.build_eq_ok s.recorded.versions s.spec.versions
  obtain ⟨first, hfirst, -, hstore, hdone⟩ := run_of_faultless ha hm hobjects hc t
  rw [reconcileActiveVersions_run ha c.world (objects, t) hm] at hrun
  obtain rfl := Except.ok.inj hrun
  have hunseen : ∀ x ∈ (a.seeToAll first.1).log c.world first.2, ¬ Effect.Sights key x := by
    intro y hy hsights
    rw [← hfirst] at hy
    obtain ⟨r, x, hasked, hactive, hlists⟩ := exists_listed_of_seen hrecorded hm ⟨y, hy, hsights⟩
    exact hunlisted r x hasked hlists hactive.2
  have hkeyed : first.2.1.WellKeyed := hfirst ▸ Surroundings.wellKeyed_run (a.giveUp m) hobjects
  have hmakes : (∃ x ∈ s.reconcileActiveVersions.log c.world (objects, t),
      Effect.Makes a.owner.uid key x) ↔
        ∃ x ∈ (a.seeToAll first.1).log c.world first.2, Effect.Makes a.owner.uid key x := by
    rw [log_reconcileActiveVersions ha c.world (objects, t) hm, hfirst]
    simp only [List.mem_append, or_and_right, exists_or]
    refine or_iff_right ?_
    rintro ⟨x, hx, hmakes⟩
    exact Activation.not_makes_giveUp a m x hx hmakes
  rw [hdone, a.holds_seeToAll_iff first.1 hkeyed hunseen, hmakes, hstore,
    Owner.holds_withdrawAll_iff, mem_leavings_iff_reports hrecorded hm hunlisted, or_comm]

/-! ## Many passes -/

/-- A pass that is over: what it asked, and the status that it yielded. -/
structure Passed where
  log : List (Exchange Effect.Answer)
  status : StackStatus

/-- What a stack can go through, the latest pass first, with what is recorded and what is in the
store then.  The spec may be another one for every pass, and only look-ups fail.  Between passes
others may do what they like to the store but to give the uid to an object. -/
inductive Career (s : Stack) (uid : String) : List Passed → StackStatus → Objects → Prop
  | start {recorded : StackStatus} {objects : Objects} (hrecorded : recorded.Orderly)
      (hobjects : objects.WellKeyed) : Career s uid [] recorded objects
  | pass {past : List Passed} {recorded : StackStatus} {objects : Objects}
      (h : Career s uid past recorded objects) {τ : Type} {c : Surroundings τ}
      (hc : c.OnlyLooksFail) (t : τ) {spec : StackSpec} (hspec : spec.Distinct)
      {status : StackStatus}
      (hrun : ((s.amended spec recorded).reconcileActiveVersions.run c.world (objects, t)).1 =
        .ok status) :
      Career s uid
        (⟨(s.amended spec recorded).reconcileActiveVersions.log c.world (objects, t), status⟩ ::
          past) status
        ((s.amended spec recorded).reconcileActiveVersions.run c.world (objects, t)).2.1
  | meanwhile {past : List Passed} {recorded : StackStatus} {objects objects' : Objects}
      (h : Career s uid past recorded objects) (hobjects : objects'.WellKeyed)
      (hholds : ∀ key, objects'.Holds uid key → objects.Holds uid key) :
      Career s uid past recorded objects'

/-- The report of an object has lapsed: the latest passes neither saw it nor report it, and the pass
before them does not report it either, though it created the object, or though it was reported
before and this pass did not see it. -/
inductive Lapsed (uid target : String) (key : ObjectKey) : List Passed → Prop
  | made {x : Passed} {past : List Passed} (hunreported : ¬ x.status.Reports target key)
      (hmade : ∃ e ∈ x.log, Effect.Makes uid key e) : Lapsed uid target key (x :: past)
  | missed {x y : Passed} {past : List Passed} (hunreported : ¬ x.status.Reports target key)
      (hunseen : ∀ e ∈ x.log, ¬ Effect.Sights key e) (hreported : y.status.Reports target key) :
      Lapsed uid target key (x :: y :: past)
  | since {x : Passed} {past : List Passed} (hunreported : ¬ x.status.Reports target key)
      (hunseen : ∀ e ∈ x.log, ¬ Effect.Sights key e) (h : Lapsed uid target key past) :
      Lapsed uid target key (x :: past)

variable {uid : String} {past : List Passed} {spec : StackSpec} {recorded : StackStatus}

/-- Whatever a stack asks for and has recorded, it acts for the same owner. -/
lemma exists_activation_of_metadata (ha : s.activation = .ok a) (s' : Stack)
    (hmetadata : s'.metadata = s.metadata) : ∃ a', s'.activation = .ok a' ∧
      a'.owner = a.owner ∧ a'.target = a.target := by
  unfold activation at ha
  split at ha
  · cases ha
  · cases ha
  · next ns reference hns hreference =>
    cases ha
    refine ⟨⟨⟨reference, ns⟩, ns, s'.renderContext⟩, ?_, rfl, rfl⟩
    have hreference' : s'.ownerReference? = some reference := by
      rw [← hreference, ownerReference?, ownerReference?, hmetadata]
    rw [activation, hmetadata, hns, hreference']

/-- From orderly records a pass with a distinct spec leads to orderly records. -/
lemma orderly_of_run (ha : s.activation = .ok a) (hrecorded : s.recorded.Orderly)
    (hspec : s.spec.Distinct) {σ : Type} {world : Program.World Effect.Answer σ} {t : σ}
    {status : StackStatus} (hrun : (s.reconcileActiveVersions.run world t).1 = .ok status) :
    status.Orderly := by
  obtain ⟨m, hm, -⟩ := UseMap.build_eq_ok s.recorded.versions s.spec.versions
  rw [reconcileActiveVersions_run ha world t hm] at hrun
  obtain rfl := Except.ok.inj hrun
  exact hrecorded.build (fun r u hu => ofStatus_of_run hm a world t hu) hspec

/-- What is recorded is orderly, and objects are under their own names. -/
lemma Career.orderly (ha : s.activation = .ok a) (h : s.Career uid past recorded objects) :
    recorded.Orderly ∧ objects.WellKeyed := by
  induction h with
  | start hrecorded hobjects => exact ⟨hrecorded, hobjects⟩
  | @pass past recorded objects h τ c hc t spec hspec status hrun ih =>
    obtain ⟨a', ha', -⟩ := exists_activation_of_metadata ha (s.amended spec recorded) rfl
    exact ⟨orderly_of_run ha' ih.1 hspec hrun, Surroundings.wellKeyed_run _ ih.2⟩
  | meanwhile h hobjects hholds ih => exact ⟨ih.1, hobjects⟩

/-- What is recorded is the status of the latest pass. -/
lemma Career.recorded_eq (h : s.Career uid past recorded objects) :
    ∀ x ∈ past.head?, x.status = recorded := by
  induction h with
  | start hrecorded hobjects => simp
  | pass h hc t hspec hrun ih => simp
  | meanwhile h hobjects hholds ih => exact ih

/-- What has lapsed is not reported any more. -/
lemma Career.unreported_of_lapsed (h : s.Career uid past recorded objects) {target : String}
    (hlapsed : Lapsed uid target key past) : ¬ recorded.Reports target key := by
  have hrecorded := h.recorded_eq
  cases hlapsed with
  | made hunreported hmade => exact hrecorded _ rfl ▸ hunreported
  | missed hunreported hunseen hreported => exact hrecorded _ rfl ▸ hunreported
  | since hunreported hunseen hlapsed => exact hrecorded _ rfl ▸ hunreported

/-- If an object still carries the uid and is not reported, though it was once, its report has
lapsed. -/
theorem Career.lapsed (ha : s.activation = .ok a) (h : s.Career a.owner.uid past recorded objects)
    (hreported : ∃ x ∈ past, x.status.Reports a.target key)
    (hholds : objects.Holds a.owner.uid key) (hunreported : ¬ recorded.Reports a.target key) :
    Lapsed a.owner.uid a.target key past := by
  induction h with
  | start hrecorded hobjects =>
    obtain ⟨x, hx, -⟩ := hreported
    exact (List.not_mem_nil hx).elim
  | @pass past recorded objects h τ c hc t spec hspec status hrun ih =>
    obtain ⟨a', ha', howner, htarget⟩ :=
      exists_activation_of_metadata ha (s.amended spec recorded) rfl
    obtain ⟨hrecorded, hobjects⟩ := h.orderly ha
    have hcases := made_or_unseen_of_unreported key ha' hrecorded hc hobjects hrun
    rw [howner, htarget] at hcases
    rcases hcases hunreported hholds with hmade | ⟨hbefore, hunseen⟩
    · exact .made hunreported hmade
    · obtain ⟨x, hx, hreport⟩ := hreported
      rcases List.mem_cons.mp hx with rfl | hx
      · exact (hunreported hreport).elim
      · by_cases hstill : recorded.Reports a.target key
        · obtain ⟨y, past', rfl⟩ := List.exists_cons_of_ne_nil (List.ne_nil_of_mem hx)
          exact .missed hunreported hunseen (h.recorded_eq y rfl ▸ hstill)
        · exact .since hunreported hunseen (ih ⟨x, hx, hreport⟩ hbefore hstill)
  | meanwhile h hobjects hkept ih => exact ih hreported (hkept key hholds) hunreported

/-- An object that some pass reported as active is released by a later pass in which no request to
the store fails, if no archive that is asked for lists it then: unless this pass creates it, it
carries the uid of the stack after the pass exactly if it carried it before and its report has
lapsed. -/
theorem released_unless_lapsed (ha : s.activation = .ok a)
    (h : s.Career a.owner.uid past recorded objects)
    (hreported : ∃ x ∈ past, x.status.Reports a.target key) (spec : StackSpec)
    (hc : c.StoreFaultless) (t : τ) :
    let pass := (s.amended spec recorded).reconcileActiveVersions
    ∃ status, (pass.run c.world (objects, t)).1 = .ok status ∧
      ((∀ r x, Asked spec.versions r → status.Lists r x → x.keyAt a.target ≠ key) →
        ((pass.run c.world (objects, t)).2.1.Holds a.owner.uid key ↔
          (∃ e ∈ pass.log c.world (objects, t), Effect.Makes a.owner.uid key e) ∨
          objects.Holds a.owner.uid key ∧ Lapsed a.owner.uid a.target key past)) := by
  intro pass
  obtain ⟨a', ha', howner, htarget⟩ :=
    exists_activation_of_metadata ha (s.amended spec recorded) rfl
  obtain ⟨hrecorded, hobjects⟩ := h.orderly ha
  obtain ⟨m, hm, -⟩ := UseMap.build_eq_ok recorded.versions spec.versions
  have hrun := congrArg Prod.fst (reconcileActiveVersions_run ha' c.world (objects, t) hm)
  refine ⟨_, hrun, fun hunlisted => ?_⟩
  rw [← htarget] at hunlisted
  have hpass := holds_after_faultless_pass ha' hrecorded hc hobjects hrun hunlisted
  rw [howner, htarget] at hpass
  rw [hpass]
  refine or_congr_right (and_congr_right fun hholds => ?_)
  exact ⟨h.lapsed ha hreported hholds, h.unreported_of_lapsed⟩

/-! ## A task that cannot be looked up once -/

/-- What is recorded of the task after a pass. -/
def taskStatus (state : AssetState) (message : Option String) : StackStatus where
  versions := [{
    version := "1"
    pipelines := [{
      name := "default"
      url := some "https://e.com/p.yaml"
      digest := "00"
      activeAssets := [{
        name := "a"
        namespaceName := "kabanero"
        group := taskKind.group
        version := taskKind.version
        kind := taskKind.name
        digest := "0d6a8707ba1a149dfd03f9d2cf28d030560db5e1e7fce265317b03dbe9e1fbe0"
        state
        message }] }]
    state := some .active }]
  summary := some "1 active versions, 0 failed assets"

/-- The task was there when it was looked up. -/
def checkedStatus : StackStatus :=
  taskStatus .active none

lemma reports_checkedStatus : checkedStatus.Reports "kabanero" taskKey := by decide +kernel

/-- The task could not be looked up. -/
def uncheckedStatus : StackStatus :=
  taskStatus .unknown (some "Unable to check asset: timeout")

/-- A version that lists the archive of the task. -/
def taskSpec : StackSpec where
  versions := [.ofUrl "https://e.com/p.yaml"]

/-- What is in the store after a pass that asks for the task. -/
def storeAfter (c : Surroundings Unit) (recorded : StackStatus) (objects : Objects) : Objects :=
  (((asking [] []).amended taskSpec recorded).reconcileActiveVersions.run c.world
    (objects, ())).2.1

/-- The surroundings of the task while nothing fails. -/
def clear : Surroundings Unit :=
  quiet (document "Task" "a")

/-- The surroundings of the task while nothing can be looked up. -/
def blind : Surroundings Unit :=
  .serving (document "Task" "a") Effect.isLook

lemma storeFaultless_clear : clear.StoreFaultless :=
  Surroundings.storeFaultless_serving _ fun _ _ => rfl

lemma onlyLooksFail_blind : blind.OnlyLooksFail := by
  intro e t _ hlook
  simp only [blind, Surroundings.serving, hlook]
  rfl

lemma distinct_taskSpec : taskSpec.Distinct where
  names := by decide
  archives := by decide

/-- The store after the task was created, and then could not be looked up. -/
def uncheckedStore : Objects :=
  storeAfter blind checkedStatus (storeAfter clear {} fun _ => none)

set_option maxRecDepth 100000 in
/-- The stack can come to have the task recorded as not looked up. -/
lemma exists_career_unchecked : ∃ log log',
    (asking [] []).Career "uid-java" [⟨log', uncheckedStatus⟩, ⟨log, checkedStatus⟩] uncheckedStatus
      uncheckedStore := by
  have hempty : Objects.WellKeyed fun _ => none := fun _ _ h => nomatch h
  have hcreated : (asking [] []).Career "uid-java" [⟨_, checkedStatus⟩] checkedStatus
      (storeAfter clear {} fun _ => none) :=
    (Career.start StackStatus.orderly_empty hempty).pass storeFaultless_clear.onlyLooksFail ()
      distinct_taskSpec (by decide +kernel)
  exact ⟨_, _, hcreated.pass onlyLooksFail_blind () distinct_taskSpec (by decide +kernel)⟩

set_option maxRecDepth 100000 in
/-- If it is looked up again before the version is removed, the task is released. -/
theorem task_seen_again_is_released :
    ∃ past, (asking [] []).Career "uid-java" past checkedStatus
        (storeAfter clear uncheckedStatus uncheckedStore) ∧
      (∃ x ∈ past, x.status.Reports "kabanero" taskKey) ∧
      ¬ (((asking [] []).amended {} checkedStatus).reconcileActiveVersions.run clear.world
        (storeAfter clear uncheckedStatus uncheckedStore, ())).2.1.Holds "uid-java" taskKey := by
  obtain ⟨log, log', hunchecked⟩ := exists_career_unchecked
  have hchecked : (asking [] []).Career "uid-java" (⟨_, checkedStatus⟩ :: _) checkedStatus
      (storeAfter clear uncheckedStatus uncheckedStore) :=
    hunchecked.pass storeFaultless_clear.onlyLooksFail () distinct_taskSpec (by decide +kernel)
  refine ⟨_, hchecked, ⟨_, List.mem_cons_self, reports_checkedStatus⟩, ?_⟩
  obtain ⟨status, -, hreleased⟩ := released_unless_lapsed (activation_asking [] []) hchecked
    ⟨_, List.mem_cons_self, reports_checkedStatus⟩ {} storeFaultless_clear ()
  have hunlisted : ∀ r x, Asked ({} : StackSpec).versions r → status.Lists r x →
      x.keyAt "kabanero" ≠ taskKey := by
    rintro r x ⟨v, hv, -⟩
    exact (List.not_mem_nil hv).elim
  refine fun hholds => ((hreleased hunlisted).mp hholds).elim ?_ fun h => ?_
  · rintro ⟨e, he, hmakes⟩
    have hcreates : ∀ e ∈ ((asking [] []).amended {} checkedStatus).reconcileActiveVersions.log
        clear.world (storeAfter clear uncheckedStatus uncheckedStore, ()),
        e.1.isCreate = false := by decide +kernel
    exact Bool.false_ne_true ((hcreates e he).symm.trans hmakes.isCreate)
  · exact hchecked.unreported_of_lapsed h.2 reports_checkedStatus

set_option maxRecDepth 100000 in
/-- If the version is removed right after the task could not be looked up, the task is left though
nothing fails any more: it was created and reported as active, no version lists anything, and it
still carries the uid. -/
theorem unseen_task_is_left :
    ∃ past, (asking [] []).Career "uid-java" past uncheckedStatus uncheckedStore ∧
      (∃ x ∈ past, x.status.Reports "kabanero" taskKey) ∧
      let last := ((asking [] []).amended {} uncheckedStatus).reconcileActiveVersions.run
        clear.world (uncheckedStore, ())
      last.1.map (·.versions) = .ok [] ∧ last.2.1.Holds "uid-java" taskKey := by
  obtain ⟨log, log', hunchecked⟩ := exists_career_unchecked
  refine ⟨_, hunchecked, ⟨_, List.mem_cons_of_mem _ List.mem_cons_self, reports_checkedStatus⟩, ?_⟩
  decide +kernel

end Stack

end PipelineStacks
