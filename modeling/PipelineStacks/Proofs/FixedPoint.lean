import PipelineStacks.Proofs.Settling
import PipelineStacks.Proofs.Withdrawal

/-!
# Passes come to rest

In a steady world nothing fails when a first pass gives up what is not needed, so nothing of it is
left, and the assets of all other archives are settled after the pass (`yields_run_first`).  A pass
that finds the assets settled leaves the store alone and confirms the records
(`yields_run_arranged`).  What is confirmed is confirmed as it is, so a second pass yields a status
that the third yields again: `Stack.third_pass_changes_nothing`.
-/

namespace PipelineStacks

open Surroundings UseMap

/-! ## The map of a pass -/

namespace Activation

variable {a : Activation} {objects objects' : Objects} {manifests : List Asset}
  {transport : Source → Bool → Except Failure Bytes} {refusal : Effect → Failure}

/-- What is offered for an archive. -/
def offersOf (a : Activation) (transport : Source → Bool → Except Failure Bytes) (r : Reference)
    (skip : Bool) : List Asset :=
  offers (transported transport r "" (a.contextFor r) skip)

/-- What is offered does not hang on the name that the archive is recorded under. -/
lemma offers_content (r : Reference) (u : Usage) :
    offers (a.content transport r u) = a.offersOf transport r u.skipCertVerification := by
  rw [offers, content, toOption_transported transport r _ ""]
  rfl

/-- The records of an archive are at rest: their assets are settled, and if there are none then the
archive offers none. -/
structure Arranged (a : Activation) (manifests : List Asset) (objects : Objects)
    (l : List AssetStatus) : Prop where
  settled : ∀ x ∈ l, a.Settled manifests objects (x.keyAt a.target)
  offered : l = [] → manifests = []

lemma Arranged.mono {l : List AssetStatus} (h : a.Arranged manifests objects l)
    (hgrown : a.Grown objects objects') : a.Arranged manifests objects' l :=
  ⟨fun x hx => (h.settled x hx).mono hgrown, h.offered⟩

lemma Arranged.confirmed {l : List AssetStatus} (h : a.Arranged manifests objects l) :
    a.Arranged manifests objects (a.confirmed refusal manifests objects l) := by
  refine ⟨fun y hy => ?_, fun hempty => h.offered (List.map_eq_nil_iff.mp hempty)⟩
  obtain ⟨x, hx, rfl⟩ := List.mem_map.mp hy
  rw [AssetStatus.keyAt_found]
  exact h.settled x hx

/-- If no assets are recorded of an archive that is at rest, then none are seen to. -/
lemma concerned_of_arranged {r : Reference} {u : Usage}
    (h : a.Arranged (offers (a.content transport r u)) objects u.status.activeAssets) :
    a.concerned (a.content transport r u) u = u.status.activeAssets := by
  unfold concerned
  split
  · next hempty =>
    rw [List.isEmpty_iff] at hempty
    rw [h.offered hempty, hempty, List.map_nil]
  · rfl

/-- What is known of an archive at rest after a pass: its records were confirmed, and why it could
not be loaded is known if that was tried, for there were no records or some asset was not there. -/
structure Reaffirmed (a : Activation) (transport : Source → Bool → Except Failure Bytes)
    (refusal : Effect → Failure) (objects : Objects) (r : Reference) (u u' : Usage) : Prop where
  kept : u.Kept u'
  activeAssets : u'.status.activeAssets = a.confirmed refusal
    (a.offersOf transport r u.skipCertVerification) objects u.status.activeAssets
  manifestError : u'.manifestError =
    if u.status.activeAssets.isEmpty || a.someMissing objects u.status.activeAssets then
      fault? (a.content transport r u) else none

/-- If no assets were seen to, the archive offers none. -/
lemma offers_eq_nil_of_attended {content : Except PipelineError (List Asset)} {u : Usage}
    {s : Bool × Objects}
    (h : (a.attendAll refusal manifests (a.concerned content u) s).1 = []) :
    offers content = [] := by
  have hnone : a.concerned content u = [] := by
    have hlength : (a.attendAll refusal manifests (a.concerned content u) s).1.length =
        (a.concerned content u).length := length_attendAll _ s
    rw [← List.length_eq_zero_iff, ← hlength, h, List.length_nil]
  unfold concerned at hnone
  split at hnone
  · exact List.map_eq_nil_iff.mp hnone
  · next hrecorded => exact (hrecorded (List.isEmpty_iff.mpr hnone)).elim

end Activation

namespace Activation

variable {a : Activation} {objects : Objects}
  {transport : Source → Bool → Except Failure Bytes} {refusal : Effect → Failure}

section Run

variable {τ : Type} {c : Surroundings τ} (hc : c.Steady transport refusal) {m : UseMap}
include hc

/-- What is needed is brought to rest. -/
lemma yields_seeTo (hw : Listable a.owner.uid)
    (hm : ∀ r u, m.get? r = some u → u.isNeeded → u.Unloaded) (hobjects : objects.WellKeyed) :
    ∃ m' objects', c.Yields (a.seeToAll m) objects m' objects' ∧ objects'.WellKeyed ∧
      m.Pointwise (fun r u u' => u.Kept u' ∧ if u.isNeeded then
        a.Arranged (a.offersOf transport r u.skipCertVerification) objects'
          u'.status.activeAssets else u' = u) m' := by
  let Q (r : Reference) (u u' : Usage) (S : Objects) : Prop := u.Kept u' ∧ if u.isNeeded then
    a.Arranged (a.offersOf transport r u.skipCertVerification) S u'.status.activeAssets else u' = u
  have hstable : ∀ {r u u' S S'}, a.Grown S S' → Q r u u' S → Q r u u' S' := by
    rintro r u u' S S' hgrown ⟨hkept, hrest⟩
    refine ⟨hkept, ?_⟩
    cases hneeded : u.isNeeded with
    | true =>
      rw [hneeded] at hrest
      exact hrest.mono hgrown
    | false => rwa [hneeded] at hrest
  have hstep : ∀ r u, m.get? r = some u → ∀ S : Objects, S.WellKeyed → ∃ u' S',
      c.Yields (if u.isNeeded then a.ensure r u else return u) S u' S' ∧ S'.WellKeyed ∧
        a.Grown S S' ∧ Q r u u' S' := by
    intro r u hu S hS
    cases hneeded : u.isNeeded with
    | false => exact ⟨u, S, yields_done u, hS, .refl S, ⟨rfl, rfl, rfl⟩, by rw [hneeded]; rfl⟩
    | true =>
      obtain ⟨u', hensure, hattended⟩ := yields_ensure a hc r (hm r u hu hneeded) hS
      obtain ⟨hgrown, hS', hsettled⟩ := settled_attendAll a refusal
        (offers (a.content transport r u)) hw (a.concerned (a.content transport r u) u)
        u.status.activeAssets.isEmpty hS
      refine ⟨u', _, hensure, hS', hgrown, hattended.kept, ?_⟩
      rw [if_pos hneeded, hattended.activeAssets, ← offers_content]
      exact ⟨hsettled, fun hempty => offers_eq_nil_of_attended hempty⟩
  obtain ⟨m', objects', hrun, hobjects', -, hrel⟩ :=
    yields_traverse (Q := Q) Grown.refl Grown.trans hstable hstep hobjects
  exact ⟨m', objects', hrun, hobjects', hrel⟩

/-- A first pass gives up all assets of archives that are not needed and leaves the others at
rest. -/
theorem yields_run_first (hw : Listable a.owner.uid)
    (hm : ∀ r u, m.get? r = some u → u.Unloaded) (hobjects : objects.WellKeyed) :
    ∃ m' objects', c.Yields (a.run m) objects m' objects' ∧ objects'.WellKeyed ∧
      m.Pointwise (fun r u u' => u.Kept u' ∧
        if u.isNeeded then
          a.Arranged (a.offersOf transport r u.skipCertVerification) objects'
            u'.status.activeAssets
        else u'.status.activeAssets = []) m' := by
  have hfirst := yields_giveUp hc.faultless a m hobjects
  have hgiven := m.pointwise_map fun _ u => u.givenUp
  have hunloaded : ∀ r u, (m.map fun _ u => u.givenUp).get? r = some u → u.isNeeded →
      u.Unloaded := by
    intro r u₁ hu₁ hneeded
    obtain ⟨u, hu, rfl⟩ := hgiven.exists_of_some hu₁
    rw [Usage.isNeeded_givenUp] at hneeded
    rw [Usage.givenUp_of_needed hneeded]
    exact hm r u hu
  obtain ⟨m', objects', hsecond, hobjects', hseen⟩ := yields_seeTo hc hw hunloaded
    (Owner.wellKeyed_withdrawAll hobjects (m.leavings a.target))
  refine ⟨m', objects', hfirst.bind hsecond, hobjects', fun {r u} hu => ?_,
    fun hnone => hseen.of_none (hgiven.of_none hnone)⟩
  obtain ⟨_, hu₁, rfl⟩ := hgiven.of_some hu
  obtain ⟨u', hu', hkept, hrest⟩ := hseen.of_some hu₁
  refine ⟨u', hu', ?_⟩
  cases hneeded : u.isNeeded with
  | true =>
    rw [Usage.givenUp_of_needed hneeded] at hkept hrest
    rw [hneeded] at hrest
    exact ⟨hkept, hrest⟩
  | false =>
    have hgone : u.givenUp = u.released := by
      rw [Usage.givenUp, hneeded]
      rfl
    rw [hgone] at hkept hrest
    change if u.isNeeded = true then _ else _ at hrest
    rw [hneeded] at hrest
    exact ⟨⟨hkept.useCount, hkept.statusVersions, hkept.reference⟩, by rw [hrest]; rfl⟩

/-- A pass over archives at rest leaves the store alone and confirms the records. -/
theorem yields_run_arranged
    (hm : ∀ r u, m.get? r = some u → u.isNeeded ∧ u.Unloaded ∧
      a.Arranged (a.offersOf transport r u.skipCertVerification) objects u.status.activeAssets)
    (hobjects : objects.WellKeyed) :
    ∃ m', c.Yields (a.run m) objects m' objects ∧
      m.Pointwise (a.Reaffirmed transport refusal objects) m' := by
  have hneeded : ∀ e ∈ m.entries, e.2.isNeeded :=
    fun e he => (hm e.1 e.2 (SortedMap.mem_entries_iff.mp he)).1
  have hfirst : c.Yields (a.giveUp m) objects m objects :=
    fun t => ⟨t, a.run_giveUp_of_needed c.world hneeded _⟩
  have hstep : ∀ r u, m.get? r = some u → ∀ S, S = objects → ∃ u' S',
      c.Yields (if u.isNeeded then a.ensure r u else return u) S u' S' ∧ S' = objects ∧
        a.Reaffirmed transport refusal objects r u u' := by
    rintro r u hu _ rfl
    obtain ⟨hneeded, hunloaded, hrest⟩ := hm r u hu
    obtain ⟨u', hensure, hattended⟩ := yields_ensure a hc r hunloaded hobjects
    rw [← offers_content] at hrest
    rw [concerned_of_arranged hrest, attendAll_of_settled hrest.settled] at hensure hattended
    rw [if_pos hneeded]
    refine ⟨u', _, hensure, rfl, hattended.kept, ?_, hattended.manifestError⟩
    rw [← offers_content]
    exact hattended.activeAssets
  obtain ⟨m', objects', hsecond, rfl, hrel⟩ := yields_traverse_values (c := c) hstep rfl
  exact ⟨m', hfirst.bind hsecond, hrel⟩

end Run

end Activation

/-! ## The status after a pass and the map of the next one -/

namespace UseMap

variable {recorded : List VersionStatus} {desired : List VersionSpec} {m : UseMap}

lemma unloaded_of_build (h : build recorded desired = .ok m) {r : Reference} {u : Usage}
    (hu : m.get? r = some u) : u.Unloaded :=
  ⟨(manifests_of_build h hu).1, (manifests_of_build h hu).2⟩

/-- The first pipeline that asks for an archive. -/
def firstAsking? (desired : List VersionSpec) (r : Reference) : Option PipelineSpec :=
  (usesOf r (desiredUses desired)).head?.map (·.2)

end UseMap

namespace StackStatus

variable {spec : StackSpec} {current current' : StackStatus} {m m' : UseMap}

/-- No assets are left of archives that are not needed. -/
def Cleared (m : UseMap) : Prop :=
  ∀ r u, m.get? r = some u → ¬ u.isNeeded → u.status.activeAssets = []

lemma residual_of_cleared (hm : Cleared m) (version : String) : residual m version = [] := by
  refine List.eq_nil_iff_forall_not_mem.mpr fun p hp => ?_
  obtain ⟨r, u, hu, -, hne, -⟩ := mem_residual.mp hp
  obtain ⟨hget, hunneeded⟩ := mem_toDelete.mp hu
  exact hne (hm r u hget (by simpa [Usage.isNeeded] using hunneeded))

/-- If nothing is left to be given up, a status lists the versions that are asked for. -/
lemma versions_build_of_cleared (hm : Cleared m) :
    (build spec current m).versions = spec.versions.map (ofVersion current m) := by
  have hremoved : current.versions.filterMap (ofRemoved? spec m) = [] := by
    refine List.filterMap_eq_nil_iff.mpr fun previous _ => ?_
    simp [ofRemoved?, residual_of_cleared hm]
  rw [build, hremoved, List.append_nil]

/-- If nothing is left to be given up, a status records the uses that are asked for. -/
lemma recordedUses_build_of_cleared (hm : Cleared m) :
    recordedUses (build spec current m).versions =
      (desiredUses spec.versions).map fun use => (use.1, activePipeline m use.2) := by
  rw [versions_build_of_cleared hm, recordedUses, desiredUses, List.flatMap_map]
  induction spec.versions with
  | nil => rfl
  | cons v versions ih =>
    rw [List.flatMap_cons, ih]
    cases hactive : v.isActive with
    | true =>
      have hpipelines : (ofVersion current m v).pipelines = v.pipelines.map (activePipeline m) := by
        rw [ofVersion, if_pos hactive]
      have hname : (ofVersion current m v).version = v.version := by
        rw [ofVersion, if_pos hactive]
      rw [List.filter_cons_of_pos hactive, List.flatMap_cons, List.map_append, hpipelines, hname,
        List.map_map, List.map_map]
      refine congrArg (· ++ _) (List.map_congr_left fun p _ => ?_)
      exact Prod.ext (Prod.ext (ofStatus_freshStatus p p) rfl) rfl
    | false =>
      have hpipelines : (ofVersion current m v).pipelines = [] := by
        rw [ofVersion, hactive]
        exact residual_of_cleared hm _
      rw [List.filter_cons_of_neg (by simp [hactive]), hpipelines]
      rfl

/-- The next map starts from the records of the pipelines that are asked for. -/
lemma status_of_next_build (hm : Cleared m)
    (hm' : UseMap.build (build spec current m).versions spec.versions = .ok m') {r : Reference}
    {u : Usage} (hu : m'.get? r = some u) :
    Asked spec.versions r ∧ ∃ p, firstAsking? spec.versions r = some p ∧
      Reference.ofSpec p = r ∧ u.status = activePipeline m p := by
  have huses : usesOf r (recordedUses (build spec current m).versions) =
      (usesOf r (desiredUses spec.versions)).map fun use => (use.1, activePipeline m use.2) := by
    rw [recordedUses_build_of_cleared hm, usesOf, usesOf, List.filter_map]
    rfl
  rcases eq_added_of_get?_build hm' hu with ⟨first, rest, hs, rfl⟩ | ⟨hs, -⟩
  · rw [huses, List.map_eq_cons_iff] at hs
    obtain ⟨use, uses, hdesired, rfl, -⟩ := hs
    obtain ⟨hmem, hr⟩ := mem_usesOf.mp (hdesired ▸ List.mem_cons_self : use ∈ usesOf r _)
    obtain ⟨⟨r', version⟩, p⟩ := use
    obtain ⟨v, hv, hactive, hp, rfl, -⟩ := mem_desiredUses.mp hmem
    exact ⟨⟨v, hv, hactive, p, hp, hr⟩, p, by rw [firstAsking?, hdesired]; rfl, hr, rfl⟩
  · -- an archive that is asked for is recorded
    obtain ⟨v, hv, hactive, p, hp, rfl⟩ := exists_desired_of_not_recorded hm' hu hs
    have hmem : ((.ofSpec p, v.version), p) ∈ usesOf (.ofSpec p) (desiredUses spec.versions) :=
      mem_usesOf.mpr ⟨mem_desiredUses.mpr ⟨v, hv, hactive, hp, rfl, rfl⟩, rfl⟩
    rw [huses, List.map_eq_nil_iff] at hs
    rw [hs] at hmem
    cases hmem

/-- The location that is recorded of a version stays so. -/
lemma location_build_of_cleared (hm : Cleared m) {v : VersionSpec} (hv : v ∈ spec.versions) :
    ((build spec current m).versionNamed? v.version).bind (·.location) =
      (current.versionNamed? v.version).bind (·.location) := by
  have hversion : ∀ w, (ofVersion current m w).version = w.version := by
    intro w
    unfold ofVersion
    split <;> rfl
  have hlocation : ∀ w, (ofVersion current m w).location =
      (current.versionNamed? w.version).bind (·.location) := by
    intro w
    unfold ofVersion
    split <;> rfl
  rw [versionNamed?, versions_build_of_cleared hm, List.find?_map]
  have hfound : (spec.versions.find? fun w => (ofVersion current m w).version = v.version) =
      spec.versions.find? (·.version = v.version) := by simp only [hversion]
  obtain ⟨w, hw⟩ : ∃ w, spec.versions.find? (·.version = v.version) = some w :=
    Option.isSome_iff_exists.mp (List.find?_isSome.mpr ⟨v, hv, decide_eq_true rfl⟩)
  have hname : w.version = v.version := by simpa using List.find?_some hw
  change Option.bind (Option.map _ (spec.versions.find? fun w =>
    (ofVersion current m w).version = v.version)) _ = _
  rw [hfound, hw, Option.map_some, Option.bind_some, hlocation, hname]

/-- Two statuses are the same if they are written from the same locations, the same assets and the
same errors. -/
lemma build_congr (hm : Cleared m) (hm' : Cleared m')
    (hlocation : ∀ v ∈ spec.versions, (current.versionNamed? v.version).bind (·.location) =
      (current'.versionNamed? v.version).bind (·.location))
    (hasked : ∀ v ∈ spec.versions, v.isActive → ∀ p ∈ v.pipelines,
      activePipeline m p = activePipeline m' p ∧ pipelineError? m p = pipelineError? m' p) :
    build spec current m = build spec current' m' := by
  have hversions : (build spec current m).versions = (build spec current' m').versions := by
    rw [versions_build_of_cleared hm, versions_build_of_cleared hm']
    refine List.map_congr_left fun v hv => ?_
    unfold ofVersion
    rw [hlocation v hv, residual_of_cleared hm, residual_of_cleared hm']
    split
    · next hactive =>
      have hpipelines : v.pipelines.map (activePipeline m) = v.pipelines.map (activePipeline m') :=
        List.map_congr_left fun p hp => (hasked v hv hactive p hp).1
      have herrors : v.pipelines.filterMap (pipelineError? m) =
          v.pipelines.filterMap (pipelineError? m') :=
        List.filterMap_congr fun p hp => (hasked v hv hactive p hp).2
      rw [hpipelines, herrors]
    · rfl
  have hsummary : ∀ (c : StackStatus) (x : UseMap), build spec c x =
      ⟨(build spec c x).versions, some (summaryOf (build spec c x).versions)⟩ := fun _ _ => rfl
  rw [hsummary, hsummary current', hversions]

end StackStatus

/-! ## Passes of a stack -/

namespace Stack

variable {τ : Type} {c : Surroundings τ} {transport : Source → Bool → Except Failure Bytes}
  {refusal : Effect → Failure} {s : Stack} {a : Activation} {objects objects' : Objects}
  {m m' : UseMap}

/-- The stack with another status recorded. -/
def recordedAs (s : Stack) (status : StackStatus) : Stack :=
  { s with status := some status }

lemma yields_reconcileActiveVersions (ha : s.activation = .ok a)
    (hm : UseMap.build s.recorded.versions s.spec.versions = .ok m)
    (hrun : c.Yields (a.run m) objects m' objects') :
    c.Yields s.reconcileActiveVersions objects (.ok (.build s.spec s.recorded m')) objects' := by
  intro t
  obtain ⟨t', ht'⟩ := hrun t
  refine ⟨t', ?_⟩
  rw [reconcileActiveVersions_run ha c.world (objects, t) hm, ht']

/-- A map after a pass in which every archive that is asked for is at rest, and nothing is left of
the others. -/
structure AtRest (desired : List VersionSpec) (a : Activation)
    (transport : Source → Bool → Except Failure Bytes) (objects : Objects) (m : UseMap) : Prop where
  cleared : StackStatus.Cleared m
  arranged : ∀ r, Asked desired r → ∃ u, m.get? r = some u ∧
    a.Arranged (a.offersOf transport r (skips desired r)) objects u.status.activeAssets

/-- What a pass makes of the records of an archive at rest: it confirms them, and tries to load the
archive if there are none or if some asset is not there. -/
def reaffirm (desired : List VersionSpec) (a : Activation)
    (transport : Source → Bool → Except Failure Bytes) (refusal : Effect → Failure)
    (objects : Objects) (r : Reference) (l : List AssetStatus) :
    List AssetStatus × Option PipelineError :=
  (a.confirmed refusal (a.offersOf transport r (skips desired r)) objects l,
    if l.isEmpty || a.someMissing objects l then
      (firstAsking? desired r).bind fun p =>
        fault? (transported transport r p.id (a.contextFor r) (skips desired r))
    else none)

/-- To do it again makes no difference. -/
lemma reaffirm_reaffirm (desired : List VersionSpec) (r : Reference) (l : List AssetStatus) :
    reaffirm desired a transport refusal objects r
        (reaffirm desired a transport refusal objects r l).1 =
      reaffirm desired a transport refusal objects r l := by
  have hempty : (a.confirmed refusal (a.offersOf transport r (skips desired r)) objects l).isEmpty =
      l.isEmpty := by
    cases l <;> rfl
  simp only [reaffirm, hempty, Activation.confirmed_confirmed, Activation.someMissing_confirmed]

/-- A first pass leaves everything at rest. -/
theorem yields_first_pass (hc : c.Steady transport refusal) (ha : s.activation = .ok a)
    (hw : Listable a.owner.uid) (hobjects : objects.WellKeyed) :
    ∃ m objects', c.Yields s.reconcileActiveVersions objects (.ok (.build s.spec s.recorded m))
      objects' ∧ objects'.WellKeyed ∧ AtRest s.spec.versions a transport objects' m := by
  obtain ⟨m₀, hm₀, -⟩ := build_eq_ok s.recorded.versions s.spec.versions
  obtain ⟨m, objects', hrun, hobjects', hpoints⟩ := Activation.yields_run_first (a := a) hc hw
    (fun r u hu => unloaded_of_build hm₀ hu) hobjects
  refine ⟨m, objects', yields_reconcileActiveVersions ha hm₀ hrun, hobjects', ?_, ?_⟩
  · intro r u' hu' hunneeded
    obtain ⟨u, -, hkept, hrest⟩ := hpoints.exists_of_some hu'
    rw [Usage.isNeeded, hkept.useCount, ← Usage.isNeeded] at hunneeded
    rwa [if_neg hunneeded] at hrest
  · rintro r hasked
    obtain ⟨v, hv, hactive, p, hp, rfl⟩ := hasked
    obtain ⟨u, hu⟩ := Option.isSome_iff_exists.mp (isSome_get?_of_desired hm₀ hv hactive hp)
    obtain ⟨u', hu', -, hrest⟩ := hpoints.of_some hu
    have hneeded := isNeeded_of_asked hm₀ hu ⟨v, hv, hactive, p, hp, rfl⟩
    rw [if_pos hneeded, skipCertVerification_of_build hm₀ hu] at hrest
    exact ⟨u', hu', hrest⟩

/-- A pass over a stack at rest leaves the store alone and reaffirms what is recorded. -/
theorem yields_pass_at_rest (hc : c.Steady transport refusal) (ha : s.activation = .ok a)
    (hobjects : objects.WellKeyed) (current : StackStatus)
    (hm : AtRest s.spec.versions a transport objects m) :
    let status := StackStatus.build s.spec current m
    ∃ m', c.Yields (s.recordedAs status).reconcileActiveVersions objects
        (.ok (.build s.spec status m')) objects ∧
      AtRest s.spec.versions a transport objects m' ∧
      ∀ r, Asked s.spec.versions r → ∃ u u', m.get? r = some u ∧ m'.get? r = some u' ∧
        (u'.status.activeAssets, u'.manifestError) =
          reaffirm s.spec.versions a transport refusal objects r u.status.activeAssets := by
  intro status
  obtain ⟨m₀, hm₀, -⟩ := build_eq_ok status.versions s.spec.versions
  have hnext : ∀ r u₀, m₀.get? r = some u₀ → Asked s.spec.versions r ∧ ∃ u p,
      m.get? r = some u ∧ firstAsking? s.spec.versions r = some p ∧ u₀.status.name = p.id ∧
        u₀.status.activeAssets = u.status.activeAssets := by
    intro r u₀ hu₀
    obtain ⟨hasked, p, hfirst, rfl, hstatus⟩ :=
      StackStatus.status_of_next_build hm.cleared hm₀ hu₀
    obtain ⟨u, hu, -⟩ := hm.arranged _ hasked
    refine ⟨hasked, u, p, hu, hfirst, by rw [hstatus]; rfl, ?_⟩
    rw [hstatus, StackStatus.activePipeline, hu]
  have harranged : ∀ r u₀, m₀.get? r = some u₀ → u₀.isNeeded ∧ u₀.Unloaded ∧
      a.Arranged (a.offersOf transport r u₀.skipCertVerification) objects
        u₀.status.activeAssets := by
    intro r u₀ hu₀
    obtain ⟨hasked, u, p, hu, -, -, hassets⟩ := hnext r u₀ hu₀
    obtain ⟨u', hu', hrest⟩ := hm.arranged r hasked
    obtain rfl := Option.some.inj (hu.symm.trans hu')
    refine ⟨isNeeded_of_asked hm₀ hu₀ hasked, unloaded_of_build hm₀ hu₀, ?_⟩
    rw [skipCertVerification_of_build hm₀ hu₀, hassets]
    exact hrest
  obtain ⟨m', hrun, hpoints⟩ := Activation.yields_run_arranged hc harranged hobjects
  have hreaffirmed : ∀ r, Asked s.spec.versions r → ∃ u u', m.get? r = some u ∧
      m'.get? r = some u' ∧ (u'.status.activeAssets, u'.manifestError) =
        reaffirm s.spec.versions a transport refusal objects r u.status.activeAssets := by
    rintro r ⟨v, hv, hactive, p, hp, rfl⟩
    obtain ⟨u₀, hu₀⟩ := Option.isSome_iff_exists.mp (isSome_get?_of_desired hm₀ hv hactive hp)
    obtain ⟨-, u, p', hu, hfirst, hname, hassets⟩ := hnext _ u₀ hu₀
    obtain ⟨u', hu', hagain⟩ := hpoints.of_some hu₀
    refine ⟨u, u', hu, hu', ?_⟩
    rw [hagain.activeAssets, hagain.manifestError, hassets, Activation.content, hname,
      skipCertVerification_of_build hm₀ hu₀, reaffirm, hfirst]
    rfl
  refine ⟨m', yields_reconcileActiveVersions (s := s.recordedAs status) ha hm₀ hrun, ⟨?_, ?_⟩,
    hreaffirmed⟩
  · intro r u' hu' hunneeded
    obtain ⟨u₀, hu₀, hagain⟩ := hpoints.exists_of_some hu'
    rw [Usage.isNeeded, hagain.kept.useCount, ← Usage.isNeeded] at hunneeded
    exact (hunneeded (harranged r u₀ hu₀).1).elim
  · intro r hasked
    obtain ⟨u, u', hu, hu', hagain⟩ := hreaffirmed r hasked
    obtain ⟨u'', hu'', hrest⟩ := hm.arranged r hasked
    obtain rfl := Option.some.inj (hu.symm.trans hu'')
    refine ⟨u', hu', ?_⟩
    rw [show u'.status.activeAssets = _ from congrArg Prod.fst hagain]
    exact hrest.confirmed

/-- A status that is recorded already is not written. -/
lemma updateStatus_of_unchanged {status : StackStatus} (h : s.statusChanged status = false) :
    s.updateStatus status = .done (.ok false) := by
  rw [updateStatus, h]
  rfl

/-- A whole pass that yields the status that is recorded writes no status. -/
lemma isRecord_of_mem_log_reconcile (ha : s.activation = .ok a) {status : StackStatus}
    (hrun : c.Yields s.reconcileActiveVersions objects (.ok status) objects')
    (hstatus : s.statusChanged status = false) (t : τ) {x : Program.Exchange Effect.Answer}
    (hx : x ∈ s.reconcile.log c.world (objects, t)) : x.1.isRecord = false := by
  obtain ⟨t₁, hcount⟩ := run_count (c := c) .reconciliations objects t
  obtain ⟨t₂, hrun⟩ := hrun t₁
  unfold reconcile at hx
  rw [Program.log_bind, hcount, Program.log_bind, hrun] at hx
  simp only [updateStatus_of_unchanged hstatus] at hx
  rcases List.mem_append.mp hx with hx | hx
  · rw [List.mem_singleton.mp hx]
    rfl
  · rcases List.mem_append.mp hx with hx | hx
    · exact isRecord_of_mem_log ha hx
    · rcases List.mem_cons.mp hx with rfl | hx
      · rfl
      · rw [List.mem_singleton.mp hx]
        rfl

/-- A whole pass yields the status that is recorded already. -/
lemma yields_reconcile_of_unchanged {status : StackStatus}
    (hrun : c.Yields s.reconcileActiveVersions objects (.ok status) objects')
    (hstatus : s.statusChanged status = false) :
    c.Yields s.reconcile objects (.ok status) objects' := by
  refine (yields_count _).bind (hrun.bind ?_)
  simp only [updateStatus_of_unchanged hstatus]
  exact (yields_count _).bind ((yields_count _).bind (yields_done _))

/-- In a steady world three passes run, each from the status that the one before yielded.  The
second and the third leave every object as the first left it, and the third yields the status of
the second: it is not written again. -/
theorem third_pass_changes_nothing (hc : c.Steady transport refusal) (ha : s.activation = .ok a)
    (hw : Listable a.owner.uid) (hobjects : objects.WellKeyed) :
    ∃ status₁ status₂ objects₁,
      c.Yields s.reconcileActiveVersions objects (.ok status₁) objects₁ ∧
      c.Yields (s.recordedAs status₁).reconcileActiveVersions objects₁ (.ok status₂) objects₁ ∧
      c.Yields (s.recordedAs status₂).reconcileActiveVersions objects₁ (.ok status₂) objects₁ ∧
      (s.recordedAs status₂).statusChanged status₂ = false ∧
      c.Yields (s.recordedAs status₂).reconcile objects₁ (.ok status₂) objects₁ ∧
      ∀ t, ∀ x ∈ (s.recordedAs status₂).reconcile.log c.world (objects₁, t),
        x.1.isRecord = false := by
  obtain ⟨m₁, objects₁, hfirst, hobjects₁, hrest₁⟩ := yields_first_pass hc ha hw hobjects
  obtain ⟨m₂, hsecond, hrest₂, hagain₂⟩ :=
    yields_pass_at_rest hc ha hobjects₁ s.recorded hrest₁
  set status₁ := StackStatus.build s.spec s.recorded m₁
  obtain ⟨m₃, hthird, hrest₃, hagain₃⟩ := yields_pass_at_rest hc ha hobjects₁ status₁ hrest₂
  set status₂ := StackStatus.build s.spec status₁ m₂ with hstatus₂
  have hsame : StackStatus.build s.spec status₂ m₃ = status₂ := by
    rw [hstatus₂]
    refine StackStatus.build_congr hrest₃.cleared hrest₂.cleared
      (fun v hv => StackStatus.location_build_of_cleared hrest₂.cleared hv) ?_
    intro v hv hactive p hp
    have hasked : Asked s.spec.versions (.ofSpec p) := ⟨v, hv, hactive, p, hp, rfl⟩
    obtain ⟨u₁, u₂, -, hu₂, heq₂⟩ := hagain₂ _ hasked
    obtain ⟨u₂', u₃, hu₂', hu₃, heq₃⟩ := hagain₃ _ hasked
    obtain rfl := Option.some.inj (hu₂.symm.trans hu₂')
    -- the third pass does to the records what the second did already
    have hfixed : (u₃.status.activeAssets, u₃.manifestError) =
        (u₂.status.activeAssets, u₂.manifestError) := by
      have hconfirmed : u₂.status.activeAssets = _ := congrArg Prod.fst heq₂
      rw [heq₃, heq₂, hconfirmed]
      exact reaffirm_reaffirm _ _ _
    obtain ⟨hassets, herror⟩ := Prod.mk.inj hfixed
    constructor
    · rw [StackStatus.activePipeline, StackStatus.activePipeline, hu₂, hu₃]
      simp only [hassets]
    · rw [StackStatus.pipelineError?, StackStatus.pipelineError?, hu₂, hu₃]
      simp only [Option.bind_eq_bind, Option.bind_some, herror]
  rw [hsame] at hthird
  have hunchanged : (s.recordedAs status₂).statusChanged status₂ = false := by
    simp [statusChanged, recordedAs]
  exact ⟨status₁, status₂, objects₁, hfirst, hsecond, hthird, hunchanged,
    yields_reconcile_of_unchanged hthird hunchanged,
    fun t x hx => isRecord_of_mem_log_reconcile (s := s.recordedAs status₂) ha hthird hunchanged t
      hx⟩

/-! ## A task that another stack owns -/

/-- An archive of two tasks is asked for, of which one is there and owned by another stack, while
an asset of another archive is recorded; passes come to rest. -/
theorem two_tasks_come_to_rest :
    let s := asking [.ofUrl "https://e.com/q.yaml"]
      (tasksStatus [("c", none)] .active none "").versions
    ∃ status₁ status₂ objects₁,
      (quiet twoTasks).Yields s.reconcileActiveVersions (storeOf ["uid-node"]) (.ok status₁)
        objects₁ ∧
      (quiet twoTasks).Yields (s.recordedAs status₁).reconcileActiveVersions objects₁ (.ok status₂)
        objects₁ ∧
      (quiet twoTasks).Yields (s.recordedAs status₂).reconcile objects₁ (.ok status₂) objects₁ := by
  intro s
  obtain ⟨status₁, status₂, objects₁, hfirst, hsecond, -, -, hthird, -⟩ :=
    third_pass_changes_nothing (steady_serving twoTasks fun _ _ => rfl)
      (activation_asking [.ofUrl "https://e.com/q.yaml"] _) listable_uid_java
      (wellKeyed_storeOf ["uid-node"])
  exact ⟨status₁, status₂, objects₁, hfirst, hsecond, hthird⟩

end Stack

end PipelineStacks
