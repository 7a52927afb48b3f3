import Mathlib.Data.List.Forall2
import PipelineStacks.Proofs.UseCount

/-!
# The tally of uses

What the use map holds, said of the two lists alone: an archive has an entry if a recorded version
or an active one lists it, and its count is made of three numbers that one can read off the lists,
`askers`, `occurrences` and `recorders`.  Nothing in them depends on the order in which the versions
are written down, nor on the order of the pipelines of a version, so neither do the keys and the
counts (`Rearranged`).

Main statement: `exists_tally_of_build`.
-/

namespace PipelineStacks

namespace UseMap

/-! ## The three numbers -/

/-- The version is active and lists the archive. -/
def asks (r : Reference) (v : VersionSpec) : Bool :=
  v.isActive && v.pipelines.any fun p => Reference.ofSpec p = r

/-- The names of the active versions that list an archive. -/
def askers (desired : List VersionSpec) (r : Reference) : Finset String :=
  ((desired.filter (asks r)).map (·.version)).toFinset

/-- The names of the recorded versions that list an archive. -/
def recorders (recorded : List VersionStatus) (r : Reference) : Finset String :=
  ((recorded.filter fun v => v.pipelines.any fun p => Reference.ofStatus p = r).map
    (·.version)).toFinset

/-- How many recorded pipelines are the archive. -/
def occurrences (recorded : List VersionStatus) (r : Reference) : Nat :=
  (recorded.flatMap (·.pipelines)).countP fun p => Reference.ofStatus p = r

lemma mem_askers {desired : List VersionSpec} {r : Reference} {version : String} :
    version ∈ askers desired r ↔ ∃ v ∈ desired, v.isActive ∧
      (∃ p ∈ v.pipelines, Reference.ofSpec p = r) ∧ v.version = version := by
  simp only [askers, asks, List.mem_toFinset, List.mem_map, List.mem_filter, Bool.and_eq_true,
    List.any_eq_true, decide_eq_true_eq, and_assoc]

lemma mem_recorders {recorded : List VersionStatus} {r : Reference} {version : String} :
    version ∈ recorders recorded r ↔ ∃ v ∈ recorded,
      (∃ p ∈ v.pipelines, Reference.ofStatus p = r) ∧ v.version = version := by
  simp only [recorders, List.mem_toFinset, List.mem_map, List.mem_filter, List.any_eq_true,
    decide_eq_true_eq, and_assoc]

/-- An archive is asked for if it has an asker. -/
lemma askers_nonempty {desired : List VersionSpec} {r : Reference} :
    (askers desired r).Nonempty ↔ Asked desired r := by
  constructor
  · rintro ⟨version, hversion⟩
    obtain ⟨v, hv, ha, hlists, -⟩ := mem_askers.mp hversion
    exact ⟨v, hv, ha, hlists⟩
  · rintro ⟨v, hv, ha, hlists⟩
    exact ⟨v.version, mem_askers.mpr ⟨v, hv, ha, hlists, rfl⟩⟩

/-- The uses that are asked for bear the names of the askers. -/
lemma namesOf_desiredUses (desired : List VersionSpec) (r : Reference) :
    namesOf r (desiredUses desired) = askers desired r := by
  ext version
  simp only [mem_namesOf, List.mem_map, Prod.exists, Prod.mk.injEq, mem_askers]
  constructor
  · rintro ⟨r', version', p, hmem, rfl, rfl⟩
    obtain ⟨v, hv, ha, hp, hr, hname⟩ := mem_desiredUses.mp hmem
    exact ⟨v, hv, ha, ⟨p, hp, hr⟩, hname⟩
  · rintro ⟨v, hv, ha, ⟨p, hp, hr⟩, hname⟩
    exact ⟨r, version, p, mem_desiredUses.mpr ⟨v, hv, ha, hp, hr, hname⟩, rfl, rfl⟩

/-- The recorded uses bear the names of the recorders. -/
lemma namesOf_recordedUses (recorded : List VersionStatus) (r : Reference) :
    namesOf r (recordedUses recorded) = recorders recorded r := by
  ext version
  simp only [mem_namesOf, List.mem_map, Prod.exists, Prod.mk.injEq, mem_recorders]
  constructor
  · rintro ⟨r', version', p, hmem, rfl, rfl⟩
    obtain ⟨v, hv, hp, hr, hname⟩ := mem_recordedUses.mp hmem
    exact ⟨v, hv, ⟨p, hp, hr⟩, hname⟩
  · rintro ⟨v, hv, ⟨p, hp, hr⟩, hname⟩
    exact ⟨r, version, p, mem_recordedUses.mpr ⟨v, hv, hp, hr, hname⟩, rfl, rfl⟩

/-- Every occurrence is one recorded use. -/
lemma length_usesOf_recordedUses (recorded : List VersionStatus) (r : Reference) :
    (usesOf r (recordedUses recorded)).length = occurrences recorded r := by
  rw [usesOf, ← List.countP_eq_length_filter, recordedUses, occurrences, List.countP_flatMap,
    List.countP_flatMap]
  congr 2
  ext v
  rw [Function.comp_apply, List.countP_map]
  rfl

/-! ## Entries and counts of a map that was built -/

section Built

variable {recorded : List VersionStatus} {desired : List VersionSpec} {m : UseMap}

/-- The keys are the archives that are recorded or asked for. -/
theorem mem_keys_build (h : build recorded desired = .ok m) (r : Reference) :
    r ∈ m.keys ↔ (∃ v ∈ recorded, ∃ p ∈ v.pipelines, Reference.ofStatus p = r) ∨
      Asked desired r := by
  rw [SortedMap.mem_keys_iff]
  constructor
  · intro hsome
    obtain ⟨u, hu⟩ := Option.isSome_iff_exists.mp hsome
    cases hs : usesOf r (recordedUses recorded) with
    | nil => exact Or.inr (exists_desired_of_not_recorded h hu hs)
    | cons first rest =>
      left
      have hfirst : first ∈ usesOf r (recordedUses recorded) := hs ▸ List.mem_cons_self
      obtain ⟨⟨r', version⟩, p⟩ := first
      obtain ⟨hmem, rfl⟩ := mem_usesOf.mp hfirst
      obtain ⟨v, hv, hp, hr, -⟩ := mem_recordedUses.mp hmem
      exact ⟨v, hv, p, hp, hr⟩
  · rintro (⟨v, hv, p, hp, rfl⟩ | ⟨v, hv, ha, p, hp, rfl⟩)
    · exact isSome_get?_of_recorded h hv hp
    · exact isSome_get?_of_desired h hv ha hp

/-- The count of an entry, from the lists. -/
lemma useCount_eq_tally (h : build recorded desired = .ok m) {r : Reference} {u : Usage}
    (hu : m.get? r = some u) : u.useCount =
      (askers desired r).card + occurrences recorded r - (recorders recorded r).card := by
  rw [useCount_eq h hu, namesOf_desiredUses, namesOf_recordedUses, length_usesOf_recordedUses]

/-- The versions of an entry, from the lists. -/
lemma statusVersions_eq_recorders (h : build recorded desired = .ok m) {r : Reference} {u : Usage}
    (hu : m.get? r = some u) : u.statusVersions.keys.toFinset = recorders recorded r := by
  ext version
  rw [List.mem_toFinset, ← SortedMap.contains_iff_mem_keys,
    contains_statusVersions_of_build h hu, ← mem_namesOf, namesOf_recordedUses]

/-- An archive that is asked for counts at least once. -/
lemma one_le_useCount (h : build recorded desired = .ok m) {r : Reference} {u : Usage}
    (hu : m.get? r = some u) (hasked : Asked desired r) : 1 ≤ u.useCount :=
  (useCount_pos_iff h hu).mpr (Or.inl hasked)

end Built

/-! ## The order of what is asked for -/

/-- The counts of the archives. -/
def counts (m : UseMap) : SortedMap Reference Int :=
  m.map fun _ u => u.useCount

lemma get?_counts (m : UseMap) (r : Reference) : m.counts.get? r = (m.get? r).map (·.useCount) := by
  have hmap := SortedMap.pointwise_map m fun _ u => u.useCount
  cases hu : m.get? r with
  | none => exact hmap.of_none hu
  | some u =>
    obtain ⟨n, hn, rfl⟩ := hmap.of_some hu
    exact hn

/-- The same version with its pipelines in another order. -/
structure Reordered (v w : VersionSpec) : Prop where
  version : v.version = w.version
  desiredState : v.desiredState = w.desiredState
  pipelines : v.pipelines.Perm w.pipelines

/-- The same versions in another order, each with its pipelines in another order. -/
def Rearranged (vs ws : List VersionSpec) : Prop :=
  ∃ us, vs.Perm us ∧ List.Forall₂ Reordered us ws

lemma Reordered.asks_eq {v w : VersionSpec} (h : Reordered v w) (r : Reference) :
    asks r v = asks r w := by
  rw [asks, asks, VersionSpec.isActive, VersionSpec.isActive, h.desiredState, h.pipelines.any_eq]

/-- Rearranging leaves the askers as they are. -/
lemma Rearranged.askers_eq {vs ws : List VersionSpec} (h : Rearranged vs ws) (r : Reference) :
    askers vs r = askers ws r := by
  obtain ⟨us, hperm, hreordered⟩ := h
  have hnames : List.Forall₂ Eq ((us.filter (asks r)).map (·.version))
      ((ws.filter (asks r)).map (·.version)) := by
    apply List.rel_map fun v w hvw => Reordered.version hvw
    apply List.rel_filter _ hreordered
    intro v w hvw
    exact Bool.eq_iff_iff.mp (hvw.asks_eq r)
  calc askers vs r
      = askers us r := List.toFinset_eq_of_perm _ _ ((hperm.filter _).map _)
    _ = askers ws r := congrArg List.toFinset (List.forall₂_eq_eq_eq ▸ hnames)

/-- Rearranging what is asked for leaves the keys and the counts as they are. -/
theorem counts_build_rearranged {recorded : List VersionStatus}
    {desired desired' : List VersionSpec} (hrearranged : Rearranged desired desired')
    {m m' : UseMap} (h : build recorded desired = .ok m) (h' : build recorded desired' = .ok m') :
    m'.counts = m.counts := by
  have hkeys : ∀ r, r ∈ m'.keys ↔ r ∈ m.keys := fun r => by
    rw [mem_keys_build h', mem_keys_build h, ← askers_nonempty, ← askers_nonempty,
      hrearranged.askers_eq r]
  refine SortedMap.ext_get? fun r => ?_
  rw [get?_counts, get?_counts]
  cases hu : m.get? r with
  | none =>
    have hnot : ¬ r ∈ m'.keys := by
      simp [hkeys, SortedMap.mem_keys_iff, hu]
    rw [SortedMap.mem_keys_iff, Option.not_isSome_iff_eq_none] at hnot
    rw [hnot, Option.map_none]
  | some u =>
    have hin : r ∈ m'.keys := by
      rw [hkeys, SortedMap.mem_keys_iff, hu, Option.isSome_some]
    obtain ⟨u', hu'⟩ := Option.isSome_iff_exists.mp (SortedMap.mem_keys_iff.mp hin)
    rw [hu', Option.map_some, Option.map_some, useCount_eq_tally h hu, useCount_eq_tally h' hu',
      hrearranged.askers_eq r]

/-- The use map is always built.  Its keys are the archives that a recorded version or an active
one lists; the count of an archive is the number of its askers, and beyond them the number of its
occurrences in the record less that of its recorders, who are the versions of its entry.  An archive
that is asked for counts at least once, and to list the versions or their pipelines in another order
changes neither keys nor counts. -/
theorem exists_tally_of_build (recorded : List VersionStatus) (desired : List VersionSpec) :
    ∃ m, build recorded desired = .ok m ∧
      (∀ r, r ∈ m.keys ↔ (∃ v ∈ recorded, ∃ p ∈ v.pipelines, Reference.ofStatus p = r) ∨
        ∃ v ∈ desired, v.isActive ∧ ∃ p ∈ v.pipelines, Reference.ofSpec p = r) ∧
      (∀ r u, m.get? r = some u →
        u.useCount =
          (askers desired r).card + occurrences recorded r - (recorders recorded r).card ∧
        u.statusVersions.keys.toFinset = recorders recorded r ∧
        ((∃ v ∈ desired, v.isActive ∧ ∃ p ∈ v.pipelines, Reference.ofSpec p = r) →
          1 ≤ u.useCount)) ∧
      ∀ desired', Rearranged desired desired' →
        ∃ m', build recorded desired' = .ok m' ∧ m'.counts = m.counts := by
  obtain ⟨m, hm, -⟩ := build_eq_ok recorded desired
  refine ⟨m, hm, mem_keys_build hm, ?_, ?_⟩
  · intro r u hu
    exact ⟨useCount_eq_tally hm hu, statusVersions_eq_recorders hm hu, one_le_useCount hm hu⟩
  · intro desired' hrearranged
    obtain ⟨m', hm', -⟩ := build_eq_ok recorded desired'
    exact ⟨m', hm', counts_build_rearranged hrearranged hm hm'⟩

end UseMap

end PipelineStacks
