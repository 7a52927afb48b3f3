import Mathlib.Data.Finset.Dedup
import Mathlib.Data.Finset.Card
import PipelineStacks.Proofs.ObjectStore
import PipelineStacks.Proofs.SortedMap
import PipelineStacks.Reconcile.Pass

/-!
# Counting the uses of archives

The use map is built in three rounds over differently cleaned-up collections: every recorded use
counts, each recorded pair that is not asked for is taken back once, and each pair that is asked for
but not recorded is added once.  The first three sections say what each round leaves under a
reference (`get?_foldl_seed`, `foldlM_dropUse`, `get?_foldl_addUse`); together they give the map
that is built (`build_eq_ok`) and the count in closed form (`useCount_eq`).

The count is right but for one thing: a use that is recorded twice under one version name is counted
twice and taken back once.  `isNeeded_iff_desired_or_repeated` is the exact law, and
`needed_though_nobody_asks` shows how a version that lists an archive twice comes to need it for
ever.
-/

namespace PipelineStacks

namespace UseMap

/-- The uses of one archive. -/
def usesOf {α : Type} (r : Reference) (uses : List (Use × α)) : List (Use × α) :=
  uses.filter fun use => use.1.1 = r

lemma usesOf_concat {α : Type} (r : Reference) (uses : List (Use × α)) (use : Use × α) :
    usesOf r (uses ++ [use]) = usesOf r uses ++ if use.1.1 = r then [use] else [] := by
  by_cases h : use.1.1 = r <;> simp [usesOf, h]

lemma mem_usesOf {α : Type} {r : Reference} {uses : List (Use × α)} {use : Use × α} :
    use ∈ usesOf r uses ↔ use ∈ uses ∧ use.1.1 = r := by
  simp [usesOf]

/-- A version uses an archive if it is named among the uses of the archive. -/
lemma mem_map_usesOf {α : Type} {r : Reference} {uses : List (Use × α)} {version : String} :
    (version ∈ (usesOf r uses).map fun use => use.1.2) ↔ (r, version) ∈ uses.map Prod.fst := by
  simp only [List.mem_map, mem_usesOf]
  constructor
  · rintro ⟨use, ⟨huse, hr⟩, hversion⟩
    exact ⟨use, huse, Prod.ext hr hversion⟩
  · rintro ⟨use, huse, heq⟩
    exact ⟨use, ⟨huse, by rw [heq]⟩, by rw [heq]⟩

/-! ## Counting what is recorded -/

/-- What is known of an archive once its recorded uses are counted. -/
def seeded (uses : List (Use × PipelineStatus)) : Option Usage :=
  uses.head?.map fun first => {
    status := first.2
    useCount := uses.length
    statusVersions := .ofList (uses.map fun use => (use.1.2, ())) }

lemma seeded_concat (uses : List (Use × PipelineStatus)) (use : Use × PipelineStatus) :
    seeded (uses ++ [use]) =
      let u := (seeded uses).getD { status := use.2 }
      some { u with
        useCount := u.useCount + 1
        statusVersions := u.statusVersions.insert use.1.2 () } := by
  unfold seeded
  rw [List.map_append, List.map_singleton, SortedMap.ofList_concat]
  cases uses with
  | nil => rfl
  | cons first rest => simp

/-- Counting the recorded uses leaves under each reference what its own uses amount to. -/
theorem get?_foldl_seed (uses : List (Use × PipelineStatus)) (r : Reference) :
    (uses.foldl seed {}).get? r = seeded (usesOf r uses) := by
  induction uses using List.reverseRecOn with
  | nil => rfl
  | append_singleton uses use ih =>
    obtain ⟨⟨r', version⟩, p⟩ := use
    rw [List.foldl_concat, usesOf_concat]
    simp only [seed, SortedMap.get?_insert]
    by_cases h : r = r'
    · subst h
      rw [if_pos rfl, if_pos rfl, seeded_concat, ih]
    · rw [if_neg h, if_neg (Ne.symm h), List.append_nil, ih]

/-! ## Taking back what is not asked for -/

/-- How many of some uses are uses of an archive that are not asked for. -/
def dropped (desired : SortedMap Use PipelineSpec) (r : Reference) (uses : List Use) : Nat :=
  uses.countP fun use => use.1 = r && !desired.contains use

/-- The same usage with a lower count. -/
def lowered (u : Usage) (n : Nat) : Usage :=
  { u with useCount := u.useCount - n }

lemma lowered_zero (u : Usage) : lowered u 0 = u := by
  simp [lowered]

lemma lowered_lowered (u : Usage) (m n : Nat) : lowered (lowered u m) n = lowered u (n + m) := by
  simp only [lowered]
  congr 1
  omega

lemma dropped_cons (desired : SortedMap Use PipelineSpec) (r : Reference) (use : Use)
    (uses : List Use) :
    dropped desired r (use :: uses) =
      dropped desired r uses + if use.1 = r && !desired.contains use then 1 else 0 :=
  List.countP_cons

/-- Taking back uses of known archives succeeds and lowers the counts. -/
theorem foldlM_dropUse (desired : SortedMap Use PipelineSpec) {m : UseMap} {uses : List Use}
    (h : ∀ use ∈ uses, (m.get? use.1).isSome) :
    ∃ m', uses.foldlM (dropUse desired) m = .ok m' ∧ ∀ r, m'.get? r =
      (m.get? r).map fun u => lowered u (dropped desired r uses) := by
  induction uses generalizing m with
  | nil => exact ⟨m, rfl, fun r => by simp [dropped, lowered_zero]⟩
  | cons use uses ih =>
    have hrest : ∀ other ∈ uses, (m.get? other.1).isSome := fun other ho =>
      h other (List.mem_cons_of_mem _ ho)
    obtain ⟨u, hu⟩ := Option.isSome_iff_exists.mp (h use List.mem_cons_self)
    rw [List.foldlM_cons]
    by_cases hd : desired.contains use
    · have hstep : dropUse desired m use = .ok m := by simp [dropUse, hd]
      obtain ⟨m', hm', hget⟩ := ih hrest
      refine ⟨m', by rw [hstep]; exact hm', fun r => ?_⟩
      rw [hget r, dropped_cons]
      simp [hd]
    · have hstep : dropUse desired m use = .ok (m.insert use.1 (lowered u 1)) := by
        simp [dropUse, hd, hu, lowered]
      obtain ⟨m', hm', hget⟩ := @ih (m.insert use.1 (lowered u 1)) fun other ho => by
        rw [SortedMap.get?_insert]
        split
        · rfl
        · exact hrest other ho
      refine ⟨m', by rw [hstep]; exact hm', fun r => ?_⟩
      rw [hget r, dropped_cons, SortedMap.get?_insert]
      by_cases hr : r = use.1
      · subst hr
        simp [hu, hd, lowered_lowered]
      · simp [hr, Ne.symm hr]

/-! ## Adding what is asked for -/

/-- What is known of an archive once uses of it that are asked for are taken in. -/
def added (recorded : SortedMap Use Unit) (u : Usage) (uses : List (Use × PipelineSpec)) : Usage :=
  { u with
    skipCertVerification := u.skipCertVerification || uses.any (·.2.skipCertVerification)
    useCount := u.useCount + uses.countP fun use => !recorded.contains use.1 }

/-- The same for an archive that may not be known before. -/
def demanded (recorded : SortedMap Use Unit) (r : Reference) :
    Option Usage → List (Use × PipelineSpec) → Option Usage
  | some u, uses => some (added recorded u uses)
  | none, [] => none
  | none, use :: uses => some (added recorded { status := freshStatus r use.2 } (use :: uses))

lemma added_concat (recorded : SortedMap Use Unit) (u : Usage) (uses : List (Use × PipelineSpec))
    (use : Use × PipelineSpec) :
    added recorded u (uses ++ [use]) =
      let u := added recorded u uses
      { u with
        skipCertVerification := u.skipCertVerification || use.2.skipCertVerification
        useCount := if recorded.contains use.1 then u.useCount else u.useCount + 1 } := by
  by_cases h : recorded.contains use.1
  · simp [added, h, Bool.or_assoc]
  · simp [added, h, Bool.or_assoc, Int.add_assoc]

lemma demanded_concat (recorded : SortedMap Use Unit) (r : Reference) (o : Option Usage)
    (uses : List (Use × PipelineSpec)) (use : Use × PipelineSpec) :
    demanded recorded r o (uses ++ [use]) =
      let u := (demanded recorded r o uses).getD { status := freshStatus r use.2 }
      some { u with
        skipCertVerification := u.skipCertVerification || use.2.skipCertVerification
        useCount := if recorded.contains use.1 then u.useCount else u.useCount + 1 } := by
  cases o with
  | some u => simp only [demanded, added_concat, Option.getD_some]
  | none =>
    cases uses with
    | nil => simpa [demanded, added] using
        added_concat recorded { status := freshStatus r use.2 } [] use
    | cons first rest =>
      simp only [List.cons_append, demanded, Option.getD_some, ← added_concat]

/-- Taking in the uses that are asked for leaves under each reference what its own uses add. -/
theorem get?_foldl_addUse (recorded : SortedMap Use Unit) (m : UseMap)
    (uses : List (Use × PipelineSpec)) (r : Reference) :
    (uses.foldl (addUse recorded) m).get? r =
      demanded recorded r (m.get? r) (usesOf r uses) := by
  induction uses using List.reverseRecOn with
  | nil => cases h : m.get? r <;> simp [usesOf, demanded, added, h]
  | append_singleton uses use ih =>
    obtain ⟨⟨r', version⟩, p⟩ := use
    rw [List.foldl_concat, usesOf_concat]
    simp only [addUse, SortedMap.get?_insert]
    by_cases h : r = r'
    · subst h
      rw [if_pos rfl, if_pos rfl, demanded_concat, ih]
    · rw [if_neg h, if_neg (Ne.symm h), List.append_nil, ih]

/-! ## The map that is built -/

/-- The pairs of an archive and a version that are recorded, each once. -/
def recordedSet (recorded : List VersionStatus) : SortedMap Use Unit :=
  .ofList ((recordedUses recorded).map fun use => (use.1, ()))

/-- The pairs of an archive and an active version that are asked for, each once. -/
def desiredMap (desired : List VersionSpec) : SortedMap Use PipelineSpec :=
  .ofList (desiredUses desired)

lemma contains_recordedSet {recorded : List VersionStatus} {use : Use} :
    (recordedSet recorded).contains use = true ↔ use ∈ (recordedUses recorded).map Prod.fst := by
  rw [recordedSet, SortedMap.contains_ofList, List.map_map]
  rfl

lemma contains_desiredMap {desired : List VersionSpec} {use : Use} :
    (desiredMap desired).contains use = true ↔ use ∈ (desiredUses desired).map Prod.fst :=
  SortedMap.contains_ofList

lemma mem_recordedUses {recorded : List VersionStatus} {r : Reference} {version : String}
    {p : PipelineStatus} : ((r, version), p) ∈ recordedUses recorded ↔
      ∃ v ∈ recorded, p ∈ v.pipelines ∧ Reference.ofStatus p = r ∧ v.version = version := by
  simp only [recordedUses, List.mem_flatMap, List.mem_map, Prod.mk.injEq]
  constructor
  · rintro ⟨v, hv, q, hq, ⟨hr, hname⟩, rfl⟩
    exact ⟨v, hv, hq, hr, hname⟩
  · rintro ⟨v, hv, hp, hr, hname⟩
    exact ⟨v, hv, p, hp, ⟨hr, hname⟩, rfl⟩

lemma mem_desiredUses {desired : List VersionSpec} {r : Reference} {version : String}
    {p : PipelineSpec} : ((r, version), p) ∈ desiredUses desired ↔
      ∃ v ∈ desired, v.isActive ∧ p ∈ v.pipelines ∧ Reference.ofSpec p = r ∧
        v.version = version := by
  simp only [desiredUses, List.mem_flatMap, List.mem_filter, List.mem_map, Prod.mk.injEq]
  constructor
  · rintro ⟨v, ⟨hv, ha⟩, q, hq, ⟨hr, hname⟩, rfl⟩
    exact ⟨v, hv, ha, hq, hr, hname⟩
  · rintro ⟨v, hv, ha, hp, hr, hname⟩
    exact ⟨v, ⟨hv, ha⟩, p, hp, ⟨hr, hname⟩, rfl⟩

/-- The map is always built, and this is what it holds under a reference. -/
theorem build_eq_ok (recorded : List VersionStatus) (desired : List VersionSpec) :
    ∃ m, build recorded desired = .ok m ∧ ∀ r, m.get? r =
      demanded (recordedSet recorded) r
        ((seeded (usesOf r (recordedUses recorded))).map fun u =>
          lowered u (dropped (desiredMap desired) r (recordedSet recorded).keys))
        (usesOf r (desiredMap desired).entries) := by
  have hknown : ∀ use ∈ (recordedSet recorded).keys,
      (((recordedUses recorded).foldl seed {}).get? use.1).isSome := by
    intro use huse
    rw [← SortedMap.contains_iff_mem_keys, contains_recordedSet, List.mem_map] at huse
    obtain ⟨found, hfound, rfl⟩ := huse
    have hne : usesOf found.1.1 (recordedUses recorded) ≠ [] :=
      List.ne_nil_of_mem (mem_usesOf.mpr ⟨hfound, rfl⟩)
    rw [get?_foldl_seed, seeded, Option.isSome_map, List.isSome_head?]
    simpa using hne
  obtain ⟨m, hm, hget⟩ := foldlM_dropUse (desiredMap desired) hknown
  refine ⟨(desiredMap desired).entries.foldl (addUse (recordedSet recorded)) m, ?_, fun r => ?_⟩
  · change (do
      let counted ← (recordedSet recorded).keys.foldlM (dropUse (desiredMap desired))
        ((recordedUses recorded).foldl seed {})
      pure ((desiredMap desired).entries.foldl (addUse (recordedSet recorded)) counted)) = _
    rw [hm]
    rfl
  · rw [get?_foldl_addUse, hget, get?_foldl_seed]

/-- Some pipeline that asks for the archive in an active version, the last of each version, does not
want certificates to be verified. -/
def skips (desired : List VersionSpec) (r : Reference) : Bool :=
  (usesOf r (desiredMap desired).entries).any (·.2.skipCertVerification)

section Built

variable {recorded : List VersionStatus} {desired : List VersionSpec} {m : UseMap}

/-- What a map that was built holds under a reference. -/
lemma get?_build (h : build recorded desired = .ok m) (r : Reference) : m.get? r =
    demanded (recordedSet recorded) r
      ((seeded (usesOf r (recordedUses recorded))).map fun u =>
        lowered u (dropped (desiredMap desired) r (recordedSet recorded).keys))
      (usesOf r (desiredMap desired).entries) := by
  obtain ⟨m', hm', hget⟩ := build_eq_ok recorded desired
  obtain rfl : m' = m := Except.ok.inj (hm'.symm.trans h)
  exact hget r

/-- What is known of an archive comes from its first record if it is recorded, and else from the
first pipeline that asks for it. -/
lemma eq_added_of_get?_build (h : build recorded desired = .ok m) {r : Reference} {u : Usage}
    (hu : m.get? r = some u) :
    (∃ first rest, usesOf r (recordedUses recorded) = first :: rest ∧
      u = added (recordedSet recorded)
        (lowered {
          status := first.2
          useCount := (first :: rest).length
          statusVersions := .ofList ((first :: rest).map fun use => (use.1.2, ())) }
          (dropped (desiredMap desired) r (recordedSet recorded).keys))
        (usesOf r (desiredMap desired).entries)) ∨
    (usesOf r (recordedUses recorded) = [] ∧
      ∃ first rest, usesOf r (desiredMap desired).entries = first :: rest ∧
        u = added (recordedSet recorded) { status := freshStatus r first.2 } (first :: rest)) := by
  rw [get?_build h r] at hu
  cases hs : usesOf r (recordedUses recorded) with
  | cons first rest =>
    left
    simp only [hs, seeded, List.head?_cons, Option.map_some, demanded, Option.some.injEq] at hu
    exact ⟨first, rest, rfl, hu.symm⟩
  | nil =>
    right
    cases ht : usesOf r (desiredMap desired).entries with
    | nil => simp [hs, ht, seeded, demanded] at hu
    | cons first rest =>
      simp only [hs, ht, seeded, List.head?_nil, Option.map_none, demanded,
        Option.some.injEq] at hu
      exact ⟨rfl, first, rest, rfl, hu.symm⟩

/-- Nothing is loaded when a map is built. -/
lemma manifests_of_build (h : build recorded desired = .ok m) {r : Reference} {u : Usage}
    (hu : m.get? r = some u) : u.manifests = [] ∧ u.manifestError = none := by
  rcases eq_added_of_get?_build h hu with
    ⟨first, rest, -, rfl⟩ | ⟨-, first, rest, -, rfl⟩ <;> exact ⟨rfl, rfl⟩

/-- Whether certificates are verified hangs on what is asked for alone. -/
lemma skipCertVerification_of_build (h : build recorded desired = .ok m) {r : Reference} {u : Usage}
    (hu : m.get? r = some u) : u.skipCertVerification = skips desired r := by
  rcases eq_added_of_get?_build h hu with
    ⟨first, rest, -, rfl⟩ | ⟨-, first, rest, ht, rfl⟩
  · exact Bool.false_or _
  · rw [skips, ht]
    exact Bool.false_or _

/-- The versions of an entry are those under which its archive is recorded. -/
lemma contains_statusVersions_of_build (h : build recorded desired = .ok m) {r : Reference}
    {u : Usage} (hu : m.get? r = some u) {version : String} :
    u.statusVersions.contains version = true ↔
      (r, version) ∈ (recordedUses recorded).map Prod.fst := by
  rw [← mem_map_usesOf]
  rcases eq_added_of_get?_build h hu with
    ⟨first, rest, hs, rfl⟩ | ⟨hs, first, rest, -, rfl⟩
  · rw [hs]
    simp only [added, lowered, SortedMap.contains_ofList, List.map_map]
    rfl
  · rw [hs]
    simp [added, SortedMap.contains, SortedMap.get?, SortedMap.lookup,
      EmptyCollection.emptyCollection, SortedMap.empty]

end Built

/-! ## The count in closed form -/

/-- The names of the versions that use an archive. -/
def namesOf {α : Type} (r : Reference) (uses : List (Use × α)) : Finset String :=
  ((usesOf r uses).map fun use => use.1.2).toFinset

lemma mem_namesOf {α : Type} {r : Reference} {uses : List (Use × α)} {version : String} :
    version ∈ namesOf r uses ↔ (r, version) ∈ uses.map Prod.fst := by
  rw [namesOf, List.mem_toFinset, mem_map_usesOf]

/-- Among distinct pairs those of one archive are counted by the names of their versions. -/
lemma countP_eq_card {α : Type} {uses : List (Use × α)} {pairs : List Use} (hnodup : pairs.Nodup)
    (hmem : ∀ use, use ∈ pairs ↔ use ∈ uses.map Prod.fst) (r : Reference) (q : Use → Bool) :
    pairs.countP (fun use => use.1 = r && q use) =
      ((namesOf r uses).filter fun version => q (r, version)).card := by
  set chosen := pairs.filter fun use => use.1 = r && q use with hchosen
  have hinj : (chosen.map Prod.snd).Nodup := by
    refine List.Nodup.map_on (fun x hx y hy hxy => ?_) (hnodup.filter _)
    simp only [List.mem_filter, Bool.and_eq_true, decide_eq_true_eq, hchosen] at hx hy
    exact Prod.ext (hx.2.1.trans hy.2.1.symm) hxy
  have hnames : (chosen.map Prod.snd).toFinset =
      (namesOf r uses).filter fun version => q (r, version) := by
    ext version
    simp only [List.mem_toFinset, List.mem_map, Finset.mem_filter, mem_namesOf, ← hmem, hchosen,
      List.mem_filter, Bool.and_eq_true, decide_eq_true_eq]
    constructor
    · rintro ⟨use, ⟨huse, hr, hq⟩, rfl⟩
      have heq : (r, use.2) = use := Prod.ext hr.symm rfl
      rw [heq]
      exact ⟨huse, hq⟩
    · rintro ⟨huse, hq⟩
      exact ⟨(r, version), ⟨huse, rfl, hq⟩, rfl⟩
  rw [List.countP_eq_length_filter, ← hnames, List.toFinset_card_of_nodup hinj, List.length_map]

variable (recorded : List VersionStatus) (desired : List VersionSpec)

/-- A version that is recorded but not asked for is taken back once. -/
lemma dropped_eq_card (r : Reference) :
    dropped (desiredMap desired) r (recordedSet recorded).keys =
      (namesOf r (recordedUses recorded) \ namesOf r (desiredUses desired)).card := by
  have hmem : ∀ use, use ∈ (recordedSet recorded).keys ↔
      use ∈ (recordedUses recorded).map Prod.fst := fun use => by
    rw [← SortedMap.contains_iff_mem_keys, contains_recordedSet]
  rw [dropped, countP_eq_card (recordedSet recorded).keys_nodup hmem]
  congr 1
  ext version
  simp [mem_namesOf, ← contains_desiredMap]

/-- A version that asks for an archive without being recorded is added once. -/
lemma countP_demanded_eq_card (r : Reference) :
    (usesOf r (desiredMap desired).entries).countP
        (fun use => !(recordedSet recorded).contains use.1) =
      (namesOf r (desiredUses desired) \ namesOf r (recordedUses recorded)).card := by
  have hmem : ∀ use, use ∈ (desiredMap desired).keys ↔
      use ∈ (desiredUses desired).map Prod.fst := fun use => by
    rw [← SortedMap.contains_iff_mem_keys, contains_desiredMap]
  have hkeys := countP_eq_card (desiredMap desired).keys_nodup hmem r
    fun use => !(recordedSet recorded).contains use
  rw [SortedMap.keys, List.countP_map] at hkeys
  rw [usesOf, List.countP_filter]
  calc (desiredMap desired).entries.countP _
      = (desiredMap desired).entries.countP _ := List.countP_congr fun use _ => by
        simp [and_comm]
    _ = _ := hkeys
    _ = _ := by
      congr 1
      ext version
      simp [mem_namesOf, ← contains_recordedSet]

variable {recorded desired} {m : UseMap}

/-- The count of an archive: the versions that ask for it, and beyond them every use that is
recorded again under a name under which it was recorded before. -/
theorem useCount_eq (h : build recorded desired = .ok m) {r : Reference} {u : Usage}
    (hu : m.get? r = some u) :
    u.useCount = (namesOf r (desiredUses desired)).card +
      (usesOf r (recordedUses recorded)).length - (namesOf r (recordedUses recorded)).card := by
  have hadd := Finset.card_sdiff_add_card (namesOf r (desiredUses desired))
    (namesOf r (recordedUses recorded))
  have hdrop := Finset.card_sdiff_add_card (namesOf r (recordedUses recorded))
    (namesOf r (desiredUses desired))
  rw [Finset.union_comm] at hdrop
  rw [← countP_demanded_eq_card] at hadd
  rw [← dropped_eq_card] at hdrop
  rcases eq_added_of_get?_build h hu with
    ⟨first, rest, hs, rfl⟩ | ⟨hs, first, rest, ht, rfl⟩
  · rw [hs]
    simp only [added, lowered]
    omega
  · have hnone : namesOf r (recordedUses recorded) = ∅ := by simp [namesOf, hs]
    rw [hnone] at hadd ⊢
    simp only [added, ht, hs, List.length_nil, Finset.card_empty] at hadd ⊢
    simp only [Finset.union_empty] at hadd
    omega

/-- Names are repeated in a list if there are more places than names. -/
lemma card_toFinset_lt_length_iff {names : List String} :
    names.toFinset.card < names.length ↔ ∃ name, 1 < names.count name := by
  rw [← not_iff_not, not_lt, not_exists, (List.toFinset_card_le names).ge_iff_eq', eq_comm]
  simp only [not_lt, ← List.nodup_iff_count_le_one]
  exact Multiset.toFinset_card_eq_card_iff_nodup

/-- A version repeats a use of an archive as often as the pair of both is repeated. -/
lemma count_map_usesOf {α : Type} (r : Reference) (uses : List (Use × α)) (version : String) :
    ((usesOf r uses).map fun use => use.1.2).count version =
      (uses.map Prod.fst).count (r, version) := by
  rw [List.count, List.countP_map, usesOf, List.countP_filter, List.count, List.countP_map]
  refine List.countP_congr fun use _ => ?_
  obtain ⟨⟨r', version'⟩, p⟩ := use
  simp [and_comm]

/-! ## What is needed -/

/-- Some active version asks for the archive. -/
lemma namesOf_desiredUses_nonempty {r : Reference} :
    (namesOf r (desiredUses desired)).Nonempty ↔
      ∃ v ∈ desired, v.isActive ∧ ∃ p ∈ v.pipelines, Reference.ofSpec p = r := by
  simp only [Finset.Nonempty, mem_namesOf, List.mem_map, Prod.exists, Prod.mk.injEq]
  constructor
  · rintro ⟨version, r', version', p, hmem, rfl, rfl⟩
    obtain ⟨v, hv, ha, hp, hr, -⟩ := mem_desiredUses.mp hmem
    exact ⟨v, hv, ha, p, hp, hr⟩
  · rintro ⟨v, hv, ha, p, hp, hr⟩
    exact ⟨v.version, r, v.version, p, mem_desiredUses.mpr ⟨v, hv, ha, hp, hr, rfl⟩, rfl, rfl⟩

/-- Every archive that an active version asks for has an entry. -/
lemma isSome_get?_of_desired (h : build recorded desired = .ok m) {v : VersionSpec}
    (hv : v ∈ desired) (ha : v.isActive) {p : PipelineSpec} (hp : p ∈ v.pipelines) :
    (m.get? (.ofSpec p)).isSome := by
  obtain ⟨version, hversion⟩ := namesOf_desiredUses_nonempty.mpr ⟨v, hv, ha, p, hp, rfl⟩
  rw [mem_namesOf, ← contains_desiredMap, SortedMap.contains_iff_mem_keys, SortedMap.keys,
    List.mem_map] at hversion
  obtain ⟨use, huse, hname⟩ := hversion
  have hmem : use ∈ usesOf (.ofSpec p) (desiredMap desired).entries :=
    mem_usesOf.mpr ⟨huse, by rw [hname]⟩
  obtain ⟨first, rest, ht⟩ := List.exists_cons_of_ne_nil (List.ne_nil_of_mem hmem)
  rw [get?_build h, ht]
  cases seeded (usesOf (.ofSpec p) (recordedUses recorded)) <;> rfl

/-- An entry of an archive that is not recorded is there because an active version asks for it. -/
lemma exists_desired_of_not_recorded (h : build recorded desired = .ok m) {r : Reference}
    {u : Usage} (hu : m.get? r = some u) (hnone : usesOf r (recordedUses recorded) = []) :
    ∃ v ∈ desired, v.isActive ∧ ∃ p ∈ v.pipelines, Reference.ofSpec p = r := by
  rcases eq_added_of_get?_build h hu with ⟨first, rest, hs, -⟩ | ⟨-, first, rest, ht, -⟩
  · rw [hnone] at hs
    cases hs
  · obtain ⟨hmem, hr⟩ := mem_usesOf.mp (ht ▸ List.mem_cons_self : first ∈ usesOf r _)
    refine namesOf_desiredUses_nonempty.mp ⟨first.1.2, mem_namesOf.mpr ?_⟩
    rw [← contains_desiredMap, SortedMap.contains_iff_mem_keys]
    exact List.mem_map.mpr ⟨first, hmem, Prod.ext hr rfl⟩

/-- Every archive that is recorded has an entry. -/
lemma isSome_get?_of_recorded (h : build recorded desired = .ok m) {v : VersionStatus}
    (hv : v ∈ recorded) {p : PipelineStatus} (hp : p ∈ v.pipelines) :
    (m.get? (.ofStatus p)).isSome := by
  have hmem : ((.ofStatus p, v.version), p) ∈ usesOf (.ofStatus p) (recordedUses recorded) :=
    mem_usesOf.mpr ⟨mem_recordedUses.mpr ⟨v, hv, hp, rfl, rfl⟩, rfl⟩
  obtain ⟨first, rest, hs⟩ := List.exists_cons_of_ne_nil (List.ne_nil_of_mem hmem)
  rw [get?_build h, hs]
  rfl

/-- An archive counts as needed if an active version asks for it, or if some use of it is
repeated. -/
lemma useCount_pos_iff (h : build recorded desired = .ok m) {r : Reference} {u : Usage}
    (hu : m.get? r = some u) : 0 < u.useCount ↔
      (∃ v ∈ desired, v.isActive ∧ ∃ p ∈ v.pipelines, Reference.ofSpec p = r) ∨
        ∃ version, 1 < ((recordedUses recorded).map Prod.fst).count (r, version) := by
  have hle := List.toFinset_card_le ((usesOf r (recordedUses recorded)).map fun use => use.1.2)
  rw [← namesOf_desiredUses_nonempty, ← Finset.card_pos]
  simp only [← count_map_usesOf]
  rw [← card_toFinset_lt_length_iff, useCount_eq h hu]
  simp only [List.length_map] at hle ⊢
  rw [← namesOf] at hle ⊢
  omega

/-- Some active version asks for the archive. -/
def Asked (desired : List VersionSpec) (r : Reference) : Prop :=
  ∃ v ∈ desired, v.isActive ∧ ∃ p ∈ v.pipelines, Reference.ofSpec p = r

/-- An archive that is asked for is needed. -/
lemma isNeeded_of_asked (h : build recorded desired = .ok m) {r : Reference} {u : Usage}
    (hu : m.get? r = some u) (hasked : Asked desired r) : u.isNeeded := by
  simpa [Usage.isNeeded] using (useCount_pos_iff h hu).mpr (Or.inl hasked)

lemma mem_toEnsure {r : Reference} {u : Usage} :
    (r, u) ∈ m.toEnsure ↔ m.get? r = some u ∧ 0 < u.useCount := by
  simp [toEnsure, SortedMap.mem_entries_iff, Usage.isNeeded]

lemma mem_toDelete {r : Reference} {u : Usage} :
    (r, u) ∈ m.toDelete ↔ m.get? r = some u ∧ ¬ 0 < u.useCount := by
  simp [toDelete, SortedMap.mem_entries_iff, Usage.isNeeded]

/-- An archive is held to be needed exactly if an active version asks for it, or if it is recorded
twice under the name of one version; the other entries are those to be given up.  Every archive that
is asked for has an entry. -/
theorem isNeeded_iff_desired_or_repeated (recorded : List VersionStatus)
    (desired : List VersionSpec) :
    ∃ m, build recorded desired = .ok m ∧
      (∀ r u, m.get? r = some u →
        (0 < u.useCount ↔
          (∃ v ∈ desired, v.isActive ∧ ∃ p ∈ v.pipelines, Reference.ofSpec p = r) ∨
            ∃ version, 1 < ((recordedUses recorded).map Prod.fst).count (r, version)) ∧
        ((r, u) ∈ m.toEnsure ↔ 0 < u.useCount) ∧
        ((r, u) ∈ m.toDelete ↔ ¬ 0 < u.useCount)) ∧
      ∀ v ∈ desired, v.isActive → ∀ p ∈ v.pipelines, (m.get? (.ofSpec p)).isSome := by
  obtain ⟨m, hm, -⟩ := build_eq_ok recorded desired
  refine ⟨m, hm, fun r u hu => ⟨useCount_pos_iff hm hu, ?_, ?_⟩, fun v hv ha p hp =>
    isSome_get?_of_desired hm hv ha hp⟩
  · rw [mem_toEnsure, and_iff_right hu]
  · rw [mem_toDelete, and_iff_right hu]

/-- A version that lists one archive under two names. -/
def listedTwice : VersionSpec where
  version := "1"
  pipelines := [.ofUrl "x" "https://e.com/p.yaml", .ofUrl "y" "https://e.com/p.yaml"]

/-- A pass over a version that lists an archive twice yields a status after which the archive counts
as needed when nothing is asked for any more. -/
theorem needed_though_nobody_asks :
    ∃ status, ((Stack.asking [listedTwice] []).reconcileActiveVersions.run outage ()).1 =
        .ok status ∧
      (build status.versions []).map (fun m =>
        (m.get? (.ofUrl "https://e.com/p.yaml")).map (·.useCount)) = .ok (some 1) := by
  refine ⟨_, rfl, ?_⟩
  decide +kernel

end UseMap

end PipelineStacks
