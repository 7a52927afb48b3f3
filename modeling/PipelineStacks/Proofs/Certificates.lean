import PipelineStacks.Proofs.Tally

/-!
# Whether certificates are verified

A pipeline may ask that certificates are not verified when its archive is fetched.  An archive is
fetched once for all versions that ask for it, without verification if one of them wants that.  But
what is asked for is first collected under pairs of an archive and the name of a version, and of
each pair the last pipeline stays (`LastAsking`).  So the wish of a pipeline is lost behind a later
one of the same archive and name, and what is lost depends on the order in which they are listed
(`wish_is_lost_behind_later_pipeline`).

`unverified_iff_last_asks` says which wishes count.  No archive is fetched without verification
unless that is asked for; and where the pipelines of one pair are of one mind (`Unanimous`), one
wish is enough and the order does not matter.
-/

namespace PipelineStacks

namespace UseMap

/-- An active version lists the archive and asks that certificates are not verified. -/
def AskedUnverified (desired : List VersionSpec) (r : Reference) : Prop :=
  ∃ v ∈ desired, v.isActive ∧
    ∃ p ∈ v.pipelines, Reference.ofSpec p = r ∧ p.skipCertVerification = true

/-- Of the pipelines that are the archive under one name of a version, either all or none ask that
certificates are not verified. -/
def Unanimous (desired : List VersionSpec) (r : Reference) : Prop :=
  ∀ v ∈ desired, v.isActive → ∀ w ∈ desired, w.isActive → v.version = w.version →
    ∀ p ∈ v.pipelines, ∀ q ∈ w.pipelines, Reference.ofSpec p = r → Reference.ofSpec q = r →
      p.skipCertVerification = q.skipCertVerification

/-- The pipeline is the last that asks for the archive under the name of a version. -/
def LastAsking (desired : List VersionSpec) (r : Reference) (version : String) (p : PipelineSpec) :
    Prop :=
  ∃ before after, desiredUses desired = before ++ ((r, version), p) :: after ∧
    (r, version) ∉ after.map Prod.fst

variable {desired : List VersionSpec} {r : Reference} {version : String} {p : PipelineSpec}

lemma LastAsking.mem (h : LastAsking desired r version p) :
    ((r, version), p) ∈ desiredUses desired := by
  obtain ⟨before, after, hdesired, -⟩ := h
  rw [hdesired]
  exact List.mem_append_right before List.mem_cons_self

/-- What is collected under a pair is the last pipeline of it. -/
lemma mem_desiredMap_iff :
    ((r, version), p) ∈ (desiredMap desired).entries ↔ LastAsking desired r version p :=
  SortedMap.mem_entries_iff.trans SortedMap.get?_ofList_eq_some_iff

/-- Where there is a pipeline, there is a last one. -/
lemma exists_lastAsking (h : ((r, version), p) ∈ desiredUses desired) :
    ∃ q, LastAsking desired r version q := by
  have hcontains : (desiredMap desired).contains (r, version) = true :=
    contains_desiredMap.mpr (List.mem_map_of_mem h)
  rw [SortedMap.contains_iff_mem_keys, SortedMap.keys, List.mem_map] at hcontains
  obtain ⟨⟨use, q⟩, hmem, rfl⟩ := hcontains
  exact ⟨q, mem_desiredMap_iff.mp hmem⟩

lemma askedUnverified_iff : AskedUnverified desired r ↔
    ∃ version p, ((r, version), p) ∈ desiredUses desired ∧ p.skipCertVerification = true := by
  simp only [mem_desiredUses]
  constructor
  · rintro ⟨v, hv, ha, p, hp, hr, hskip⟩
    exact ⟨v.version, p, ⟨v, hv, ha, hp, hr, rfl⟩, hskip⟩
  · rintro ⟨version, p, ⟨v, hv, ha, hp, hr, -⟩, hskip⟩
    exact ⟨v, hv, ha, p, hp, hr, hskip⟩

lemma Unanimous.eq (h : Unanimous desired r) {q : PipelineSpec}
    (hp : ((r, version), p) ∈ desiredUses desired) (hq : ((r, version), q) ∈ desiredUses desired) :
    p.skipCertVerification = q.skipCertVerification := by
  obtain ⟨v, hv, hactive, hpv, hpr, rfl⟩ := mem_desiredUses.mp hp
  obtain ⟨w, hw, hactive', hqw, hqr, hname⟩ := mem_desiredUses.mp hq
  exact h v hv hactive w hw hactive' hname.symm p hpv q hqw hpr hqr

/-- Certificates are not verified if the last pipeline of some version asks for that. -/
lemma skips_iff : skips desired r = true ↔
    ∃ version p, LastAsking desired r version p ∧ p.skipCertVerification = true := by
  simp only [skips, List.any_eq_true, mem_usesOf]
  constructor
  · rintro ⟨⟨⟨r', version⟩, p⟩, ⟨hmem, rfl⟩, hskip⟩
    exact ⟨version, p, mem_desiredMap_iff.mp hmem, hskip⟩
  · rintro ⟨version, p, hlast, hskip⟩
    exact ⟨((r, version), p), ⟨mem_desiredMap_iff.mpr hlast, rfl⟩, hskip⟩

lemma askedUnverified_of_skips (h : skips desired r = true) : AskedUnverified desired r := by
  obtain ⟨version, p, hlast, hskip⟩ := skips_iff.mp h
  exact askedUnverified_iff.mpr ⟨version, p, hlast.mem, hskip⟩

/-- Where the pipelines of each name are of one mind, one wish is enough. -/
lemma skips_iff_of_unanimous (h : Unanimous desired r) :
    skips desired r = true ↔ AskedUnverified desired r := by
  refine ⟨askedUnverified_of_skips, fun hasked => ?_⟩
  obtain ⟨version, p, hp, hskip⟩ := askedUnverified_iff.mp hasked
  obtain ⟨q, hlast⟩ := exists_lastAsking hp
  exact skips_iff.mpr ⟨version, q, hlast, (h.eq hlast.mem hp).trans hskip⟩

/-! ## The order of what is asked for -/

/-- What the active versions ask for is the same in another order. -/
lemma Rearranged.desiredUses_perm {vs ws : List VersionSpec} (h : Rearranged vs ws) :
    (desiredUses vs).Perm (desiredUses ws) := by
  obtain ⟨us, hperm, hreordered⟩ := h
  have hsame : (desiredUses us).Perm (desiredUses ws) := by
    clear hperm
    induction hreordered with
    | nil => exact .nil
    | @cons v w us ws hvw _ ih =>
      have hpipelines : (v.pipelines.map fun p => ((Reference.ofSpec p, v.version), p)).Perm
          (w.pipelines.map fun p => ((Reference.ofSpec p, w.version), p)) := by
        rw [hvw.version]
        exact hvw.pipelines.map _
      have hactive : v.isActive = w.isActive := by
        rw [VersionSpec.isActive, VersionSpec.isActive, hvw.desiredState]
      unfold desiredUses at ih ⊢
      rw [List.filter_cons, List.filter_cons, hactive]
      split
      · exact hpipelines.append ih
      · exact ih
  exact ((hperm.filter _).flatMap_right _).trans hsame

lemma Rearranged.askedUnverified_iff {vs ws : List VersionSpec} (h : Rearranged vs ws) :
    AskedUnverified vs r ↔ AskedUnverified ws r := by
  simp only [UseMap.askedUnverified_iff, h.desiredUses_perm.mem_iff]

lemma Rearranged.unanimous {vs ws : List VersionSpec} (h : Rearranged vs ws)
    (hvs : Unanimous vs r) : Unanimous ws r := by
  intro v hv hactive w hw hactive' hname p hp q hq hpr hqr
  have hp' : ((r, v.version), p) ∈ desiredUses ws :=
    mem_desiredUses.mpr ⟨v, hv, hactive, hp, hpr, rfl⟩
  have hq' : ((r, v.version), q) ∈ desiredUses ws :=
    mem_desiredUses.mpr ⟨w, hw, hactive', hq, hqr, hname.symm⟩
  rw [← h.desiredUses_perm.mem_iff] at hp' hq'
  exact hvs.eq hp' hq'

/-- Where the pipelines of each name are of one mind, the order does not matter. -/
lemma skips_rearranged {vs ws : List VersionSpec} (h : Rearranged vs ws) (hvs : Unanimous vs r) :
    skips ws r = skips vs r := by
  rw [Bool.eq_iff_iff, skips_iff_of_unanimous hvs, skips_iff_of_unanimous (h.unanimous hvs),
    h.askedUnverified_iff]

/-- The archive of an entry is fetched without verifying certificates exactly if, for some name of a
version, the last pipeline that asks for it under that name wants this.  So it is never done unless
some pipeline asks for it.  If the pipelines of each name are of one mind, it is done as soon as one
of them asks for it, in whatever order the versions and their pipelines are listed. -/
theorem unverified_iff_last_asks (recorded : List VersionStatus) (desired : List VersionSpec) :
    ∃ m, build recorded desired = .ok m ∧ ∀ r u, m.get? r = some u →
      (u.skipCertVerification = true ↔
        ∃ version p, LastAsking desired r version p ∧ p.skipCertVerification = true) ∧
      (u.skipCertVerification = true → AskedUnverified desired r) ∧
      (Unanimous desired r →
        (u.skipCertVerification = true ↔ AskedUnverified desired r) ∧
        ∀ desired' m' u', Rearranged desired desired' → build recorded desired' = .ok m' →
          m'.get? r = some u' → u'.skipCertVerification = u.skipCertVerification) := by
  obtain ⟨m, hm, -⟩ := build_eq_ok recorded desired
  refine ⟨m, hm, fun r u hu => ?_⟩
  rw [skipCertVerification_of_build hm hu]
  refine ⟨skips_iff, askedUnverified_of_skips, fun hunanimous =>
    ⟨skips_iff_of_unanimous hunanimous, fun desired' m' u' hrearranged hm' hu' => ?_⟩⟩
  rw [skipCertVerification_of_build hm' hu']
  exact skips_rearranged hrearranged hunanimous

/-- A version that lists an archive twice; each pipeline asks as given whether certificates are not
verified. -/
def halfVerified (firstSkips secondSkips : Bool) : VersionSpec where
  version := "1"
  pipelines := [
    { id := "x", sha256 := "00",
      https := some { url := "https://e.com/p.yaml", skipCertVerification := firstSkips } },
    { id := "y", sha256 := "00",
      https := some { url := "https://e.com/p.yaml", skipCertVerification := secondSkips } }]

/-- Of two pipelines that name one archive in one version, the first asks that certificates are not
verified: they are verified.  In the other order they are not. -/
theorem wish_is_lost_behind_later_pipeline :
    AskedUnverified [halfVerified true false] (.ofUrl "https://e.com/p.yaml") ∧
    (build [] [halfVerified true false]).map (fun m =>
      (m.get? (.ofUrl "https://e.com/p.yaml")).map (·.skipCertVerification)) = .ok (some false) ∧
    (build [] [halfVerified false true]).map (fun m =>
      (m.get? (.ofUrl "https://e.com/p.yaml")).map (·.skipCertVerification)) = .ok (some true) := by
  refine ⟨⟨_, List.mem_singleton_self _, rfl, _, List.mem_cons_self, rfl, rfl⟩, ?_, ?_⟩ <;>
    decide +kernel

end UseMap

end PipelineStacks
