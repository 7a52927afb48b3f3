import PipelineStacks.Proofs.JsonText
import PipelineStacks.Proofs.Recorded

/-!
# A recorded status is read back

The status is the only memory between two passes, and it is kept as a text.  Every record of it is
read back from its value (`StackStatus.ofJson?_toJson`), where an option that is absent leaves no
field, and the value is one whose text can be read (`StackStatus.written_toJson`).

So the identity of an archive survives the way from the spec through the use map, the status and its
text into the next pass: `reference_kept_through_status`.
-/

namespace PipelineStacks

/-! ## Reading fields -/

namespace Fields

lemma get?_append {α : Type} (name : String) (fields fields' : List (String × α)) :
    get? name (fields ++ fields') = (get? name fields).or (get? name fields') := by
  induction fields with
  | nil => rfl
  | cons f fields ih =>
    obtain ⟨k, v⟩ := f
    by_cases h : name = k <;> simp [get?, h, ih]

end Fields

namespace Json

variable {α : Type}

lemma get?_fieldOf (name name' : String) (write : α → Json) (o : Option α) :
    Fields.get? name (fieldOf name' write o) = if name = name' then o.map write else none := by
  cases o <;> simp [fieldOf, Fields.get?]

/-- An option that leaves no field when it is absent is read back. -/
lemma optional_map {read : Json → Option α} {write : α → Json}
    (h : ∀ v, read (write v) = some v) (hnull : ∀ v, write v ≠ .null) (o : Option α) :
    optional read (o.map write) = some o := by
  cases o with
  | none => rfl
  | some v =>
    have hread := h v
    have hwrite := hnull v
    rw [Option.map_some]
    generalize write v = json at hread hwrite
    cases json with
    | null => exact (hwrite rfl).elim
    | _ => simp [optional, hread]

lemma optional_str (o : Option String) : optional string? (o.map str) = some o := by
  cases o <;> rfl

/-- A list is read back if its items are. -/
lemma list?_map {read : Json → Option α} {write : α → Json} (h : ∀ v, read (write v) = some v)
    (vs : List α) : list? read (.arr (vs.map write)) = some vs := by
  have hread : ∀ vs : List α, (vs.map write).mapM read = some vs := by
    intro vs
    induction vs with
    | nil => rfl
    | cons v vs ih => simp [h, ih]
  exact hread vs

/-- The name of an optional field is the one it is given. -/
lemma fieldOf_sublist (name : String) (write : α → Json) (o : Option α) :
    ((fieldOf name write o).map Prod.fst).Sublist [name] := by
  cases o <;> simp [fieldOf]

end Json

/-! ## The value of a status -/

open Json (row? required defaulted optional list? fieldOf)

theorem GitRelease.ofJson?_toJson (r : GitRelease) : ofJson? r.toJson = some r := by
  simp [ofJson?, toJson, row?, Fields.get?, defaulted, Json.string?]

theorem AssetState.ofJson?_text (s : AssetState) : ofJson? (.str s.text) = some s := by
  cases s <;> rfl

theorem DesiredState.ofJson?_text (s : DesiredState) : ofJson? (.str s.text) = some s := by
  cases s <;> rfl

theorem AssetStatus.ofJson?_toJson (a : AssetStatus) : ofJson? a.toJson = some a := by
  simp [ofJson?, toJson, row?, Fields.get?_append, Json.get?_fieldOf, Fields.get?, required,
    defaulted, Json.string?, AssetState.ofJson?_text, Json.optional_str]

theorem PipelineStatus.ofJson?_toJson (p : PipelineStatus) : ofJson? p.toJson = some p := by
  have hrelease := Json.optional_map GitRelease.ofJson?_toJson (fun _ => nofun) p.gitRelease
  have hassets := Json.list?_map AssetStatus.ofJson?_toJson p.activeAssets
  simp [ofJson?, toJson, row?, Fields.get?_append, Json.get?_fieldOf, Fields.get?, required,
    defaulted, Json.string?, Json.optional_str, hrelease, hassets]

theorem VersionStatus.ofJson?_toJson (v : VersionStatus) : ofJson? v.toJson = some v := by
  have hstate := Json.optional_map DesiredState.ofJson?_text (fun _ => nofun) v.state
  have hpipelines := Json.list?_map PipelineStatus.ofJson?_toJson v.pipelines
  simp [ofJson?, toJson, row?, Fields.get?_append, Json.get?_fieldOf, Fields.get?, required,
    defaulted, Json.string?, Json.optional_str, hstate, hpipelines]

/-- A status is read back from its value. -/
theorem StackStatus.ofJson?_toJson (s : StackStatus) : ofJson? s.toJson = some s := by
  have hversions := Json.list?_map VersionStatus.ofJson?_toJson s.versions
  simp [ofJson?, toJson, row?, Fields.get?_append, Json.get?_fieldOf, Fields.get?,
    defaulted, Json.optional_str, hversions]

/-! ## The text of a status -/

section Text

open Json (Written)

variable {depth : Nat}

/-- An object is written if its names are among names in order. -/
lemma Json.written_obj {names : List String} {fields : List (String × Json)}
    (hnames : names.Pairwise fun a b => Order.ofString a b = true)
    (hfields : (fields.map Prod.fst).Sublist names) (h : ∀ f ∈ fields, Written depth f.2) :
    Written (depth + 1) (.obj fields) :=
  .obj (hnames.sublist hfields) h

lemma Json.written_fieldOf {α : Type} {write : α → Json} (h : ∀ v, Written depth (write v))
    (name : String) (o : Option α) : ∀ f ∈ fieldOf name write o, Written depth f.2 := by
  cases o with
  | none => simp [fieldOf]
  | some v => simpa [fieldOf] using h v

lemma Json.written_arr_map {α : Type} {write : α → Json} (h : ∀ v, Written depth (write v))
    (vs : List α) : Written (depth + 1) (.arr (vs.map write)) := by
  refine .arr (List.forall_mem_map.mpr ?_)
  exact fun v _ => h v

open Json (written_obj written_fieldOf written_arr_map fieldOf_sublist)

lemma GitRelease.written_toJson (r : GitRelease) : Written (depth + 1) r.toJson := by
  have hnames : ["assetName", "hostname", "organization", "project", "release"].Pairwise
      fun a b => Order.ofString a b = true := by decide
  refine written_obj hnames (List.Sublist.refl _) ?_
  simp [Written.str]

lemma AssetStatus.written_toJson (a : AssetStatus) : Written (depth + 1) a.toJson := by
  have hnames : (["digest", "group", "kind", "name", "namespace", "status"] ++
      ["statusMessage"] ++ ["version"]).Pairwise fun a b => Order.ofString a b = true := by decide
  refine written_obj hnames ?_ ?_
  · rw [List.map_append, List.map_append]
    exact ((List.Sublist.refl _).append (fieldOf_sublist ..)).append (List.Sublist.refl _)
  · simp only [List.forall_mem_append]
    refine ⟨⟨?_, written_fieldOf .str _ _⟩, ?_⟩ <;> simp [Written.str]

lemma PipelineStatus.written_toJson (p : PipelineStatus) : Written (depth + 3) p.toJson := by
  have hnames : (["activeAssets", "digest"] ++ ["gitRelease"] ++ ["name"] ++ ["url"]).Pairwise
      fun a b => Order.ofString a b = true := by decide
  refine written_obj hnames ?_ ?_
  · simp only [List.map_append]
    exact (((List.Sublist.refl _).append (fieldOf_sublist ..)).append (List.Sublist.refl _)).append
      (fieldOf_sublist ..)
  · simp only [List.forall_mem_append]
    refine ⟨⟨⟨?_, written_fieldOf GitRelease.written_toJson _ _⟩, ?_⟩, written_fieldOf .str _ _⟩
    · simpa [Written.str] using written_arr_map AssetStatus.written_toJson p.activeAssets
    · simp [Written.str]

lemma VersionStatus.written_toJson (v : VersionStatus) : Written (depth + 5) v.toJson := by
  have hnames : (["location"] ++ ["pipelines"] ++ ["status"] ++ ["statusMessage"] ++
      ["version"]).Pairwise fun a b => Order.ofString a b = true := by decide
  refine written_obj hnames ?_ ?_
  · simp only [List.map_append]
    exact ((((fieldOf_sublist ..).append (List.Sublist.refl _)).append (fieldOf_sublist ..)).append
      (fieldOf_sublist ..)).append (List.Sublist.refl _)
  · simp only [List.forall_mem_append]
    refine ⟨⟨⟨⟨written_fieldOf .str _ _, ?_⟩, written_fieldOf (fun _ => .str _) _ _⟩,
      written_fieldOf .str _ _⟩, ?_⟩
    · simpa using written_arr_map PipelineStatus.written_toJson v.pipelines
    · simp [Written.str]

/-- The value of a status is one whose text is read back. -/
theorem StackStatus.written_toJson (s : StackStatus) : Written (depth + 7) s.toJson := by
  have hnames : (["summary"] ++ ["versions"]).Pairwise
      fun a b => Order.ofString a b = true := by decide
  refine written_obj hnames ?_ ?_
  · rw [List.map_append]
    exact (fieldOf_sublist ..).append (List.Sublist.refl _)
  · simp only [List.forall_mem_append]
    refine ⟨written_fieldOf .str _ _, ?_⟩
    simpa using written_arr_map VersionStatus.written_toJson s.versions

/-- A status is read back from its text. -/
theorem StackStatus.parse?_print (s : StackStatus) :
    (Json.parse? (Json.print s.toJson)).bind ofJson? = some s := by
  have hwritten : Written Json.maxDepth s.toJson := s.written_toJson
  rw [Json.parse?_print hwritten, Option.bind_some, s.ofJson?_toJson]

end Text

/-! ## The identity of archives -/

namespace StackStatus

variable (spec : StackSpec) (current : StackStatus) (m : UseMap)

/-- The records of an active version are about the archives that it lists. -/
lemma references_ofVersion {v : VersionSpec} (ha : v.isActive) :
    (ofVersion current m v).pipelines.map Reference.ofStatus =
      v.pipelines.map Reference.ofSpec := by
  rw [ofVersion, if_pos ha, List.map_map]
  refine List.map_congr_left fun p _ => ?_
  exact UseMap.ofStatus_freshStatus p p

/-- A version that is asked for is recorded in its place. -/
lemma getElem?_versions_build {i : Nat} {v : VersionSpec} (hv : spec.versions[i]? = some v) :
    (build spec current m).versions[i]? = some (ofVersion current m v) := by
  have hlt : i < (spec.versions.map (ofVersion current m)).length := by
    rw [List.length_map]
    exact (List.getElem?_eq_some_iff.mp hv).1
  rw [build, List.getElem?_append_left hlt, List.getElem?_map, hv, Option.map_some]

/-- What is asked for is recorded in the status, so a pass that starts from it knows the archive
under the version. -/
lemma known_of_build {v : VersionSpec} (hv : v ∈ spec.versions) (ha : v.isActive)
    {p : PipelineSpec} (hp : p ∈ v.pipelines) {next : UseMap}
    (hnext : UseMap.build (build spec current m).versions spec.versions = .ok next) :
    ∃ u, next.get? (.ofSpec p) = some u ∧ u.statusVersions.contains v.version = true := by
  obtain ⟨u, hu⟩ := Option.isSome_iff_exists.mp (UseMap.isSome_get?_of_desired hnext hv ha hp)
  obtain ⟨w, hw, hname, hrecord⟩ :=
    record_iff.mpr (Or.inl ⟨v, hv, rfl, ha, p, hp, rfl⟩)
  refine ⟨u, hu, (UseMap.contains_statusVersions_of_build hnext hu).mpr ?_⟩
  have huse : ((.ofSpec p, v.version), activePipeline m p) ∈
      UseMap.recordedUses (build spec current m).versions :=
    UseMap.mem_recordedUses.mpr ⟨w, hw, hrecord, UseMap.ofStatus_freshStatus p p, hname⟩
  exact List.mem_map_of_mem huse

end StackStatus

/-- The identity of an archive survives the way from one pass to the next.  Every entry of the use
map is about the archive under which it stands, when the map is built and after whatever a pass does
with it; the status made of any outcome records an active version in its place, with the archives
that it lists in their order; it is read back from its text unchanged; and the pass that starts from
it knows each archive that is asked for under the version that asks. -/
theorem reference_kept_through_status (spec : StackSpec) (current : StackStatus) :
    ∃ m, UseMap.build current.versions spec.versions = .ok m ∧
      (∀ r u, m.get? r = some u → Reference.ofStatus u.status = r) ∧
      (∀ (a : Activation) (σ : Type) (world : Program.World Effect.Answer σ) (t : σ) (r : Reference)
        (u : Usage), ((a.run m).run world t).1.get? r = some u →
          Reference.ofStatus u.status = r) ∧
      ∀ outcome : UseMap, ∃ status, StackStatus.build spec current outcome = status ∧
        (∀ (i : Nat) (v : VersionSpec), spec.versions[i]? = some v → v.isActive →
          ∃ w : VersionStatus, status.versions[i]? = some w ∧ w.version = v.version ∧
            w.pipelines.map Reference.ofStatus = v.pipelines.map Reference.ofSpec) ∧
        (Json.parse? (Json.print status.toJson)).bind StackStatus.ofJson? = some status ∧
        ∃ next, UseMap.build status.versions spec.versions = .ok next ∧
          ∀ v ∈ spec.versions, v.isActive → ∀ p ∈ v.pipelines,
            ∃ u, next.get? (.ofSpec p) = some u ∧
              u.statusVersions.contains v.version = true := by
  obtain ⟨m, hm, -⟩ := UseMap.build_eq_ok current.versions spec.versions
  refine ⟨m, hm, fun r u hu => UseMap.ofStatus_of_build hm hu, ?_,
    fun outcome => ⟨_, rfl, ?_, ?_, ?_⟩⟩
  · intro a σ world t r u hu
    exact Stack.ofStatus_of_run hm a world t hu
  · intro i v hv ha
    exact ⟨_, StackStatus.getElem?_versions_build spec current outcome hv,
      StackStatus.version_ofVersion current outcome v,
      StackStatus.references_ofVersion current outcome ha⟩
  · exact StackStatus.parse?_print _
  · obtain ⟨next, hnext, -⟩ :=
      UseMap.build_eq_ok (StackStatus.build spec current outcome).versions spec.versions
    exact ⟨next, hnext, fun v hv ha p hp =>
      StackStatus.known_of_build spec current outcome hv ha hp hnext⟩

end PipelineStacks
