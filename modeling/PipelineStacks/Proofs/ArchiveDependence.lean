import Mathlib.Logic.Relation
import PipelineStacks.Proofs.ArchiveIntegrity

/-!
# What the assets of an archive depend on

The index of an archive is looked for among all entries before any file is decoded, and files of
other endings are never looked at.  So an archive with one index may be retouched (`Retouch`): the
index may stand anywhere, and entries without the ending come and go.  It decodes to the same assets
or to the same error (`decodeFiles_of_retouched`).  If it is decoded, what a file adds to the assets
is a function of the file's bytes, of its checksum in the index and of the context
(`contribution`), whatever else is in the archive.
-/

namespace PipelineStacks.Archive

/-! ## Retouched archives -/

/-- The name under which the entry is listed has the ending of the files that are decoded. -/
def isYaml (e : Tar.Entry) : Bool :=
  Text.endsWith ".yaml".toList (nameOf e).toList

/-- The index has the ending as well. -/
lemma isYaml_of_isIndex {e : Tar.Entry} (h : isIndex e = true) : isYaml e = true := by
  have hname : nameOf e = Index.fileName := by simpa [isIndex] using h
  rw [isYaml, hname]
  decide

/-- One change of the entries of an archive. -/
inductive Retouch : List Tar.Entry → List Tar.Entry → Prop
  /-- The index is moved behind some entries. -/
  | moveIndex (before between after : List Tar.Entry) {i : Tar.Entry} (hi : isIndex i = true) :
      Retouch (before ++ i :: (between ++ after)) (before ++ (between ++ i :: after))
  /-- An entry without the ending is put in somewhere. -/
  | insert (before after : List Tar.Entry) {e : Tar.Entry} (he : isYaml e = false) :
      Retouch (before ++ after) (before ++ e :: after)
  /-- An entry without the ending is changed into another one. -/
  | change (before after : List Tar.Entry) {e e' : Tar.Entry} (he : isYaml e = false)
      (he' : isYaml e' = false) : Retouch (before ++ e :: after) (before ++ e' :: after)

variable {es es' : List Tar.Entry}

lemma isIndex_of_not_isYaml {e : Tar.Entry} (h : isYaml e = false) : isIndex e = false := by
  rw [← Bool.not_eq_true] at h ⊢
  exact fun hindex => h (isYaml_of_isIndex hindex)

lemma isDecoded_of_not_isYaml {e : Tar.Entry} (h : isYaml e = false) : isDecoded e = false :=
  Bool.and_eq_false_iff.mpr (Or.inr h)

lemma isDecoded_of_isIndex {e : Tar.Entry} (h : isIndex e = true) : isDecoded e = false := by
  rw [isDecoded, h]
  rfl

/-- A change leaves the files that are decoded as they are, and keeps the indexes. -/
lemma Retouch.kept (h : Retouch es es') : es.filter isDecoded = es'.filter isDecoded ∧
    (es.filter isIndex).Perm (es'.filter isIndex) := by
  cases h with
  | moveIndex before between after hi =>
    constructor
    · simp [List.filter_append, isDecoded_of_isIndex hi]
    · simp only [List.filter_append, List.filter_cons_of_pos hi]
      exact List.perm_middle.symm.append_left _
  | insert before after he =>
    simp [List.filter_append, isDecoded_of_not_isYaml he, isIndex_of_not_isYaml he]
  | change before after he he' =>
    simp [List.filter_append, isDecoded_of_not_isYaml he, isIndex_of_not_isYaml he,
      isDecoded_of_not_isYaml he', isIndex_of_not_isYaml he']

/-- So do any changes, forth and back. -/
lemma kept_of_eqvGen (h : Relation.EqvGen Retouch es es') :
    es.filter isDecoded = es'.filter isDecoded ∧
      (es.filter isIndex).Perm (es'.filter isIndex) := by
  induction h with
  | rel es es' hstep => exact hstep.kept
  | refl es => exact ⟨rfl, .refl _⟩
  | symm es es' _ ih => exact ⟨ih.1.symm, ih.2.symm⟩
  | trans es es' es'' _ _ ih ih' => exact ⟨ih.1.trans ih'.1, ih.2.trans ih'.2⟩

/-- Other entries have no part in which index is found. -/
lemma indexAmong_filter (found : Option Index) (es : List Tar.Entry) :
    indexAmong found (es.filter isIndex) = indexAmong found es := by
  induction es generalizing found with
  | nil => rfl
  | cons e es ih =>
    by_cases he : isIndex e
    · rw [List.filter_cons_of_pos he, indexAmong, indexAmong, if_pos he, if_pos he]
      cases Index.ofBytes e.data with
      | error reason => rfl
      | ok index => exact ih (some index)
    · rw [List.filter_cons_of_neg he, ih, indexAmong, if_neg he]

/-- Archives with the same indexes and the same files to be decoded come to the same. -/
lemma decodeFiles_congr {context : RenderContext} {fault : Option Tar.Fault}
    (hindex : es.filter isIndex = es'.filter isIndex)
    (hdecoded : es.filter isDecoded = es'.filter isDecoded) :
    decodeFiles context ⟨es, fault⟩ = decodeFiles context ⟨es', fault⟩ := by
  have hsame : Archive.index ⟨es, fault⟩ = Archive.index ⟨es', fault⟩ := by
    unfold Archive.index
    rw [← indexAmong_filter none es, hindex, indexAmong_filter]
  unfold decodeFiles
  rw [hsame, hdecoded]

/-- If there is one index, an archive comes to the same however it is retouched. -/
theorem decodeFiles_of_retouched {context : RenderContext} {fault : Option Tar.Fault}
    (hone : (es.filter isIndex).length = 1) (h : Relation.EqvGen Retouch es es') :
    decodeFiles context ⟨es, fault⟩ = decodeFiles context ⟨es', fault⟩ := by
  obtain ⟨hdecoded, hperm⟩ := kept_of_eqvGen h
  obtain ⟨i, hi⟩ := List.length_eq_one_iff.mp hone
  rw [hi, List.singleton_perm] at hperm
  exact decodeFiles_congr (hi.trans hperm) hdecoded

/-! ## What a file adds -/

/-- The assets that a file with these bytes adds under a checksum. -/
def contribution (context : RenderContext) (sha256 : String) (raw : Bytes) : List Asset :=
  match Documents.decode "" sha256 context raw with
  | .ok found => found
  | .error _ => []

/-- What a file is decoded to does not depend on its name. -/
lemma eq_contribution {file sha256 : String} {context : RenderContext} {raw : Bytes}
    {found : List Asset} (h : Documents.decode file sha256 context raw = .ok found) :
    found = contribution context sha256 raw := by
  rw [contribution, Documents.decode_eq_ok.mpr (Documents.decode_eq_ok.mp h)]

/-- A file of an archive adds what its bytes and its checksum in the index say. -/
lemma eq_contribution_of_decodeEntry {index : Index} {context : RenderContext} {e : Tar.Entry}
    {found : List Asset} (h : decodeEntry index context e = .ok found) :
    ∃ listed, index.lookup (nameOf e) = some listed ∧
      found = contribution context listed.sha256 e.data := by
  obtain ⟨listed, hlisted, -, rendered, hrendered, hreads⟩ := decodeEntry_eq_ok.mp h
  have hdecode : Documents.decode e.name listed.sha256 context e.data = .ok found :=
    Documents.decode_eq_ok.mpr ⟨rendered, hrendered, Documents.ofText_eq_ok.mpr hreads⟩
  exact ⟨listed, hlisted, eq_contribution hdecode⟩

/-- The checksum that an index lists for an entry. -/
def checksumOf (index : Index) (e : Tar.Entry) : String :=
  ((index.lookup (nameOf e)).map (·.sha256)).getD ""

/-- The assets of files are what each of them adds. -/
lemma eq_flatMap_contribution {index : Index} {context : RenderContext} {found : List Asset}
    (h : decodeEntries index context es = .ok found) :
    (∀ e ∈ es, (index.lookup (nameOf e)).isSome) ∧
      found = es.flatMap fun e => contribution context (checksumOf index e) e.data := by
  induction es generalizing found with
  | nil =>
    cases h
    exact ⟨by simp, rfl⟩
  | cons e es ih =>
    unfold decodeEntries at h
    obtain ⟨first, hfirst, h⟩ := bind_eq_ok.mp h
    obtain ⟨others, hothers, h⟩ := bind_eq_ok.mp h
    cases h
    obtain ⟨listed, hlisted, hadds⟩ := eq_contribution_of_decodeEntry hfirst
    obtain ⟨hall, hrest⟩ := ih hothers
    refine ⟨List.forall_mem_cons.mpr ⟨by rw [hlisted]; rfl, hall⟩, ?_⟩
    rw [List.flatMap_cons, ← hrest, hadds, checksumOf, hlisted]
    rfl

/-- An archive that is read to its end and has one index comes to the same, assets or error, after
the index was moved and entries without the ending were put in, taken out and changed, as often as
one likes.  If it is decoded, its assets are those that its files add, in order: each what its bytes
come to under its checksum in the index, in the context, and under no influence of other files. -/
theorem assets_depend_on_index_and_files (context : RenderContext)
    (hone : (es.filter isIndex).length = 1) :
    (∀ es', Relation.EqvGen Retouch es es' →
      decodeFiles context ⟨es', none⟩ = decodeFiles context ⟨es, none⟩ ∧
      ∀ raw raw', Tar.listing (Gzip.contents raw) = ⟨es, none⟩ →
        Tar.listing (Gzip.contents raw') = ⟨es', none⟩ →
          decode context raw' = decode context raw) ∧
    ∀ found, decodeFiles context ⟨es, none⟩ = .ok found →
      ∃ i ∈ es, isIndex i = true ∧ ∃ index, Index.ofBytes i.data = .ok index ∧
        (∀ e ∈ es.filter isDecoded, (index.lookup (nameOf e)).isSome) ∧
        found = (es.filter isDecoded).flatMap fun e =>
          contribution context (checksumOf index e) e.data := by
  refine ⟨fun es' h => ⟨(decodeFiles_of_retouched hone h).symm, ?_⟩, fun found hfound => ?_⟩
  · intro raw raw' hraw hraw'
    unfold decode
    rw [hraw, hraw']
    exact (decodeFiles_of_retouched hone h).symm
  · obtain ⟨index, hindex, hentries⟩ := bind_eq_ok.mp hfound
    obtain ⟨-, -, i, hi, hread⟩ := index_eq_ok.mp hindex
    obtain ⟨hi, hisIndex⟩ := List.mem_filter.mp (List.mem_of_getLast? hi)
    exact ⟨i, hi, hisIndex, index, hread, eq_flatMap_contribution hentries⟩

/-! ## A task and its index -/

/-- The index that lists the task. -/
def taskIndex : Tar.Entry :=
  ⟨"manifest.yaml", Utf8.encodeString "contents:\n- file: task.yaml\n"⟩

/-- The file with the task. -/
def taskFile : Tar.Entry :=
  ⟨"./task.yaml", Utf8.encodeString "apiVersion: tekton.dev/v1\nkind: Task\n"⟩

/-- A file that is passed over. -/
def readme : Tar.Entry :=
  ⟨"README.md", Utf8.encodeString "#Kabanero! is no directive here\n"⟩

lemma retouched_task :
    Relation.EqvGen Retouch [taskIndex, taskFile] [readme, taskFile, taskIndex] :=
  .trans _ _ _ (.rel _ _ (.moveIndex [] [taskFile] [] (by decide)))
    (.rel _ _ (.insert [] [taskFile, taskIndex] (by decide)))

lemma decodeFiles_task : (decodeFiles {} ⟨[taskIndex, taskFile], none⟩).map
    (·.map (·.kind)) = .ok [⟨"tekton.dev", "v1", "Task"⟩] := by
  decide +kernel

/-- The task is found behind another file and before the index. -/
theorem task_is_found_before_index :
    ([taskIndex, taskFile].filter isIndex).length = 1 ∧
      (decodeFiles {} ⟨[readme, taskFile, taskIndex], none⟩).map (·.map (·.kind)) =
        .ok [⟨"tekton.dev", "v1", "Task"⟩] := by
  have hone : ([taskIndex, taskFile].filter isIndex).length = 1 := by decide
  obtain ⟨hsame, -⟩ := (assets_depend_on_index_and_files {} hone).1 _ retouched_task
  rw [hsame]
  exact ⟨hone, decodeFiles_task⟩

end PipelineStacks.Archive
