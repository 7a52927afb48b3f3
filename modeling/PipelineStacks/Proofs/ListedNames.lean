import PipelineStacks.Proofs.ArchiveIntegrity

/-!
# The names of files in an archive and in its index

A file of an archive is looked for in the index under its name without one sign for the current
folder, while the names in the index are taken without any of these signs.  The two agree exactly
for names that do not start with two of them (`Index.listedName_eq_normalName_iff`).  No index
lists a file with such a name for the archive (`Index.lookup_normalName_of_deep`), not even one
that gives the name letter by letter: then the archive is refused for a file that it lists
(`Archive.listed_file_is_unindexed_iff`).
-/

namespace PipelineStacks

namespace Text

variable {p cs : List Char}

/-! ## Dropping a prefix once and as often as it is there -/

lemma dropPrefix?_eq_none_iff : dropPrefix? p cs = none ↔ ¬ p <+: cs := by
  rw [Option.eq_none_iff_forall_ne_some, ← not_exists, not_iff_not]
  refine exists_congr fun rest => ?_
  rw [dropPrefix?_eq_some_iff, eq_comm]

/-- Without the prefix there is nothing to drop. -/
lemma dropPrefixes_eq_self (h : ¬ p <+: cs) : dropPrefixes p cs = cs := by
  rw [← dropPrefix?_eq_none_iff] at h
  unfold dropPrefixes
  split
  · rfl
  · next rest hrest => simp [h] at hrest

/-- A prefix that is there is dropped with those behind it. -/
lemma dropPrefixes_append (hp : p ≠ []) (rest : List Char) :
    dropPrefixes p (p ++ rest) = dropPrefixes p rest := by
  have hsome : dropPrefix? p (p ++ rest) = some rest := dropPrefix?_eq_some_iff.mpr rfl
  rw [dropPrefixes]
  split
  · next hnone => simp [hsome] at hnone
  · next rest' hrest =>
    obtain rfl : rest = rest' := Option.some.inj (hsome.symm.trans hrest)
    rw [dif_neg hp]

/-- No prefix is left. -/
lemma not_isPrefixOf_dropPrefixes (hp : p ≠ []) (cs : List Char) : ¬ p <+: dropPrefixes p cs := by
  fun_induction dropPrefixes p cs with
  | case1 cs hnone => exact dropPrefix?_eq_none_iff.mp hnone
  | case2 cs rest hrest hempty => exact absurd hempty hp
  | case3 cs rest hrest _ _ ih => exact ih

end Text

namespace Index

open Text

/-- The index gives a file of this name, letter by letter. -/
def Lists (index : Index) (name : String) : Prop :=
  ∃ entry ∈ index.contents, entry.file = name

/-- The name starts with two signs for the current folder. -/
def Deep (name : String) : Prop :=
  here ++ here <+: name.toList

instance (index : Index) (name : String) : Decidable (index.Lists name) :=
  inferInstanceAs (Decidable (∃ entry ∈ index.contents, entry.file = name))

instance (name : String) : Decidable (Deep name) :=
  inferInstanceAs (Decidable (here ++ here <+: name.toList))

lemma here_ne_nil : here ≠ [] := by
  decide

lemma toList_normalName (name : String) :
    (normalName name).toList = (dropPrefix? here name.toList).getD name.toList := by
  unfold normalName
  cases dropPrefix? here name.toList <;> simp

/-- The two ways to take a name agree unless it starts with two signs. -/
theorem listedName_eq_normalName_iff {name : String} :
    listedName name = normalName name ↔ ¬ Deep name := by
  rw [← String.toList_inj, listedName, String.toList_ofList, toList_normalName, Deep]
  by_cases hname : here <+: name.toList
  · obtain ⟨rest, hrest⟩ := hname
    rw [← hrest, dropPrefixes_append here_ne_nil, dropPrefix?_eq_some_iff.mpr rfl,
      Option.getD_some, List.prefix_append_right_inj]
    refine ⟨fun h => h ▸ not_isPrefixOf_dropPrefixes here_ne_nil rest, dropPrefixes_eq_self⟩
  · rw [dropPrefixes_eq_self hname, dropPrefix?_eq_none_iff.mpr hname, Option.getD_none]
    exact iff_of_true rfl fun h => hname ((List.prefix_append _ _).trans h)

/-- A file of a name with two signs is found in no index. -/
theorem lookup_normalName_of_deep {name : String} (h : Deep name) (index : Index) :
    index.lookup (normalName name) = none := by
  obtain ⟨rest, hrest⟩ := h
  refine List.find?_eq_none.mpr fun entry _ hfound => ?_
  have hsame : listedName entry.file = normalName name := of_decide_eq_true hfound
  -- one of the two signs is left in the archive, and none in the index
  have hleft : here <+: (normalName name).toList := by
    rw [toList_normalName, ← hrest, List.append_assoc, dropPrefix?_eq_some_iff.mpr rfl]
    exact List.prefix_append _ _
  rw [← hsame, listedName, String.toList_ofList] at hleft
  exact not_isPrefixOf_dropPrefixes here_ne_nil _ hleft

/-- A file that is listed by its name is found under it, unless the name starts with two signs. -/
theorem lookup_normalName_isSome_iff {index : Index} {name : String} (h : index.Lists name) :
    (index.lookup (normalName name)).isSome ↔ ¬ Deep name := by
  constructor
  · intro hfound hdeep
    simp [lookup_normalName_of_deep hdeep] at hfound
  · intro hdeep
    obtain ⟨entry, hentry, rfl⟩ := h
    exact List.find?_isSome.mpr
      ⟨entry, hentry, decide_eq_true (listedName_eq_normalName_iff.mpr hdeep)⟩

end Index

/-- A sequence of attempts fails if the first does, or the second after the first. -/
lemma bind_eq_error {ε α β : Type} {x : Except ε α} {f : α → Except ε β} {error : ε} :
    x >>= f = .error error ↔ x = .error error ∨ ∃ a, x = .ok a ∧ f a = .error error := by
  cases x with
  | error e => simp [bind, Except.bind]
  | ok a => simp [bind, Except.bind]

/-- The bytes of a file are never at fault for its not being listed. -/
lemma Documents.decode_ne_unindexed {file sha256 name : String} {context : RenderContext}
    {raw : Bytes} : decode file sha256 context raw ≠ .error (.unindexedAsset name) := by
  unfold decode
  cases Template.renderManifest context raw with
  | error fault => simp
  | ok rendered => cases h : ofText sha256 rendered <;> simp [h]

namespace Archive

variable {index : Index} {context : RenderContext} {es : List Tar.Entry} {name : String}

/-- A file is refused as not listed if it is not found in the index, and for nothing else. -/
lemma decodeEntry_eq_unindexed {e : Tar.Entry} :
    decodeEntry index context e = .error (.unindexedAsset name) ↔
      index.lookup (nameOf e) = none ∧ e.name = name := by
  unfold decodeEntry
  cases index.lookup (nameOf e) with
  | none => simp
  | some listed =>
    simp only [reduceCtorEq, false_and, iff_false]
    split
    · simp
    · exact Documents.decode_ne_unindexed

/-- How decoding fails is decided by the first file at which it stops. -/
lemma decodeEntries_eq_error {error : PipelineError} :
    decodeEntries index context es = .error error ↔
      ∃ before e after, es = before ++ e :: after ∧
        (∀ b ∈ before, ∃ found, Verified index context b found) ∧
          decodeEntry index context e = .error error := by
  induction es with
  | nil => simp [decodeEntries]
  | cons e es ih =>
    simp only [decodeEntries, bind_eq_error, decodeEntry_eq_ok]
    constructor
    · rintro (herror | ⟨first, hfirst, hothers | ⟨others, -, h⟩⟩)
      · exact ⟨[], e, es, rfl, by simp, herror⟩
      · obtain ⟨before, e', after, rfl, hbefore, herror⟩ := ih.mp hothers
        exact ⟨e :: before, e', after, rfl, List.forall_mem_cons.mpr ⟨⟨first, hfirst⟩, hbefore⟩,
          herror⟩
      · cases h
    · rintro ⟨_ | ⟨e', before⟩, e'', after, hes, hbefore, herror⟩
      · obtain ⟨rfl, rfl⟩ := List.cons.inj hes
        exact .inl herror
      · obtain ⟨rfl, rfl⟩ := List.cons.inj hes
        obtain ⟨⟨first, hfirst⟩, hbefore⟩ := List.forall_mem_cons.mp hbefore
        exact .inr ⟨first, hfirst, .inl (ih.mpr ⟨before, e'', after, rfl, hbefore, herror⟩)⟩

/-- Decoding comes as far as a file of this name: the files in front of it are the ones that are
listed. -/
def Reaches (index : Index) (context : RenderContext) (files : Tar.Listing) (name : String) :
    Prop :=
  ∃ before e after, files.entries.filter isDecoded = before ++ e :: after ∧ e.name = name ∧
    ∀ b ∈ before, ∃ found, Verified index context b found

/-- An archive is refused for a file that is not listed if it is the first that is not found. -/
lemma decodeFiles_eq_unindexed {files : Tar.Listing} (hindexed : Indexed files index) :
    decodeFiles context files = .error (.unindexedAsset name) ↔
      index.lookup (Index.normalName name) = none ∧ Reaches index context files name := by
  have hentries : decodeFiles context files =
      decodeEntries index context (files.entries.filter isDecoded) := by
    rw [decodeFiles, index_eq_ok.mpr hindexed]
    rfl
  simp only [hentries, decodeEntries_eq_error, decodeEntry_eq_unindexed, nameOf, Reaches]
  constructor
  · rintro ⟨before, e, after, hes, hbefore, hnone, rfl⟩
    exact ⟨hnone, before, e, after, hes, rfl, hbefore⟩
  · rintro ⟨hnone, before, e, after, hes, rfl, hbefore⟩
    exact ⟨before, e, after, hes, hbefore, hnone, rfl⟩

/-- Of a file that the index gives letter by letter.  It is found in the index unless its name
starts with two signs for the current folder.  If it does, an archive with this index is refused as
if the file were not listed, as soon as decoding comes to it, and otherwise never. -/
theorem listed_file_is_unindexed_iff (hlists : index.Lists name) :
    ((index.lookup (Index.normalName name)).isSome ↔ ¬ Index.Deep name) ∧
    ∀ context files, Indexed files index →
      (decodeFiles context files = .error (.unindexedAsset name) ↔
        Index.Deep name ∧ Reaches index context files name) ∧
      ∀ raw, Tar.listing (Gzip.contents raw) = files →
        (decode context raw = .error (.unindexedAsset name) ↔
          Index.Deep name ∧ Reaches index context files name) := by
  have hfound := Index.lookup_normalName_isSome_iff hlists
  have hnone : index.lookup (Index.normalName name) = none ↔ Index.Deep name := by
    rw [← Option.not_isSome_iff_eq_none, hfound, not_not]
  refine ⟨hfound, fun context files hindexed => ?_⟩
  have hfiles : decodeFiles context files = .error (.unindexedAsset name) ↔
      Index.Deep name ∧ Reaches index context files name := by
    rw [decodeFiles_eq_unindexed hindexed, hnone]
  refine ⟨hfiles, ?_⟩
  rintro raw rfl
  exact hfiles

/-! ## A task and a pipeline -/

/-- The files of an archive with a task and a pipeline, which are listed letter by letter: one with
one sign for the current folder, the other one with two. -/
def listedFiles : Tar.Listing where
  entries := [
    ⟨"manifest.yaml", Utf8.encodeString
      "contents:\n- file: ./task.yaml\n- file: ././pipeline.yaml\n"⟩,
    ⟨"./task.yaml", Utf8.encodeString "apiVersion: v1\nkind: Task\n"⟩,
    ⟨"././pipeline.yaml", Utf8.encodeString "apiVersion: v1\nkind: Pipeline\n"⟩]
  fault := none

/-- Their index. -/
def listedIndex : Index :=
  ⟨[⟨"./task.yaml", ""⟩, ⟨"././pipeline.yaml", ""⟩]⟩

lemma indexed_listedFiles : Indexed listedFiles listedIndex :=
  index_eq_ok.mp (by decide +kernel)

/-- The task is found, so the archive is not refused for it. -/
theorem listed_task_is_found :
    listedIndex.Lists "./task.yaml" ∧ Indexed listedFiles listedIndex ∧
      (listedIndex.lookup (Index.normalName "./task.yaml")).isSome ∧
      decodeFiles {} listedFiles ≠ .error (.unindexedAsset "./task.yaml") := by
  have hlists : listedIndex.Lists "./task.yaml" := by decide +kernel
  have hdeep : ¬ Index.Deep "./task.yaml" := by decide +kernel
  obtain ⟨hfound, hfiles⟩ := listed_file_is_unindexed_iff hlists
  refine ⟨hlists, indexed_listedFiles, hfound.mpr hdeep, fun h => ?_⟩
  obtain ⟨hmore, -⟩ := (hfiles {} listedFiles indexed_listedFiles).1.mp h
  exact hdeep hmore

/-- The pipeline is not found, and the archive is refused for it, though the index lists it. -/
theorem listed_pipeline_is_unindexed :
    Text.endsWith ".yaml".toList "././pipeline.yaml".toList = true ∧
      listedIndex.Lists "././pipeline.yaml" ∧ Indexed listedFiles listedIndex ∧
      listedIndex.lookup (Index.normalName "././pipeline.yaml") = none ∧
      decodeFiles {} listedFiles = .error (.unindexedAsset "././pipeline.yaml") := by
  have hnone : listedIndex.lookup (Index.normalName "././pipeline.yaml") = none := by
    decide +kernel
  have hlength : (decodeFiles {} listedFiles).map List.length =
      .error (.unindexedAsset "././pipeline.yaml") := by
    decide +kernel
  refine ⟨by decide +kernel, by decide +kernel, indexed_listedFiles, hnone, ?_⟩
  cases hfiles : decodeFiles {} listedFiles with
  | error error =>
    rw [hfiles] at hlength
    exact congrArg _ (Except.error.inj hlength)
  | ok found =>
    rw [hfiles] at hlength
    cases hlength

end Archive

end PipelineStacks
