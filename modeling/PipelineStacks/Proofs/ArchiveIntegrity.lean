import Mathlib.Data.List.Forall2
import Mathlib.Tactic.Common
import PipelineStacks.Pipeline.Fetch

/-!
# The integrity of archives

What a successful read of an archive means, level by level and in both directions: an asset
describes a value (`Documents.Describes`), the assets of a text are those of its values that are not
null (`Documents.Reads`), a file is the one that the index lists (`Archive.Verified`), and an
archive delivers the assets of all its files (`Archive.Delivers`).  At each level the reader
succeeds with some assets if and only if they are the ones so described, so one bad document, file
or index leaves none.

`getManifests_eq_ok_iff_delivers` puts the levels together behind the one fetch from the source.
-/

namespace PipelineStacks

/-- A sequence of attempts succeeds if both do. -/
lemma bind_eq_ok {ε α β : Type} {x : Except ε α} {f : α → Except ε β} {b : β} :
    x >>= f = .ok b ↔ ∃ a, x = .ok a ∧ f a = .ok b := by
  cases x with
  | error e => simp [bind, Except.bind]
  | ok a => simp [bind, Except.bind]

/-- Each element is related to one of the other list. -/
lemma exists_of_forall₂ {α β : Type} {R : α → β → Prop} {xs : List α} {ys : List β}
    (h : List.Forall₂ R xs ys) {x : α} (hx : x ∈ xs) : ∃ y ∈ ys, R x y := by
  induction h with
  | nil => cases hx
  | cons hR hrest ih =>
    rcases List.mem_cons.mp hx with rfl | hx
    · exact ⟨_, List.mem_cons_self, hR⟩
    · obtain ⟨y, hy, hxy⟩ := ih hx
      exact ⟨y, List.mem_cons_of_mem _ hy, hxy⟩

/-! ## Documents -/

/-- The asset is the object that the value means, under the checksum of its file. -/
structure Documents.Describes (sha256 : String) (v : Yaml.Value) (m : Asset) : Prop where
  object : ∃ json, v.toJson? = some json ∧ Object.ofJson? json = some m.object
  kind : ∃ t, m.object.typeName = some t ∧ t.kind ≠ "" ∧ m.kind = .ofApiVersion t.apiVersion t.kind
  name : m.name = m.object.nameText
  sha256 : m.sha256 = sha256

/-- The assets are those of all documents of the text that are not null, in order. -/
structure Documents.Reads (sha256 : String) (text : List Char) (found : List Asset) : Prop where
  complete : (Yaml.Document.stream text).fault = none
  described : ∃ values, List.Forall₂ (fun d v => d.value = .ok v)
    (Yaml.Document.stream text).documents values ∧
      List.Forall₂ (Describes sha256) (values.filter fun v => !v.isNull) found

/-- An asset is made of an object that tells its kind. -/
lemma ofObject_eq_ok {sha256 : String} {o : Object} {m : Asset} :
    Asset.ofObject sha256 o = .ok m ↔
      (∃ t, o.typeName = some t ∧ t.kind ≠ "" ∧ m.kind = .ofApiVersion t.apiVersion t.kind) ∧
        m.object = o ∧ m.name = o.nameText ∧ m.sha256 = sha256 := by
  unfold Asset.ofObject
  constructor
  · intro h
    split at h
    · cases h
    · next t ht =>
      split at h
      · cases h
      · next hkind =>
        cases h
        exact ⟨⟨t, ht, hkind, rfl⟩, rfl, rfl, rfl⟩
  · rintro ⟨⟨t, ht, hkind, hmkind⟩, hobject, hname, hsha256⟩
    rw [ht]
    simp only [if_neg hkind, Except.ok.injEq]
    obtain ⟨name, kind, sha256', object⟩ := m
    simp only at hmkind hobject hname hsha256
    rw [hmkind, hobject, hname, hsha256]

namespace Documents

variable {sha256 : String}

/-- A value that is not null becomes the asset that it describes. -/
lemma asset?_of_not_isNull {d : Yaml.Document} {v : Yaml.Value} (hv : d.value = .ok v)
    (hnull : v.isNull = false) {o : Option Asset} :
    asset? sha256 d = .ok o ↔ ∃ m, o = some m ∧ Describes sha256 v m := by
  unfold asset?
  rw [hv]
  simp only [hnull, Bool.false_eq_true, if_false]
  constructor
  · intro h
    split at h
    · cases h
    · next json hjson =>
      split at h
      · cases h
      · next object hobject =>
        cases hm : Asset.ofObject sha256 object with
        | error e =>
          rw [hm] at h
          cases h
        | ok m =>
          rw [hm] at h
          cases h
          obtain ⟨hkind, rfl, hname, hsha256⟩ := ofObject_eq_ok.mp hm
          exact ⟨m, rfl, ⟨json, hjson, hobject⟩, hkind, hname, hsha256⟩
  · rintro ⟨m, rfl, ⟨json, hjson, hobject⟩, hkind, hname, hsha256⟩
    have hm : Asset.ofObject sha256 m.object = .ok m :=
      ofObject_eq_ok.mpr ⟨hkind, rfl, hname, hsha256⟩
    rw [hjson]
    simp only [hobject, hm]
    rfl

/-- A null document is passed over. -/
lemma asset?_of_isNull {d : Yaml.Document} {v : Yaml.Value} (hv : d.value = .ok v)
    (hnull : v.isNull = true) : asset? sha256 d = .ok none := by
  unfold asset?
  rw [hv]
  simp only [hnull, if_true]

/-- A document without a value is refused. -/
lemma asset?_of_error {d : Yaml.Document} {e : Yaml.Unresolved} (he : d.value = .error e) :
    asset? sha256 d = .error e.message := by
  unfold asset?
  rw [he]

lemma assets_cons {d : Yaml.Document} {documents : List Yaml.Document} {found : List Asset} :
    assets sha256 (d :: documents) = .ok found ↔ ∃ o rest, asset? sha256 d = .ok o ∧
      assets sha256 documents = .ok rest ∧ found = o.toList ++ rest := by
  unfold assets
  rw [List.mapM_cons]
  cases ho : asset? sha256 d with
  | error e => simp [bind, Except.bind]
  | ok o =>
    cases hrest : documents.mapM (asset? sha256) with
    | error e => simp [bind, Except.bind]
    | ok rest => cases o <;> simp [bind, Except.bind, pure, Except.pure, eq_comm]

/-- Documents yield assets if each of them has a value, and these describe the assets. -/
lemma assets_eq_ok {documents : List Yaml.Document} {found : List Asset} :
    assets sha256 documents = .ok found ↔
      ∃ values, List.Forall₂ (fun d v => d.value = .ok v) documents values ∧
        List.Forall₂ (Describes sha256) (values.filter fun v => !v.isNull) found := by
  induction documents generalizing found with
  | nil =>
    simp only [List.forall₂_nil_left_iff, exists_eq_left, List.filter_nil]
    exact ⟨fun h => Except.ok.inj h ▸ rfl, fun h => h ▸ rfl⟩
  | cons d documents ih =>
    rw [assets_cons]
    cases hv : d.value with
    | error e => simp [asset?_of_error hv, List.forall₂_cons_left_iff, hv]
    | ok v =>
      simp only [List.forall₂_cons_left_iff, hv, Except.ok.injEq]
      -- a null document adds a value and no asset, any other adds one of each
      cases hnull : v.isNull with
      | true =>
        constructor
        · rintro ⟨o, rest, ho, hrest, rfl⟩
          obtain ⟨values, hvalues, hfound⟩ := ih.mp hrest
          obtain rfl := Except.ok.inj ((asset?_of_isNull hv hnull).symm.trans ho)
          refine ⟨v :: values, ⟨v, values, rfl, hvalues, rfl⟩, ?_⟩
          simpa [hnull] using hfound
        · rintro ⟨_, ⟨_, values, rfl, hvalues, rfl⟩, hfound⟩
          refine ⟨none, found, asset?_of_isNull hv hnull, ih.mpr ⟨values, hvalues, ?_⟩, rfl⟩
          simpa [hnull] using hfound
      | false =>
        constructor
        · rintro ⟨o, rest, ho, hrest, rfl⟩
          obtain ⟨values, hvalues, hfound⟩ := ih.mp hrest
          obtain ⟨m, rfl, hm⟩ := (asset?_of_not_isNull hv hnull).mp ho
          refine ⟨v :: values, ⟨v, values, rfl, hvalues, rfl⟩, ?_⟩
          simpa [hnull] using ⟨hm, hfound⟩
        · rintro ⟨_, ⟨_, values, rfl, hvalues, rfl⟩, hfound⟩
          rw [List.filter_cons_of_pos (by simp [hnull]), List.forall₂_cons_left_iff] at hfound
          obtain ⟨m, rest, hm, hrest, rfl⟩ := hfound
          exact ⟨some m, rest, (asset?_of_not_isNull hv hnull).mpr ⟨m, rfl, hm⟩,
            ih.mpr ⟨values, hvalues, hrest⟩, rfl⟩

/-- A text is read if all of it is, and these are its assets. -/
theorem ofText_eq_ok {text : List Char} {found : List Asset} :
    ofText sha256 text = .ok found ↔ Reads sha256 text found := by
  unfold ofText
  rw [bind_eq_ok]
  constructor
  · rintro ⟨assets, hassets, h⟩
    split at h
    · cases h
    · next hfault =>
      cases h
      exact ⟨hfault, assets_eq_ok.mp hassets⟩
  · rintro ⟨hfault, hvalues⟩
    refine ⟨found, assets_eq_ok.mpr hvalues, ?_⟩
    rw [hfault]
    rfl

/-- A file is decoded if it can be rendered and read; the name of the file only stands in errors. -/
lemma decode_eq_ok {file sha256 : String} {context : RenderContext} {raw : Bytes}
    {found : List Asset} : decode file sha256 context raw = .ok found ↔
      ∃ rendered, Template.renderManifest context raw = .ok rendered ∧
        ofText sha256 rendered = .ok found := by
  unfold decode
  cases Template.renderManifest context raw with
  | error fault => simp
  | ok rendered =>
    cases h : ofText sha256 rendered <;> simp [h]

end Documents

/-! ## Files -/

namespace Archive

/-- The files can all be read, and the last index among them is this one. -/
structure Indexed (files : Tar.Listing) (index : Index) : Prop where
  complete : files.fault = none
  readable : ∀ e ∈ files.entries, isIndex e → ∃ other, Index.ofBytes e.data = .ok other
  last : ∃ e, (files.entries.filter isIndex).getLast? = some e ∧ Index.ofBytes e.data = .ok index

/-- The file is listed, its bytes have the checksum that is listed for it unless that is empty, and
the assets are those of the rendered file. -/
def Verified (index : Index) (context : RenderContext) (e : Tar.Entry) (found : List Asset) :
    Prop :=
  ∃ listed, index.lookup (nameOf e) = some listed ∧
    (listed.sha256 = "" ∨ Text.eqIgnoringCase listed.sha256 (Sha256.hex e.data)) ∧
      ∃ rendered, Template.renderManifest context e.data = .ok rendered ∧
        Documents.Reads listed.sha256 rendered found

/-- The assets are those of all files to be decoded, in the order of the archive. -/
def Delivers (context : RenderContext) (files : Tar.Listing) (found : List Asset) : Prop :=
  ∃ index, Indexed files index ∧ ∃ parts,
    List.Forall₂ (Verified index context) (files.entries.filter isDecoded) parts ∧
      found = parts.flatten

/-- Among entries the last index counts, and all of them have to be readable. -/
lemma indexAmong_eq_ok {entries : List Tar.Entry} {found : Option Index} {index : Index} :
    indexAmong found entries = .ok (some index) ↔
      (∀ e ∈ entries, isIndex e → ∃ other, Index.ofBytes e.data = .ok other) ∧
        match (entries.filter isIndex).getLast? with
        | none => found = some index
        | some e => Index.ofBytes e.data = .ok index := by
  induction entries generalizing found with
  | nil => simp [indexAmong]
  | cons e entries ih =>
    rw [List.forall_mem_cons, indexAmong]
    by_cases he : isIndex e
    · rw [if_pos he, List.filter_cons_of_pos he, List.getLast?_cons]
      cases hother : Index.ofBytes e.data with
      | error reason => simp [he]
      | ok other =>
        -- a later index, if there is one, counts instead of this one
        simp only [ih]
        cases (entries.filter isIndex).getLast? <;> simp [hother]
    · rw [if_neg he, List.filter_cons_of_neg he, ih]
      simp [he]

/-- The index of an archive that can be read. -/
lemma index_eq_ok {files : Tar.Listing} {index : Index} :
    Archive.index files = .ok index ↔ Indexed files index := by
  unfold Archive.index
  rw [bind_eq_ok]
  constructor
  · rintro ⟨found, hfound, h⟩
    split at h
    · cases h
    · next index' hfault =>
      cases h
      obtain ⟨hreadable, hlast⟩ := indexAmong_eq_ok.mp hfound
      cases he : (files.entries.filter isIndex).getLast? with
      | none => simp [he] at hlast
      | some e =>
        rw [he] at hlast
        exact ⟨hfault, hreadable, e, he, hlast⟩
    · cases h
  · rintro ⟨hfault, hreadable, e, he, hlast⟩
    refine ⟨some index, indexAmong_eq_ok.mpr ⟨hreadable, ?_⟩, ?_⟩
    · rw [he]
      exact hlast
    · rw [hfault]
      rfl

/-- A file is decoded if it is the one that is listed. -/
lemma decodeEntry_eq_ok {index : Index} {context : RenderContext} {e : Tar.Entry}
    {found : List Asset} :
    decodeEntry index context e = .ok found ↔ Verified index context e found := by
  unfold decodeEntry Verified
  cases hlisted : index.lookup (nameOf e) with
  | none => simp
  | some listed =>
    simp only [Option.some.injEq, exists_eq_left']
    by_cases hsum : listed.sha256 = "" ∨ Text.eqIgnoringCase listed.sha256 (Sha256.hex e.data)
    · rw [if_neg (by tauto), Documents.decode_eq_ok]
      simp only [hsum, true_and, Documents.ofText_eq_ok]
    · rw [if_pos (by tauto)]
      simp [hsum]

lemma decodeEntries_eq_ok {index : Index} {context : RenderContext} {entries : List Tar.Entry}
    {found : List Asset} :
    decodeEntries index context entries = .ok found ↔
      ∃ parts, List.Forall₂ (Verified index context) entries parts ∧ found = parts.flatten := by
  induction entries generalizing found with
  | nil =>
    simp only [List.forall₂_nil_left_iff, exists_eq_left]
    exact ⟨fun h => (Except.ok.inj h).symm, fun h => h ▸ rfl⟩
  | cons e entries ih =>
    simp only [decodeEntries, bind_eq_ok, decodeEntry_eq_ok, ih, List.forall₂_cons_left_iff]
    constructor
    · rintro ⟨first, hfirst, _, ⟨parts, hparts, rfl⟩, h⟩
      cases h
      exact ⟨first :: parts, ⟨first, parts, hfirst, hparts, rfl⟩, rfl⟩
    · rintro ⟨_, ⟨first, parts, hfirst, hparts, rfl⟩, rfl⟩
      exact ⟨first, hfirst, parts.flatten, ⟨parts, hparts, rfl⟩, rfl⟩

/-- The files of an archive are decoded if they deliver the assets. -/
theorem decodeFiles_eq_ok {context : RenderContext} {files : Tar.Listing} {found : List Asset} :
    decodeFiles context files = .ok found ↔ Delivers context files found := by
  simp only [decodeFiles, Delivers, bind_eq_ok, index_eq_ok, decodeEntries_eq_ok]

/-- A file that is listed without a checksum, under signs for the current folder. -/
example :
    (decodeFiles {} ⟨[
      ⟨"./task.yaml", Utf8.encodeString "apiVersion: tekton.dev/v1\nkind: Task\n"⟩,
      ⟨"manifest.yaml", Utf8.encodeString "contents:\n- file: ././task.yaml\n"⟩], none⟩).map
        (·.map (·.kind)) = .ok [⟨"tekton.dev", "v1", "Task"⟩] := by
  decide +kernel

/-- The file is not listed, or it has not the checksum that is listed for it, or it cannot be
rendered, or its text cannot be read to the end, or one of its documents is neither null nor an
asset. -/
def Spoiled (index : Index) (context : RenderContext) (e : Tar.Entry) : Prop :=
  ∀ listed, index.lookup (nameOf e) = some listed →
    listed.sha256 = "" ∨ Text.eqIgnoringCase listed.sha256 (Sha256.hex e.data) →
      ∀ rendered, Template.renderManifest context e.data = .ok rendered →
        (Yaml.Document.stream rendered).fault ≠ none ∨
          ∃ d ∈ (Yaml.Document.stream rendered).documents, ∀ v, d.value = .ok v →
            v.isNull = false ∧ ∀ m, ¬ Documents.Describes listed.sha256 v m

/-- A spoiled file has no assets. -/
lemma Spoiled.not_verified {index : Index} {context : RenderContext} {e : Tar.Entry}
    (h : Spoiled index context e) (found : List Asset) : ¬ Verified index context e found := by
  rintro ⟨listed, hlisted, hsum, rendered, hrendered, hcomplete, values, hvalues, hassets⟩
  rcases h listed hlisted hsum rendered hrendered with hfault | ⟨d, hd, hbad⟩
  · exact hfault hcomplete
  · obtain ⟨v, hv, hdv⟩ := exists_of_forall₂ hvalues hd
    obtain ⟨hnull, hno⟩ := hbad v hdv
    obtain ⟨m, -, hm⟩ := exists_of_forall₂ hassets (List.mem_filter.mpr ⟨hv, by simp [hnull]⟩)
    exact hno m hm

/-- An archive with a spoiled file delivers nothing. -/
lemma not_delivers_of_spoiled {context : RenderContext} {files : Tar.Listing} {e : Tar.Entry}
    (he : e ∈ files.entries.filter isDecoded)
    (h : ∀ index, Indexed files index → Spoiled index context e) (found : List Asset) :
    ¬ Delivers context files found := by
  rintro ⟨index, hindex, parts, hparts, -⟩
  obtain ⟨part, -, hpart⟩ := exists_of_forall₂ hparts he
  exact (h index hindex).not_verified part hpart

end Archive

/-! ## Loading -/

/-- The question asks for the bytes at a source. -/
def Effect.isFetch : Effect → Bool
  | .fetch .. => true
  | _ => false

/-- The fetches among exchanges. -/
def fetches (log : List (Program.Exchange Effect.Answer)) : List (Program.Exchange Effect.Answer) :=
  log.filter fun e => e.1.isFetch

section Loading

variable {σ : Type} (world : Program.World Effect.Answer σ) (r : Reference) (name : String)
  (context : RenderContext) (skip : Bool) (t : σ)

lemma fetches_append (log log' : List (Program.Exchange Effect.Answer)) :
    fetches (log ++ log') = fetches log ++ fetches log' :=
  List.filter_append ..

lemma fetches_count (metric : Metric) : fetches ((Pass.count metric).log world t) = [] := rfl

/-- The counting around a load neither changes what is loaded nor fetches anything. -/
lemma getManifests_fetches :
    ∃ t', ((getManifests r name context skip).run world t).1 =
        ((fetchAssets r name context skip).run world t').1 ∧
      fetches ((getManifests r name context skip).log world t) =
        fetches ((fetchAssets r name context skip).log world t') := by
  obtain ⟨t', hrun⟩ : ∃ t', (Pass.count .archiveFetches).run world t = ((), t') := ⟨_, rfl⟩
  refine ⟨t', ?_⟩
  simp only [getManifests, Program.run_bind, Program.log_bind, fetches_append, fetches_count, hrun]
  cases ((fetchAssets r name context skip).run world t').1 with
  | error e => exact ⟨rfl, by simp [Program.log_bind, fetches_count]⟩
  | ok found => exact ⟨rfl, by simp [fetches]⟩

/-- A source of a known type is fetched once, and what it yields is decoded. -/
lemma fetchAssets_fetches_once {type : FileType} (hsource : r.source ≠ .https "")
    (htype : r.source.fileType = .ok type) :
    ∃ answer : Except Failure Bytes,
      ((fetchAssets r name context skip).run world t).1 =
        (match answer with
          | .error e => .error (.transport e)
          | .ok raw => decodeFetched r name context type raw) ∧
      fetches ((fetchAssets r name context skip).log world t) =
        [⟨.fetch r.source skip, answer⟩] := by
  obtain ⟨answer, hanswer⟩ : ∃ answer : Except Failure Bytes,
      (world (.fetch r.source skip) t).1 = answer := ⟨_, rfl⟩
  refine ⟨answer, ?_⟩
  have hrun : (Pass.fetch r.source skip).run world t =
      (answer, (world (.fetch r.source skip) t).2) := Prod.ext hanswer rfl
  have hlog : fetches ((Pass.fetch r.source skip).log world t) =
      [⟨.fetch r.source skip, answer⟩] := hanswer ▸ rfl
  simp only [fetchAssets, fetchArchive, if_neg hsource, htype, Program.run_bind, Program.log_bind,
    fetches_append, hrun, hlog]
  cases answer <;> exact ⟨rfl, rfl⟩

/-- Nothing is fetched from an empty address, nor if the type is not known. -/
lemma fetchAssets_fetches_nothing
    (h : r.source = .https "" ∨ ∃ e, r.source.fileType = .error e) :
    (∃ e, ((fetchAssets r name context skip).run world t).1 = .error e) ∧
      fetches ((fetchAssets r name context skip).log world t) = [] := by
  unfold fetchAssets
  split
  · exact ⟨⟨_, rfl⟩, rfl⟩
  · next hsource =>
    obtain ⟨e, he⟩ := h.resolve_left hsource
    rw [he]
    exact ⟨⟨e, rfl⟩, rfl⟩

end Loading

/-- An empty address has no type. -/
lemma source_ne_of_fileType {r : Reference} {type : FileType} (h : r.source.fileType = .ok type) :
    r.source ≠ .https "" := by
  intro hsource
  rw [hsource] at h
  cases h

/-- An archive is decoded if it has the digest of the reference and delivers the assets. -/
lemma decodeFetched_tarGz_eq_ok {r : Reference} {name : String} {context : RenderContext}
    {raw : Bytes} {found : List Asset} :
    decodeFetched r name context .tarGz raw = .ok found ↔
      Text.eqIgnoringCase (Sha256.hex raw) r.digest ∧
        Archive.Delivers context (Tar.listing (Gzip.contents raw)) found := by
  unfold decodeFetched
  simp only
  split
  · next hdigest => rw [Archive.decode, Archive.decodeFiles_eq_ok, and_iff_right hdigest]
  · next hdigest => simp [hdigest]

/-- Nothing is fetched from an empty address, nor from a source of a type that is not known, and the
assets are refused.  From the source of an archive there is one fetch.  It yields assets exactly if
it returns bytes with the digest of the reference, whatever the case of its letters, whose files
deliver these assets; one spoiled file is enough for there to be none. -/
theorem getManifests_eq_ok_iff_delivers (r : Reference) (name : String) (context : RenderContext)
    (skip : Bool) {σ : Type} (world : Program.World Effect.Answer σ) (t : σ) :
    ∃ result fetched, ((getManifests r name context skip).run world t).1 = result ∧
      fetches ((getManifests r name context skip).log world t) = fetched ∧
      ((r.source = .https "" ∨ ∃ e, r.source.fileType = .error e) →
        (∃ e, result = .error e) ∧ fetched = []) ∧
      (r.source.fileType = .ok .tarGz → ∃ answer : Except Failure Bytes,
        fetched = [⟨.fetch r.source skip, answer⟩] ∧
        (∀ found, result = .ok found ↔ ∃ raw, answer = .ok raw ∧
          Text.eqIgnoringCase (Sha256.hex raw) r.digest ∧
            Archive.Delivers context (Tar.listing (Gzip.contents raw)) found) ∧
        ∀ raw, answer = .ok raw →
          ∀ e ∈ (Tar.listing (Gzip.contents raw)).entries.filter Archive.isDecoded,
            (∀ index, Archive.Indexed (Tar.listing (Gzip.contents raw)) index →
              Archive.Spoiled index context e) → ∃ e, result = .error e) := by
  obtain ⟨t', hresult, hfetched⟩ := getManifests_fetches world r name context skip t
  refine ⟨_, _, hresult, hfetched, ?_, ?_⟩
  · exact fetchAssets_fetches_nothing world r name context skip t'
  · intro htype
    obtain ⟨answer, hrun, honce⟩ :=
      fetchAssets_fetches_once world r name context skip t' (source_ne_of_fileType htype) htype
    rw [hrun]
    refine ⟨answer, honce, ?_, ?_⟩
    · intro found
      cases answer with
      | error e => simp
      | ok raw => simp [decodeFetched_tarGz_eq_ok]
    · rintro raw rfl e he hspoiled
      change ∃ e, decodeFetched r name context .tarGz raw = .error e
      cases hdecoded : decodeFetched r name context .tarGz raw with
      | error e => exact ⟨e, rfl⟩
      | ok found =>
        obtain ⟨-, hdelivers⟩ := decodeFetched_tarGz_eq_ok.mp hdecoded
        exact (Archive.not_delivers_of_spoiled he hspoiled found hdelivers).elim

end PipelineStacks
