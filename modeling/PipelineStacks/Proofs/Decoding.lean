import Mathlib.Tactic.Common
import PipelineStacks.Proofs.ArchiveIntegrity
import PipelineStacks.Proofs.ObjectStore

/-!
# What comes out of archives

Every asset that is decoded bears the name of its object (`named_of_decodeFetched`), and what is
decoded does not depend on how the pipeline is called (`assetsIn_congr_name`).  When the bytes at
each source are fixed, loading yields the assets in these bytes: always if every fetch succeeds
(`getManifests_always_served`), and else whenever it yields any (`getManifests_always_faithful`).
-/

namespace PipelineStacks

/-! ## The names of assets -/

/-- The assets bear the names of their objects. -/
def Named (assets : List Asset) : Prop :=
  ∀ m ∈ assets, m.name = m.object.nameText

lemma Documents.Reads.named {sha256 : String} {text : List Char} {found : List Asset}
    (h : Reads sha256 text found) : Named found := by
  obtain ⟨values, -, hfound⟩ := h.described
  intro m hm
  obtain ⟨v, -, hv⟩ := exists_of_forall₂ hfound.flip hm
  exact hv.name

lemma Archive.Delivers.named {context : RenderContext} {files : Tar.Listing} {found : List Asset}
    (h : Delivers context files found) : Named found := by
  obtain ⟨index, -, parts, hparts, rfl⟩ := h
  intro m hm
  obtain ⟨part, hpart, hm⟩ := List.mem_flatten.mp hm
  obtain ⟨e, -, listed, -, -, rendered, -, hreads⟩ := exists_of_forall₂ hparts.flip hpart
  exact hreads.named m hm

/-- Every asset that is decoded bears the name of its object. -/
theorem named_of_decodeFetched {r : Reference} {name : String} {context : RenderContext}
    {type : FileType} {raw : Bytes} {found : List Asset}
    (h : decodeFetched r name context type raw = .ok found) : Named found := by
  cases type with
  | tarGz => exact (decodeFetched_tarGz_eq_ok.mp h).2.named
  | yaml =>
    obtain ⟨rendered, -, htext⟩ := Documents.decode_eq_ok.mp h
    exact (Documents.ofText_eq_ok.mp htext).named

/-! ## The assets in known bytes -/

/-- The assets of an archive when the bytes at each source are known. -/
def assetsIn (content : Source → Bytes) (r : Reference) (name : String) (context : RenderContext) :
    Except PipelineError (List Asset) :=
  if r.source = .https "" then .error .noSource
  else
    match r.source.fileType with
    | .error e => .error e
    | .ok type => decodeFetched r name context type (content r.source)

/-- The assets do not depend on how the pipeline is called. -/
theorem assetsIn_congr_name {content : Source → Bytes} {r : Reference} {name : String}
    {context : RenderContext} {found : List Asset}
    (h : assetsIn content r name context = .ok found) (name' : String) :
    assetsIn content r name' context = .ok found := by
  unfold assetsIn at h ⊢
  split at h
  · cases h
  · next hsource =>
    rw [if_neg hsource]
    split at h
    · cases h
    · next type _ =>
      cases type with
      | tarGz => exact h
      | yaml => exact Documents.decode_eq_ok.mpr (Documents.decode_eq_ok.mp h)

/-! ## Loading -/

section Loading

variable {r : Reference} {name : String} {context : RenderContext} {skip : Bool}

/-- What can be said of the assets of a source can be said of what is loaded; the counting in
between changes nothing. -/
lemma getManifests_always {R : (e : Effect) → Effect.Answer e → Prop}
    {P : Except PipelineError (List Asset) → Prop}
    (h : (fetchAssets r name context skip).Always R P) :
    (getManifests r name context skip).Always R P := by
  unfold getManifests
  refine Program.always_bind.mpr fun _ _ => Program.always_bind.mpr ?_
  refine h.imp fun result hresult _ _ => ?_
  cases result with
  | error e => exact fun _ _ => hresult
  | ok found => exact hresult

/-- A source is fetched once if it names a file of a known type. -/
lemma fetchAssets_always {R : (e : Effect) → Effect.Answer e → Prop}
    {P : Except PipelineError (List Asset) → Prop}
    (hnone : r.source = .https "" → P (.error .noSource))
    (htype : r.source ≠ .https "" → ∀ e, r.source.fileType = .error e → P (.error e))
    (hfault : ∀ e, R (.fetch r.source skip) (Except.error e : Except Failure Bytes) →
      P (.error (.transport e)))
    (hraw : r.source ≠ .https "" → ∀ type, r.source.fileType = .ok type → ∀ raw : Bytes,
      R (.fetch r.source skip) (Except.ok raw : Except Failure Bytes) →
        P (decodeFetched r name context type raw)) :
    (fetchAssets r name context skip).Always R P := by
  unfold fetchAssets fetchArchive
  by_cases hsource : r.source = .https ""
  · rw [if_pos hsource]
    exact hnone hsource
  · rw [if_neg hsource, if_neg hsource]
    cases hfile : r.source.fileType with
    | error e => exact htype hsource e hfile
    | ok type =>
      intro answer hanswer
      cases answer with
      | error e => exact hfault e hanswer
      | ok raw => exact hraw hsource type hfile raw hanswer

/-- What is loaded bears the names of its objects. -/
theorem getManifests_always_named {R : (e : Effect) → Effect.Answer e → Prop} :
    (getManifests r name context skip).Always R fun result =>
      ∀ found, result = .ok found → Named found := by
  refine getManifests_always (fetchAssets_always ?_ ?_ ?_ ?_)
  · rintro - found ⟨⟩
  · rintro - e - found ⟨⟩
  · rintro e - found ⟨⟩
  · exact fun _ type _ raw _ found hfound => named_of_decodeFetched hfound

/-- What is loaded is in bytes that are served at the source. -/
theorem getManifests_always_among {served : Source → Set Bytes} :
    (getManifests r name context skip).Always (Effect.Among served) fun result =>
      ∀ found, result = .ok found →
        ∃ raw ∈ served r.source, assetsIn (fun _ => raw) r name context = .ok found := by
  refine getManifests_always (fetchAssets_always ?_ ?_ ?_ ?_)
  · rintro - found ⟨⟩
  · rintro - e - found ⟨⟩
  · rintro e - found ⟨⟩
  · intro hsource type hfile raw hraw found hfound
    refine ⟨raw, hraw raw rfl, ?_⟩
    rw [assetsIn, if_neg hsource, hfile]
    exact hfound

/-- If the bytes at each source are fixed, what is loaded is in these bytes. -/
theorem getManifests_always_faithful {content : Source → Bytes} :
    (getManifests r name context skip).Always (Effect.Faithful content) fun result =>
      ∀ found, result = .ok found → assetsIn content r name context = .ok found := by
  have hamong : (getManifests r name context skip).Always
      (Effect.Among fun source => {content source}) _ := getManifests_always_among
  refine (hamong.anti fun _ _ => Effect.Faithful.among).imp ?_
  intro result hresult found hfound
  obtain ⟨raw, rfl, hassets⟩ := hresult found hfound
  exact hassets

/-- If no fetch from the source fails, the assets in the bytes there are loaded. -/
theorem getManifests_always_servedAt {raw : Bytes} :
    (getManifests r name context skip).Always (Effect.ServedAt r.source raw) fun result =>
      result = assetsIn (fun _ => raw) r name context := by
  refine getManifests_always (fetchAssets_always ?_ ?_ ?_ ?_)
  · intro hsource
    rw [assetsIn, if_pos hsource]
  · intro hsource e hfile
    rw [assetsIn, if_neg hsource, hfile]
  · intro e he
    cases he rfl
  · intro hsource type hfile raw' hraw
    obtain rfl := Except.ok.inj (hraw rfl)
    rw [assetsIn, if_neg hsource, hfile]

/-- If no fetch fails, the assets in the bytes at the source are loaded. -/
theorem getManifests_always_served {content : Source → Bytes} :
    (getManifests r name context skip).Always (Effect.Served content) fun result =>
      result = assetsIn content r name context :=
  getManifests_always_servedAt.anti fun _ _ h => h.servedAt r.source

end Loading

end PipelineStacks
