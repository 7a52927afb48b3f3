import PipelineStacks.Proofs.Owners
import PipelineStacks.Proofs.SteadyStore

/-!
# How assets settle

In a steady world a pass does with each asset what `Activation.attend` says, a function of the store
and of the assets that are offered under its name.  An asset that was attended to is settled: the
owner is marked on its object, or nothing can be created for it (`settled_attend`).  The store only
grows by objects that are marked, and so what is settled stays so (`Settled.mono`), and to attend to
it again changes nothing (`attend_of_settled`).
-/

namespace PipelineStacks

open Surroundings

/-! ## What is done with one asset -/

namespace Asset

/-- The key under which the object of an asset is created in a namespace. -/
def objectKey (m : Asset) (inNamespace : String) : ObjectKey :=
  ⟨m.kind, inNamespace, m.object.nameText⟩

/-- An object is prepared under the same key. -/
lemma objectKey_prepared (m : Asset) (inNamespace : String) (w : Owner) :
    (⟨m.kind, inNamespace, (m.prepared inNamespace w).nameText⟩ : ObjectKey) =
      m.objectKey inNamespace := by
  rw [m.nameText_prepared]
  rfl

end Asset

namespace Activation

/-- What comes of an asset that is looked for under a key, and the store after that: an object that
is there gets the owner, and else the asset that is offered is created under its own key. -/
def attend (a : Activation) (refusal : Effect → Failure) (manifests : List Asset)
    (objects : Objects) (key : ObjectKey) : (AssetState × String) × Objects :=
  match objects key with
  | some o => ((.active, ""), objects.set key (some (a.owner.mark key.inNamespace o).2))
  | none =>
    match Asset.offered manifests key.name with
    | .error message => ((.failed, message), objects)
    | .ok m =>
      let o := m.prepared key.inNamespace a.owner
      match objects (m.objectKey key.inNamespace) with
      | none => ((.active, ""), objects.set (m.objectKey key.inNamespace) (some o))
      | some _ => ((.failed, (refusal (.create m.kind key.inNamespace o)).message), objects)

/-- The same for the assets of an archive in order; it is kept whether some asset was not there. -/
def attendAll (a : Activation) (refusal : Effect → Failure) (manifests : List Asset) :
    List AssetStatus → Bool × Objects → List AssetStatus × Bool × Objects
  | [], s => ([], s)
  | x :: l, (missed, objects) =>
    let key := x.keyAt a.target
    let (outcome, objects') := a.attend refusal manifests objects key
    let (l, s) := a.attendAll refusal manifests l (missed || (objects key).isNone, objects')
    (x.found a.target outcome :: l, s)

variable {a : Activation} {refusal : Effect → Failure} {manifests : List Asset}
  {objects objects' objects'' : Objects} {key : ObjectKey}

variable (a refusal manifests objects key) in
/-- The four things that can come of an asset. -/
lemma attend_cases :
    (∃ o, objects key = some o ∧ a.attend refusal manifests objects key =
      ((.active, ""), objects.set key (some (a.owner.mark key.inNamespace o).2))) ∨
    objects key = none ∧
      ((∃ message, Asset.offered manifests key.name = .error message ∧
        a.attend refusal manifests objects key = ((.failed, message), objects)) ∨
      ∃ m, Asset.offered manifests key.name = .ok m ∧
        (objects (m.objectKey key.inNamespace) = none ∧
          a.attend refusal manifests objects key = ((.active, ""),
            objects.set (m.objectKey key.inNamespace)
              (some (m.prepared key.inNamespace a.owner))) ∨
        objects (m.objectKey key.inNamespace) ≠ none ∧
          a.attend refusal manifests objects key = ((.failed,
            (refusal (.create m.kind key.inNamespace
              (m.prepared key.inNamespace a.owner))).message), objects))) := by
  unfold attend
  cases objects key with
  | some o => exact Or.inl ⟨o, rfl, rfl⟩
  | none =>
    refine Or.inr ⟨rfl, ?_⟩
    cases Asset.offered manifests key.name with
    | error message => exact Or.inl ⟨message, rfl, rfl⟩
    | ok m =>
      refine Or.inr ⟨m, rfl, ?_⟩
      cases hthere : objects (m.objectKey key.inNamespace) with
      | none => exact Or.inl ⟨rfl, by simp only [hthere]⟩
      | some o => exact Or.inr ⟨Option.some_ne_none o, by simp only [hthere]⟩

/-! ## Settled keys -/

/-- To attend to the key changes nothing: its object has the owner, or nothing can be created. -/
structure Settled (a : Activation) (manifests : List Asset) (objects : Objects)
    (key : ObjectKey) : Prop where
  marked : ∀ o, objects key = some o → (a.owner.mark key.inNamespace o).1 = false
  refused : objects key = none → ∀ m, Asset.offered manifests key.name = .ok m →
    objects (m.objectKey key.inNamespace) ≠ none

/-- The store has grown: what was taken is, and what is new has the owner. -/
structure Grown (a : Activation) (objects objects' : Objects) : Prop where
  taken : ∀ key, objects key ≠ none → objects' key ≠ none
  marked : ∀ key o, objects' key = some o →
    objects key = some o ∨ (a.owner.mark key.inNamespace o).1 = false

lemma Grown.refl (objects : Objects) : a.Grown objects objects :=
  ⟨fun _ => id, fun _ _ => Or.inl⟩

lemma Grown.trans (h : a.Grown objects objects') (h' : a.Grown objects' objects'') :
    a.Grown objects objects'' where
  taken key hkey := h'.taken key (h.taken key hkey)
  marked key o ho := (h'.marked key o ho).elim (h.marked key o) Or.inr

/-- A marked object that is put into the store makes it grow. -/
lemma Grown.set_marked {o : Object} (ho : (a.owner.mark key.inNamespace o).1 = false) :
    a.Grown objects (objects.set key (some o)) := by
  refine ⟨fun key' hkey' => ?_, fun key' o' ho' => ?_⟩ <;> by_cases heq : key' = key
  · simp [heq]
  · rwa [Objects.set_of_ne _ _ heq]
  · rw [heq, Objects.set_same] at ho'
    rw [heq, ← Option.some.inj ho']
    exact Or.inr ho
  · rw [Objects.set_of_ne _ _ heq] at ho'
    exact Or.inl ho'

/-- What is settled stays so while the store grows. -/
theorem Settled.mono (h : a.Settled manifests objects key) (hgrown : a.Grown objects objects') :
    a.Settled manifests objects' key where
  marked o ho := (hgrown.marked key o ho).elim (h.marked o) id
  refused hfree m hm := by
    have hfree' : objects key = none := by
      by_contra hthere
      exact hgrown.taken key hthere hfree
    exact hgrown.taken _ (h.refused hfree' m hm)

/-- To attend to what is settled changes nothing. -/
theorem attend_of_settled (h : a.Settled manifests objects key) :
    (a.attend refusal manifests objects key).2 = objects := by
  obtain ⟨o, hthere, heq⟩ | ⟨hnone, ⟨message, -, heq⟩ | ⟨m, hm, ⟨hfree, -⟩ | ⟨-, heq⟩⟩⟩ :=
    a.attend_cases refusal manifests objects key
  · have hsame : (a.owner.mark key.inNamespace o).2 = o :=
      congrArg Prod.snd (Owner.mark_eq_self (h.marked o hthere))
    rw [heq, hsame]
    exact Objects.set_eq_self hthere
  · rw [heq]
  · exact (h.refused hnone m hm hfree).elim
  · rw [heq]

/-- The object that an asset is created as has the owner. -/
lemma mark_prepared (hw : Listable a.owner.uid) (m : Asset) (ns : String) :
    (a.owner.mark ns (m.prepared ns a.owner)).1 = false :=
  a.owner.mark_mark ns _ hw

variable (a refusal manifests objects key) in
/-- The store grows when an asset is attended to. -/
lemma grown_attend (hw : Listable a.owner.uid) :
    a.Grown objects (a.attend refusal manifests objects key).2 := by
  obtain ⟨o, -, heq⟩ | ⟨-, ⟨message, -, heq⟩ | ⟨m, -, ⟨-, heq⟩ | ⟨-, heq⟩⟩⟩ :=
    a.attend_cases refusal manifests objects key <;> simp only [heq]
  · exact .set_marked (a.owner.mark_mark _ o hw)
  · exact .refl objects
  · exact .set_marked (mark_prepared hw m _)
  · exact .refl objects

variable (a refusal manifests objects key) in
/-- What was attended to is settled. -/
theorem settled_attend (hw : Listable a.owner.uid) :
    a.Settled manifests (a.attend refusal manifests objects key).2 key := by
  obtain ⟨o, -, heq⟩ | ⟨hnone, ⟨message, hm, heq⟩ | ⟨m, hm, ⟨-, heq⟩ | ⟨htaken, heq⟩⟩⟩ :=
    a.attend_cases refusal manifests objects key <;> simp only [heq]
  · refine ⟨fun o' ho' => ?_, fun hfree => ?_⟩
    · rw [Objects.set_same] at ho'
      rw [← Option.some.inj ho']
      exact a.owner.mark_mark _ o hw
    · rw [Objects.set_same] at hfree
      cases hfree
  · refine ⟨fun o ho => ?_, fun _ m' hm' => ?_⟩
    · rw [hnone] at ho
      cases ho
    · rw [hm] at hm'
      cases hm'
  · refine ⟨fun o ho => ?_, fun _ m' hm' => ?_⟩
    · by_cases hkey : key = m.objectKey key.inNamespace
      · rw [← hkey, Objects.set_same] at ho
        rw [← Option.some.inj ho]
        exact mark_prepared hw m _
      · rw [Objects.set_of_ne _ _ hkey, hnone] at ho
        cases ho
    · rw [hm] at hm'
      rw [← Except.ok.inj hm', Objects.set_same]
      exact Option.some_ne_none _
  · refine ⟨fun o ho => ?_, fun _ m' hm' => ?_⟩
    · rw [hnone] at ho
      cases ho
    · rw [hm] at hm'
      rwa [← Except.ok.inj hm']

/-- Objects stay under their own names when an asset is attended to. -/
lemma wellKeyed_attend (h : objects.WellKeyed) :
    (a.attend refusal manifests objects key).2.WellKeyed := by
  obtain ⟨o, hthere, heq⟩ | ⟨-, ⟨message, -, heq⟩ | ⟨m, -, ⟨-, heq⟩ | ⟨-, heq⟩⟩⟩ :=
    a.attend_cases refusal manifests objects key <;> simp only [heq]
  · refine h.set_some ?_
    rw [Object.nameText_of_withoutOwners (a.owner.sameButOwners_mark _ o).withoutOwners]
    exact h key o hthere
  · exact h
  · exact h.set_some (m.nameText_prepared _ _)
  · exact h

/-! ## All assets of an archive -/

variable (a refusal manifests) in
/-- The store grows when assets are attended to, its objects stay under their own names, and the
assets are settled after that. -/
theorem settled_attendAll (hw : Listable a.owner.uid) (l : List AssetStatus) (missed : Bool)
    (hobjects : objects.WellKeyed) :
    let done := a.attendAll refusal manifests l (missed, objects)
    a.Grown objects done.2.2 ∧ done.2.2.WellKeyed ∧
      ∀ y ∈ done.1, a.Settled manifests done.2.2 (y.keyAt a.target) := by
  induction l generalizing missed objects with
  | nil => exact ⟨.refl objects, hobjects, fun y hy => (List.not_mem_nil hy).elim⟩
  | cons x l ih =>
    have hattend : (a.attend refusal manifests objects (x.keyAt a.target)).2.WellKeyed :=
      wellKeyed_attend hobjects
    obtain ⟨hgrown, hkeyed, hsettled⟩ := ih (missed || (objects (x.keyAt a.target)).isNone) hattend
    have hhead := settled_attend a refusal manifests objects (x.keyAt a.target) hw
    refine ⟨(grown_attend a refusal manifests objects _ hw).trans hgrown, hkeyed, ?_⟩
    refine List.forall_mem_cons.mpr ⟨?_, hsettled⟩
    rw [AssetStatus.keyAt_found]
    exact hhead.mono hgrown

lemma length_attendAll (l : List AssetStatus) (s : Bool × Objects) :
    (a.attendAll refusal manifests l s).1.length = l.length := by
  induction l generalizing s with
  | nil => rfl
  | cons x l ih => exact congrArg (· + 1) (ih _)

/-- The records of settled assets after they were attended to. -/
def confirmed (a : Activation) (refusal : Effect → Failure) (manifests : List Asset)
    (objects : Objects) (l : List AssetStatus) : List AssetStatus :=
  l.map fun x => x.found a.target (a.attend refusal manifests objects (x.keyAt a.target)).1

/-- Some asset is not there. -/
def someMissing (a : Activation) (objects : Objects) (l : List AssetStatus) : Bool :=
  l.any fun x => (objects (x.keyAt a.target)).isNone

/-- To attend to settled assets leaves the store as it is. -/
theorem attendAll_of_settled {l : List AssetStatus}
    (h : ∀ x ∈ l, a.Settled manifests objects (x.keyAt a.target)) (missed : Bool) :
    a.attendAll refusal manifests l (missed, objects) =
      (a.confirmed refusal manifests objects l, missed || a.someMissing objects l, objects) := by
  induction l generalizing missed with
  | nil => simp [attendAll, confirmed, someMissing]
  | cons x l ih =>
    obtain ⟨hhead, htail⟩ := List.forall_mem_cons.mp h
    simp only [attendAll, attend_of_settled hhead, ih htail]
    simp [confirmed, someMissing, Bool.or_assoc]

/-- What was confirmed is confirmed as it is. -/
lemma confirmed_confirmed (l : List AssetStatus) :
    a.confirmed refusal manifests objects (a.confirmed refusal manifests objects l) =
      a.confirmed refusal manifests objects l := by
  simp [confirmed]

lemma someMissing_confirmed (l : List AssetStatus) :
    a.someMissing objects (a.confirmed refusal manifests objects l) = a.someMissing objects l := by
  simp [someMissing, confirmed, Function.comp_def]

end Activation

/-! ## Programs in a steady world -/

/-- Nothing was loaded for the archive so far. -/
structure Usage.Unloaded (u : Usage) : Prop where
  manifests : u.manifests = []
  manifestError : u.manifestError = none

/-- What is known of an archive once it was loaded, and whether that succeeded. -/
def Usage.loaded (u : Usage) (content : Except PipelineError (List Asset)) : Bool × Usage :=
  match content with
  | .ok manifests => (true, { u with manifests, manifestError := none })
  | .error e => (false, { u with manifestError := some e })

/-- The assets that were loaded, none if that failed. -/
def offers (content : Except PipelineError (List Asset)) : List Asset :=
  content.toOption.getD []

/-- Why nothing was loaded. -/
def fault? (content : Except PipelineError (List Asset)) : Option PipelineError :=
  match content with
  | .ok _ => none
  | .error e => some e

namespace Activation

variable (a : Activation)

/-- What is loaded for an archive. -/
def content (transport : Source → Bool → Except Failure Bytes) (r : Reference) (u : Usage) :
    Except PipelineError (List Asset) :=
  transported transport r u.status.name (a.contextFor r) u.skipCertVerification

/-- The assets of an archive while they are seen to, before it is loaded and after that. -/
def progress (u : Usage) (content : Except PipelineError (List Asset)) (read : Bool) : Progress :=
  if read then ⟨(u.loaded content).2, true⟩ else ⟨u, false⟩

/-- What is offered once an archive was loaded is what was loaded. -/
lemma manifests_loaded {u : Usage} (hu : u.Unloaded)
    (content : Except PipelineError (List Asset)) :
    (u.loaded content).2.manifests = offers content := by
  cases content with
  | ok found => rfl
  | error e => exact hu.manifests

/-- The assets that are seen to: those that are recorded, or if there are none those of the
archive. -/
def concerned (content : Except PipelineError (List Asset)) (u : Usage) : List AssetStatus :=
  if u.status.activeAssets.isEmpty then (offers content).map fun m => m.pending a.target
  else u.status.activeAssets

/-- Why the archive could not be loaded is known once that was tried. -/
lemma manifestError_progress {u : Usage} (hu : u.Unloaded)
    (content : Except PipelineError (List Asset)) (read : Bool) :
    (progress u content read).usage.manifestError = if read then fault? content else none := by
  cases read with
  | false => exact hu.manifestError
  | true => cases content <;> rfl

lemma useCount_progress (u : Usage) (content : Except PipelineError (List Asset)) (read : Bool) :
    (progress u content read).usage.useCount = u.useCount := by
  cases read <;> cases content <;> rfl

lemma statusVersions_progress (u : Usage) (content : Except PipelineError (List Asset))
    (read : Bool) : (progress u content read).usage.statusVersions = u.statusVersions := by
  cases read <;> cases content <;> rfl

section Yields

variable {τ : Type} {c : Surroundings τ} {transport : Source → Bool → Except Failure Bytes}
  {refusal : Effect → Failure} {objects : Objects}

lemma yields_fail (s : AssetStatus) (message : String) :
    c.Yields (fail s message) objects (s.set .failed message) objects :=
  (yields_count _).bind (yields_done _)

variable (hc : c.Steady transport refusal)
include hc

lemma yields_load (r : Reference) (u : Usage) :
    c.Yields (a.load r u) objects (u.loaded (a.content transport r u)) objects := by
  refine (yields_getManifests hc r _ _ _).bind ?_
  change c.Yields (match a.content transport r u with
    | .ok manifests => .done (true, { u with manifests, manifestError := none })
    | .error e => .done (false, { u with manifestError := some e })) _ _ _
  cases a.content transport r u <;> exact yields_done _

/-- An object that is there gets the owner. -/
lemma yields_adoptAsset {key : ObjectKey} {o : Object} (hthere : objects key = some o)
    (hobjects : objects.WellKeyed) (w : Owner) :
    ∃ result, c.Yields (adoptAsset key.kind key.inNamespace o w) objects result
      (objects.set key (some (w.mark key.inNamespace o).2)) := by
  have hname : (⟨key.kind, key.inNamespace, (w.mark key.inNamespace o).2.nameText⟩ : ObjectKey) =
      key := by
    rw [Object.nameText_of_withoutOwners (w.sameButOwners_mark _ o).withoutOwners,
      hobjects key o hthere]
  unfold adoptAsset
  cases hmark : w.mark key.inNamespace o with
  | mk changed marked =>
    rw [hmark] at hname
    cases changed with
    | false =>
      have hsame : marked = o := by
        have hself : w.mark key.inNamespace o = (false, o) := Owner.mark_eq_self (by rw [hmark])
        rw [hmark] at hself
        exact congrArg Prod.snd hself
      refine ⟨.ok false, ?_⟩
      rw [Objects.set_eq_self (by rw [hsame]; exact hthere)]
      exact yields_done _
    | true =>
      have htaken : objects ⟨key.kind, key.inNamespace, marked.nameText⟩ ≠ none := by
        rw [hname, hthere]
        exact Option.some_ne_none o
      have hupdate := yields_update hc.faultless.onlyLooksFail htaken
      rw [hname] at hupdate
      exact ⟨.ok true, hupdate.bind (yields_done _)⟩

/-- Where nothing is, what is offered is created. -/
lemma yields_install {u : Usage} {s : AssetStatus} (hfree : objects s.key = none) :
    let done := a.attend refusal u.manifests objects s.key
    c.Yields (a.install u s) objects (s.set done.1.1 done.1.2) done.2 := by
  rw [install_eq]
  obtain ⟨o, hthere, -⟩ | ⟨-, ⟨message, hm, heq⟩ | ⟨m, hm, ⟨hcreated, heq⟩ | ⟨htaken, heq⟩⟩⟩ :=
    a.attend_cases refusal u.manifests objects s.key
  · rw [hfree] at hthere
    cases hthere
  all_goals
    rw [show s.name = s.key.name from rfl, hm]
    simp only [heq]
  · exact yields_fail s message
  · rw [AssetStatus.key, ← m.objectKey_prepared _ a.owner] at hcreated
    rw [AssetStatus.key, ← m.objectKey_prepared _ a.owner]
    exact (yields_create_free hc.faultless hcreated).bind ((yields_count _).bind (yields_done _))
  · rw [AssetStatus.key, ← m.objectKey_prepared _ a.owner] at htaken
    exact (yields_create_taken hc htaken).bind (yields_fail s _)

/-- One asset is seen to as `attend` says; the archive is loaded if the asset is not there. -/
lemma yields_ensureAsset (r : Reference) {u : Usage} (hu : u.Unloaded)
    (hobjects : objects.WellKeyed) (read : Bool) (x : AssetStatus) :
    let content := a.content transport r u
    let key := x.keyAt a.target
    let done := a.attend refusal (offers content) objects key
    c.Yields (a.ensureAsset r (progress u content read) x) objects
      (x.found a.target done.1, progress u content (read || (objects key).isNone)) done.2 := by
  intro content key done
  unfold ensureAsset
  have hget : c.Yields (Pass.get key.kind key.inNamespace key.name) objects (.ok (objects key))
      objects := yields_get hc.faultless _ _ _
  cases hthere : objects key with
  | some o =>
    rw [hthere] at hget
    refine hget.bind ?_
    obtain ⟨result, hadopt⟩ := yields_adoptAsset hc hthere hobjects a.owner
    have hdone : done =
        ((.active, ""), objects.set key (some (a.owner.mark key.inNamespace o).2)) := by
      simp only [done, attend, hthere]
    rw [hdone, Option.isNone_some, Bool.or_false]
    exact hadopt.bind (yields_done _)
  | none =>
    have hinstall : c.Yields (do
        return (← a.install (u.loaded content).2 { x with namespaceName := x.place a.target },
          (⟨(u.loaded content).2, true⟩ : Progress)))
        objects (x.found a.target done.1, progress u content true) done.2 := by
      refine (yields_install a hc (s := { x with namespaceName := x.place a.target })
        hthere).bind ?_
      rw [manifests_loaded hu]
      exact yields_done _
    rw [hthere] at hget
    refine hget.bind ?_
    rw [Option.isNone_none, Bool.or_true]
    cases read with
    | true =>
      simp only [progress, if_true, Bool.not_true, Bool.and_false, Bool.false_eq_true, if_false]
      exact hinstall
    | false =>
      simp only [progress, Bool.false_eq_true, if_false, hu.manifests, List.isEmpty_nil,
        Bool.not_false, Bool.and_true, if_true]
      exact (yields_load a hc r u).bind hinstall

/-- The assets of an archive are seen to in order as `attendAll` says. -/
lemma yields_ensureAssets (r : Reference) {u : Usage} (hu : u.Unloaded)
    (hobjects : objects.WellKeyed) (read : Bool) (l : List AssetStatus) :
    let content := a.content transport r u
    let done := a.attendAll refusal (offers content) l (read, objects)
    c.Yields (a.ensureAssets r (progress u content read) l) objects
      (done.1, progress u content done.2.1) done.2.2 := by
  induction l generalizing read objects with
  | nil => exact yields_done _
  | cons x l ih =>
    exact (yields_ensureAsset a hc r hu hobjects read x).bind
      ((ih (wellKeyed_attend hobjects) _).bind (yields_done _))

/-- What is known of an archive that was seen to. -/
structure Attended (u : Usage) (content : Except PipelineError (List Asset))
    (done : List AssetStatus × Bool × Objects) (u' : Usage) : Prop where
  kept : u.Kept u'
  activeAssets : u'.status.activeAssets = done.1
  /-- Why it could not be loaded is known if that was tried. -/
  manifestError : u'.manifestError = if done.2.1 then fault? content else none

/-- What is recorded of an archive is seen to as `attendAll` says. -/
lemma yields_ensureRecorded {r : Reference} {u v : Usage} (hu : u.Unloaded)
    (hobjects : objects.WellKeyed) {read : Bool}
    (hv : (⟨v, !v.manifests.isEmpty || v.manifestError.isSome⟩ : Progress) =
      progress u (a.content transport r u) read) :
    let content := a.content transport r u
    let done := a.attendAll refusal (offers content) v.status.activeAssets (read, objects)
    ∃ u', c.Yields (a.ensureRecorded r v) objects u' done.2.2 ∧ Attended v content done u' := by
  intro content done
  have hassets : c.Yields (a.ensureAssets r (progress u content read) v.status.activeAssets)
      objects (done.1, progress u content done.2.1) done.2.2 :=
    yields_ensureAssets a hc r hu hobjects read v.status.activeAssets
  rw [← hv] at hassets
  refine ⟨_, hassets.bind (yields_done _), ⟨?_, ?_, rfl⟩, rfl, manifestError_progress hu content _⟩
  · have huse := congrArg (·.usage.useCount) hv
    exact (useCount_progress u content _).trans (huse.trans (useCount_progress u content _)).symm
  · have hversions := congrArg (·.usage.statusVersions) hv
    exact (statusVersions_progress u content _).trans
      (hversions.trans (statusVersions_progress u content _)).symm

/-- An archive is seen to as `attendAll` says of its recorded assets, or of those that are loaded if
none are recorded. -/
theorem yields_ensure (r : Reference) {u : Usage} (hu : u.Unloaded)
    (hobjects : objects.WellKeyed) :
    let content := a.content transport r u
    let done := a.attendAll refusal (offers content) (a.concerned content u)
      (u.status.activeAssets.isEmpty, objects)
    ∃ u', c.Yields (a.ensure r u) objects u' done.2.2 ∧ Attended u content done u' := by
  intro content done
  unfold ensure
  cases hempty : u.status.activeAssets.isEmpty with
  | false =>
    have hdone : done = a.attendAll refusal (offers content) u.status.activeAssets
        (false, objects) := by
      simp only [done, concerned, hempty, Bool.false_eq_true, if_false]
    have hread : (⟨u, !u.manifests.isEmpty || u.manifestError.isSome⟩ : Progress) =
        progress u content false := by
      simp [progress, hu.manifests, hu.manifestError]
    rw [if_neg Bool.false_ne_true, hdone]
    exact yields_ensureRecorded a hc hu hobjects hread
  | true =>
    have hload : c.Yields (a.load r u) objects (u.loaded content) objects := yields_load a hc r u
    rw [if_pos rfl]
    cases hcontent : content with
    | error e =>
      have hdone : done = ([], true, objects) := by
        simp only [done, hcontent, concerned, hempty, if_true]
        rfl
      rw [hcontent] at hload
      rw [hdone]
      exact ⟨_, hload.bind (yields_done _), ⟨rfl, rfl, rfl⟩, List.isEmpty_iff.mp hempty, rfl⟩
    | ok found =>
      rw [hcontent] at hload
      cases found with
      | nil =>
        have hdone : done = ([], true, objects) := by
          simp only [done, hcontent, concerned, hempty, if_true]
          rfl
        rw [hdone]
        exact ⟨_, hload.bind (yields_done _), ⟨rfl, rfl, rfl⟩, rfl, rfl⟩
      | cons m found =>
        let pending := (m :: found).map fun m => m.pending a.target
        let v : Usage := { u with status := { u.status with activeAssets := pending } }
        have hv : v.Unloaded := ⟨hu.manifests, hu.manifestError⟩
        have hvcontent : a.content transport r v = .ok (m :: found) := hcontent
        have hdone : done = a.attendAll refusal (m :: found) pending (true, objects) := by
          simp only [done, hcontent, concerned, hempty, if_true]
          rfl
        have hread : (⟨(v.loaded (.ok (m :: found))).2, true⟩ : Progress) =
            progress v (a.content transport r v) true := by
          rw [hvcontent]
          rfl
        obtain ⟨u', hrecorded, hattended⟩ := yields_ensureRecorded a hc hv hobjects hread
        rw [hvcontent] at hrecorded hattended
        rw [hdone]
        exact ⟨u', hload.bind hrecorded, ⟨hattended.kept.useCount, hattended.kept.statusVersions,
          hattended.kept.reference⟩, hattended.activeAssets, hattended.manifestError⟩

end Yields

end Activation

end PipelineStacks
