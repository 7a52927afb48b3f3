import PipelineStacks.Proofs.Activation
import PipelineStacks.Proofs.Owners
import PipelineStacks.Proofs.Requests
import PipelineStacks.Reconcile.Pass

/-!
# What a pass asks of the store

In its first round a pass gives up assets: under some keys it looks for an object, and takes the
owner off an object that it has found, or deletes one that nobody else owns (`Owner.GivesUp`).  In
its second round it sees to assets: under some keys it looks for an object and records the owner on
an object that it has found, and where none is it creates an asset (`Owner.Tends`).

Which keys and assets these are hangs on what is recorded and on what is loaded.  A bound on both is
an `Activation.Scope`, and `run_conforms` says that a pass keeps within any such bound: each request
is one of the above, and so are the records that the pass leaves.  The lemmas follow the programs of
a pass, one for each.
-/

namespace PipelineStacks

open Program (Exchange conforms_bind conforms_done guarded_bind guarded_done guarded_question)

/-! ## What may be asked -/

namespace Owner

/-- Nobody but the owner is recorded on the object; outside its own namespace the owner is. -/
structure SoleOn (w : Owner) (inNamespace : String) (o : Object) : Prop where
  alone : ∀ uid ∈ o.owners, uid = w.uid
  recorded : inNamespace ≠ w.namespaceName → w.uid ∈ o.owners

instance (w : Owner) (inNamespace : String) (o : Object) : Decidable (w.SoleOn inNamespace o) :=
  decidable_of_iff ((∀ uid ∈ o.owners, uid = w.uid) ∧
    (inNamespace ≠ w.namespaceName → w.uid ∈ o.owners))
    ⟨fun h => ⟨h.1, h.2⟩, fun h => ⟨h.alone, h.recorded⟩⟩

/-- The owner is alone on an object if it is to be given up and nobody is left then. -/
lemma soleOn_iff {w : Owner} {ns : String} {o : Object} : w.SoleOn ns o ↔
    ¬ (!w.isMarked o && !w.canOwn ns) = true ∧ (w.unmark o).2.ownerCount = 0 := by
  have hours : ¬ (!w.isMarked o && !w.canOwn ns) = true ↔
      (ns ≠ w.namespaceName → w.uid ∈ o.owners) := by
    rw [← w.isMarked_iff, canOwn, ne_comm]
    cases w.isMarked o <;> simp
  rw [hours, w.ownerCount_unmark_eq_zero_iff]
  exact ⟨fun h => ⟨h.recorded, h.alone⟩, fun h => ⟨h.2, h.1⟩⟩

/-- What may be asked while assets under some keys are given up.  Under these keys objects are
looked up; right after an object was found there, it may be replaced by the object without the
owner, and deleted if nobody else owns it. -/
def GivesUp (w : Owner) (keys : Set ObjectKey) (last : Option (Exchange Effect.Answer)) :
    Effect → Prop
  | .get kind ns name => ⟨kind, ns, name⟩ ∈ keys
  | .update kind ns o => ∃ key ∈ keys, ∃ object, last = some (Effect.found key object) ∧
      kind = key.kind ∧ ns = key.inNamespace ∧ o = (w.unmark object).2
  | .delete kind ns name => ⟨kind, ns, name⟩ ∈ keys ∧ ∃ object,
      last = some (Effect.found ⟨kind, ns, name⟩ object) ∧ w.SoleOn ns object
  | .count _ => True
  | .create .. | .fetch .. | .record .. => False

/-- What may be asked while assets under some keys are seen to.  Under these keys objects are looked
up; right after an object was found there, it may be replaced by the object with the owner.  Some
assets may be created, each in some namespaces.  Nothing is deleted. -/
def Tends (w : Owner) (keys : Set ObjectKey) (made : Set (Asset × String))
    (last : Option (Exchange Effect.Answer)) : Effect → Prop
  | .get kind ns name => ⟨kind, ns, name⟩ ∈ keys
  | .create kind ns o => ∃ m, (m, ns) ∈ made ∧ kind = m.kind ∧ o = m.prepared ns w
  | .update kind ns o => ∃ key ∈ keys, ∃ object, last = some (Effect.found key object) ∧
      kind = key.kind ∧ ns = key.inNamespace ∧ o = (w.mark ns object).2
  | .fetch .. | .count _ => True
  | .delete .. | .record .. => False

/-- While assets are seen to nothing is taken away. -/
lemma Tends.put_of_written {w : Owner} {keys : Set ObjectKey} {made : Set (Asset × String)}
    {last : Option (Exchange Effect.Answer)} {e : Effect} (h : w.Tends keys made last e)
    {answer : Effect.Answer e} {key : ObjectKey} {v : Option Object}
    (hv : e.written? answer = some (key, v)) : v ≠ none := by
  rintro rfl
  cases e with
  | delete kind ns name => exact h
  | create kind ns o => match answer, hv with
    | .ok (), hv => cases hv
  | update kind ns o => match answer, hv with
    | .ok (), hv => cases hv
  | _ => cases hv

end Owner

/-! ## Giving up -/

section GivingUp

variable {w : Owner} {keys : Set ObjectKey} {last : Option (Exchange Effect.Answer)}

/-- To give up an object that was found is to delete it if nobody else owns it, and else to replace
it if the owner is recorded on it. -/
lemma releaseObject_eq (w : Owner) (kind : Kind) (ns name : String) (o : Object) :
    releaseObject kind ns name w o =
      if w.SoleOn ns o then
        Pass.delete kind ns name >>= fun answer => .done (answer.map fun _ => .deleted)
      else if w.isMarked o then
        Pass.update kind ns (w.unmark o).2 >>= fun answer => .done (answer.map fun _ => .disowned)
      else .done (.ok (if w.canOwn ns then .disowned else .notOwned)) := by
  unfold releaseObject
  split
  · next hforeign =>
    have hshared : ¬ w.SoleOn ns o := fun hsole => (Owner.soleOn_iff.mp hsole).1 hforeign
    rw [Bool.and_eq_true, Bool.not_eq_true', Bool.not_eq_true'] at hforeign
    rw [if_neg hshared, hforeign.1, hforeign.2]
    rfl
  · next hours =>
    simp only
    split
    · next hnone =>
      rw [if_pos (Owner.soleOn_iff.mpr ⟨hours, hnone⟩)]
      refine congrArg (Pass.delete kind ns name >>= ·) (funext fun answer => ?_)
      cases answer <;> rfl
    · next hleft =>
      rw [if_neg fun hsole => hleft (Owner.soleOn_iff.mp hsole).2, w.unmark_fst]
      split
      · refine congrArg (Pass.update kind ns (w.unmark o).2 >>= ·) (funext fun answer => ?_)
        cases answer <;> rfl
      · next hunmarked =>
        have hown : w.canOwn ns = true := by simpa [hunmarked] using hours
        rw [hown]
        rfl

/-- To give up an object that was found is one request at most: to delete it, if it has no other
owner, or to replace it by the object without the owner. -/
lemma releaseObject_asks (w : Owner) (kind : Kind) (ns name : String) (object : Object)
    (last : Option (Exchange Effect.Answer)) :
    (releaseObject kind ns name w object).Guarded (fun last' e => last' = last ∧
      (e = .delete kind ns name ∧ w.SoleOn ns object ∨ e = .update kind ns (w.unmark object).2))
      last := by
  rw [releaseObject_eq]
  split
  · next hsole =>
    exact guarded_bind (guarded_question ⟨rfl, Or.inl ⟨rfl, hsole⟩⟩) fun _ _ => guarded_done _
  · split
    · exact guarded_bind (guarded_question ⟨rfl, Or.inr rfl⟩) fun _ _ => guarded_done _
    · exact guarded_done _

/-- A recorded asset is looked up and given up under its own key, and only if it is active. -/
lemma deleteAsset_guarded {s : AssetStatus} {target : String}
    (hkey : s.state = .active → s.keyAt target ∈ keys) :
    (deleteAsset s target w).Guarded (w.GivesUp keys) last := by
  unfold deleteAsset
  split
  · exact guarded_done _
  · next hactive =>
    have hkey := hkey (not_not.mp hactive)
    refine ⟨hkey, fun answer => ?_⟩
    match answer with
    | .error e => exact guarded_done _
    | .ok none => exact guarded_done _
    | .ok (some object) =>
      refine (releaseObject_asks w s.objectKind (s.place target) s.name object _).imp ?_
      rintro last' e ⟨rfl, ⟨rfl, hsole⟩ | rfl⟩
      · exact ⟨hkey, object, rfl, hsole⟩
      · exact ⟨s.keyAt target, hkey, object, rfl, rfl, rfl, rfl⟩

variable {a : Activation}

lemma releaseAssets_guarded {l : List AssetStatus}
    (hkeys : ∀ s ∈ l, s.state = .active → s.keyAt a.target ∈ keys) :
    (a.releaseAssets l).Guarded (a.owner.GivesUp keys) last := by
  induction l generalizing last with
  | nil => exact guarded_done _
  | cons s l ih =>
    obtain ⟨hhead, htail⟩ := List.forall_mem_cons.mp hkeys
    refine guarded_bind (deleteAsset_guarded hhead) fun result last' => ?_
    cases result with
    | error e => exact guarded_bind (ih htail) fun _ _ => guarded_done _
    | ok outcome =>
      by_cases h : outcome.isRelease
      · simp only [h, if_true]
        exact guarded_bind (guarded_question trivial) fun _ _ => ih htail
      · simp only [h]
        exact ih htail

end GivingUp

/-! ## Seeing to assets -/

/-- To record an owner on an object that was found is one request at most: to replace it by the
object with the owner. -/
lemma adoptAsset_asks (w : Owner) (kind : Kind) (ns : String) (object : Object)
    (last : Option (Exchange Effect.Answer)) :
    (adoptAsset kind ns object w).Guarded
      (fun last' e => last' = last ∧ e = .update kind ns (w.mark ns object).2) last := by
  unfold adoptAsset
  split
  · exact guarded_done _
  · next marked hmark =>
    refine guarded_bind (guarded_question ⟨rfl, ?_⟩) fun answer _ => ?_
    · rw [hmark]
    · cases answer <;> exact guarded_done _

namespace Activation

variable {R : (e : Effect) → Effect.Answer e → Prop} {a : Activation} {r : Reference}
  {last : Option (Exchange Effect.Answer)}

/-- A bound on what is done while assets are seen to: which archives there are, which assets each of
them may be found to hold, under which keys its assets are kept, and which assets may be created in
which namespaces. -/
structure Scope (a : Activation) (R : (e : Effect) → Effect.Answer e → Prop) where
  archives : Set Reference
  loaded : Reference → List Asset → Prop
  keys : Reference → Set ObjectKey
  made : Set (Asset × String)
  /-- Nothing else is loaded. -/
  loads : ∀ r ∈ archives, ∀ name skip,
    (getManifests r name (a.contextFor r) skip).Always R fun result =>
      ∀ found, result = .ok found → loaded r found
  /-- What is loaded is kept under these keys. -/
  listed : ∀ r ∈ archives, ∀ found, loaded r found → ∀ m ∈ found, m.key a.target ∈ keys r
  /-- What is offered under the name of a key may be created in its namespace. -/
  makes : ∀ r ∈ archives, ∀ found, loaded r found → ∀ key ∈ keys r, ∀ m,
    Asset.offered found key.name = .ok m → (m, key.inNamespace) ∈ made

namespace Scope

variable (S : a.Scope R)

/-- The bound that leaves everything open. -/
def unbounded (a : Activation) (R : (e : Effect) → Effect.Answer e → Prop) : a.Scope R where
  archives := Set.univ
  loaded _ _ := True
  keys _ := Set.univ
  made := Set.univ
  loads _ _ _ _ := Program.always_of_forall fun _ _ _ => trivial
  listed _ _ _ _ _ _ := trivial
  makes _ _ _ _ _ _ _ _ := trivial

/-- The keys of all archives. -/
def allKeys : Set ObjectKey :=
  {key | ∃ r ∈ S.archives, key ∈ S.keys r}

/-- What may be asked within the bound. -/
def Permits : Option (Exchange Effect.Answer) → Effect → Prop :=
  a.owner.Tends S.allKeys S.made

/-- Nothing is loaded, or what is loaded is within the bound. -/
def Knows (r : Reference) (manifests : List Asset) : Prop :=
  manifests = [] ∨ S.loaded r manifests

/-- What is known of an archive is within the bound. -/
structure Covers (r : Reference) (u : Usage) : Prop where
  archive : r ∈ S.archives
  manifests : S.Knows r u.manifests
  keys : ∀ x ∈ u.status.activeAssets, x.keyAt a.target ∈ S.keys r

lemma covers_unbounded (u : Usage) : (unbounded a R).Covers r u :=
  ⟨trivial, Or.inr trivial, fun _ _ => trivial⟩

variable {S}

/-- What is offered was loaded. -/
lemma Knows.mem_made {manifests : List Asset} (h : S.Knows r manifests) (hr : r ∈ S.archives)
    {key : ObjectKey} (hkey : key ∈ S.keys r) {m : Asset}
    (hm : Asset.offered manifests key.name = .ok m) : (m, key.inNamespace) ∈ S.made := by
  rcases h with rfl | hloaded
  · cases hm
  · exact S.makes r hr _ hloaded key hkey m hm

end Scope

section Asks

variable {G : Option (Exchange Effect.Answer) → Effect → Prop}

lemma fail_guarded (hfailed : ∀ last, G last (.count .assetsFailed)) (s : AssetStatus)
    (message : String) : (fail s message).Guarded G last :=
  guarded_bind (guarded_question (hfailed _)) fun _ _ => guarded_done _

/-- A source that is decoded is fetched first; nothing else is asked. -/
lemma fetchAssets_guarded (hfetch : ∀ last source skip, G last (.fetch source skip))
    (r : Reference) (name : String) (context : RenderContext) (skip : Bool) :
    (fetchAssets r name context skip).Guarded G last := by
  unfold fetchAssets fetchArchive
  split
  · exact guarded_done _
  · split
    · exact guarded_done _
    · refine guarded_bind (guarded_bind (guarded_question (hfetch _ _ _)) fun answer _ => ?_)
        fun result _ => ?_
      · cases answer <;> exact guarded_done _
      · cases result <;> exact guarded_done _

/-- To load an archive is to fetch it. -/
lemma getManifests_guarded (hcount : ∀ last metric, G last (.count metric))
    (hfetch : ∀ last source skip, G last (.fetch source skip))
    (r : Reference) (name : String) (context : RenderContext) (skip : Bool) :
    (getManifests r name context skip).Guarded G last := by
  refine guarded_bind (guarded_question (hcount _ _)) fun _ _ =>
    guarded_bind (fetchAssets_guarded hfetch r name context skip)
      fun result _ => guarded_bind (guarded_question (hcount _ _)) fun _ _ => ?_
  cases result with
  | error e => exact guarded_bind (guarded_question (hcount _ _)) fun _ _ => guarded_done _
  | ok found => exact guarded_done _

/-- What is created is what is offered under the name of the record. -/
lemma install_guarded (hfailed : ∀ last, G last (.count .assetsFailed))
    (happlied : ∀ last, G last (.count .assetsApplied)) {u : Usage} {s : AssetStatus}
    (hcreate : ∀ last m, Asset.offered u.manifests s.name = .ok m →
      G last (.create m.kind s.namespaceName (m.prepared s.namespaceName a.owner))) :
    (a.install u s).Guarded G last := by
  rw [install_eq]
  cases hm : Asset.offered u.manifests s.name with
  | error message => exact fail_guarded hfailed s message
  | ok m =>
    refine guarded_bind (guarded_question (hcreate _ m hm)) fun result _ => ?_
    cases result with
    | error e => exact fail_guarded hfailed s _
    | ok => exact guarded_bind (guarded_question (happlied _)) fun _ _ => guarded_done _

end Asks

variable {S : a.Scope R}

/-- If an archive is loaded, then with assets that are within the bound. -/
lemma load_conforms (hr : r ∈ S.archives) {u : Usage} (hu : S.Knows r u.manifests) :
    (a.load r u).Conforms R S.Permits (fun loaded => S.Knows r loaded.2.manifests ∧
      loaded.2.status = u.status ∧ (loaded.1 = true → S.loaded r loaded.2.manifests)) last := by
  have hasks : (getManifests r u.status.name (a.contextFor r) u.skipCertVerification).Guarded
      S.Permits last := getManifests_guarded (fun _ _ => trivial) (fun _ _ _ => trivial) _ _ _ _
  refine conforms_bind (hasks.conforms.and_always (S.loads r hr _ _)) fun result hresult _ => ?_
  cases result with
  | error e => exact conforms_done ⟨hu, rfl, fun h => nomatch h⟩
  | ok found =>
    have hfound := hresult.2 found rfl
    exact conforms_done ⟨Or.inr hfound, rfl, fun _ => hfound⟩

/-- An asset is looked up under its own key, and adopted or created there. -/
lemma ensureAsset_conforms {p : Progress} {x : AssetStatus} (hr : r ∈ S.archives)
    (hp : S.Knows r p.usage.manifests) (hkey : x.keyAt a.target ∈ S.keys r) :
    (a.ensureAsset r p x).Conforms R S.Permits
      (fun found => S.Knows r found.2.usage.manifests) last := by
  have hall : x.keyAt a.target ∈ S.allKeys := ⟨r, hr, hkey⟩
  unfold ensureAsset
  refine Program.conforms_question_bind hall fun answer _ => ?_
  match answer with
  | .error e => exact conforms_done hp
  | .ok (some object) =>
    have hadopt : (adoptAsset x.objectKind (x.place a.target) object a.owner).Guarded S.Permits
        (some (Effect.found (x.keyAt a.target) object)) := by
      refine (adoptAsset_asks a.owner x.objectKind (x.place a.target) object _).imp ?_
      rintro last' e ⟨rfl, rfl⟩
      exact ⟨x.keyAt a.target, hall, object, rfl, rfl, rfl, rfl⟩
    exact conforms_bind hadopt.conforms fun _ _ _ => conforms_done hp
  | .ok none =>
    have hinstall : ∀ (p' : Progress) (last' : Option (Exchange Effect.Answer)),
        S.Knows r p'.usage.manifests →
        (do return (← a.install p'.usage { x with namespaceName := x.place a.target }, p') :
          Pass (AssetStatus × Progress)).Conforms R S.Permits
            (fun found => S.Knows r found.2.usage.manifests) last' := by
      intro p' last' hp'
      have hinstalled : (a.install p'.usage { x with namespaceName := x.place a.target }).Guarded
          S.Permits last' := install_guarded (fun _ => trivial) (fun _ => trivial) fun _ m hm =>
        ⟨m, hp'.mem_made hr hkey hm, rfl, rfl⟩
      exact conforms_bind hinstalled.conforms fun _ _ _ => conforms_done hp'
    by_cases h : p.usage.manifests.isEmpty && !p.attempted
    · simp only [h, if_true]
      refine conforms_bind (load_conforms hr hp) fun loaded hloaded _ => ?_
      exact hinstall ⟨loaded.2, true⟩ _ hloaded.1
    · simp only [h]
      exact hinstall p _ hp

lemma ensureAssets_conforms {p : Progress} {l : List AssetStatus} (hr : r ∈ S.archives)
    (hp : S.Knows r p.usage.manifests) (hkeys : ∀ x ∈ l, x.keyAt a.target ∈ S.keys r) :
    (a.ensureAssets r p l).Conforms R S.Permits
      (fun found => S.Knows r found.2.usage.manifests) last := by
  induction l generalizing p last with
  | nil => exact conforms_done hp
  | cons x l ih =>
    obtain ⟨hhead, htail⟩ := List.forall_mem_cons.mp hkeys
    refine conforms_bind (ensureAsset_conforms hr hp hhead) fun found hfound last' => ?_
    exact conforms_bind (ih hfound htail) fun _ hrest _ => conforms_done hrest

/-- Records with the keys of others, or some of them, are about keys within the same bound. -/
lemma forall_keyAt_of_sublist {keys : Set ObjectKey} {l l' : List AssetStatus} {target : String}
    (h : (l'.map (·.keyAt target)).Sublist (l.map (·.keyAt target)))
    (hl : ∀ x ∈ l, x.keyAt target ∈ keys) : ∀ x ∈ l', x.keyAt target ∈ keys := by
  intro x hx
  obtain ⟨y, hy, hkey⟩ := List.mem_map.mp (h.subset (List.mem_map_of_mem hx))
  rw [← hkey]
  exact hl y hy

lemma ensureRecorded_conforms {u : Usage} (hu : S.Covers r u) :
    (a.ensureRecorded r u).Conforms R S.Permits (S.Covers r) last := by
  refine conforms_bind ((ensureAssets_conforms hu.archive hu.manifests hu.keys).and_always
    (a.ensureAssets_always r _ _)) ?_
  rintro ⟨l, p⟩ ⟨hp, hl, -⟩ _
  exact conforms_done ⟨hu.archive, hp, forall_keyAt_of_sublist (hl ▸ .refl _) hu.keys⟩

/-- An archive is seen to within the bound, and what is recorded of it then is within it. -/
theorem ensure_conforms {u : Usage} (hu : S.Covers r u) :
    (a.ensure r u).Conforms R S.Permits (S.Covers r) last := by
  unfold ensure
  split
  · refine conforms_bind (load_conforms hu.archive hu.manifests) ?_
    rintro ⟨succeeded, u'⟩ ⟨hknown, hstatus, hloaded⟩ last'
    cases succeeded with
    | false => exact conforms_done ⟨hu.archive, hknown, by rw [hstatus]; exact hu.keys⟩
    | true =>
      refine ensureRecorded_conforms ⟨hu.archive, hknown, fun x hx => ?_⟩
      obtain ⟨m, hm, rfl⟩ := List.mem_map.mp hx
      rw [Asset.keyAt_pending]
      exact S.listed r hu.archive _ (hloaded rfl) m hm
  · exact ensureRecorded_conforms hu

/-! ## A pass -/

/-- In the first round of a pass only active assets of archives that are not needed are given up,
and what is recorded stays within the bound. -/
lemma giveUp_conforms {m : UseMap} {given : Set ObjectKey}
    (hgiven : ∀ r u, (r, u) ∈ m.toDelete → ∀ x ∈ u.status.activeAssets, x.state = .active →
      x.keyAt a.target ∈ given)
    (hm : ∀ r u, m.get? r = some u → S.Covers r u) :
    (a.giveUp m).Conforms R (a.owner.GivesUp given)
      (fun m' => ∀ r u, m'.get? r = some u → S.Covers r u) last := by
  refine (Program.conforms_traverse (Q := fun r _ u' => S.Covers r u') fun e he last' => ?_).imp
    (fun _ _ => id) fun m' hm' r u hu => (hm'.exists_of_some hu).elim fun _ h => h.2
  have hcovers := hm e.1 e.2 (SortedMap.mem_entries_iff.mp he)
  by_cases hneeded : e.2.isNeeded
  · rw [if_pos hneeded]
    exact conforms_done hcovers
  · have hdelete : e ∈ m.toDelete := List.mem_filter.mpr ⟨he, by simpa using hneeded⟩
    rw [if_neg hneeded]
    refine conforms_bind (releaseAssets_guarded (hgiven e.1 e.2 hdelete) |>.conforms.and_always
      (a.releaseAssets_always _)) ?_
    rintro kept ⟨-, hkept, -⟩ _
    exact conforms_done
      ⟨hcovers.archive, hcovers.manifests, forall_keyAt_of_sublist hkept hcovers.keys⟩

/-- In the second round everything is within the bound. -/
lemma seeToAll_conforms {m : UseMap} (hm : ∀ r u, m.get? r = some u → S.Covers r u) :
    (a.seeToAll m).Conforms R S.Permits
      (fun m' => ∀ r u, m'.get? r = some u → S.Covers r u) last := by
  refine (Program.conforms_traverse (Q := fun r _ u' => S.Covers r u') fun e he last' => ?_).imp
    (fun _ _ => id) fun m' hm' r u hu => (hm'.exists_of_some hu).elim fun _ h => h.2
  have hcovers := hm e.1 e.2 (SortedMap.mem_entries_iff.mp he)
  split
  · exact ensure_conforms hcovers
  · exact conforms_done hcovers

/-- Without any bound, assets are seen to in the second round. -/
lemma seeToAll_guarded (a : Activation) (m : UseMap) :
    (a.seeToAll m).Guarded (Scope.unbounded a fun _ _ => True).Permits last :=
  (seeToAll_conforms fun _ u _ => Scope.covers_unbounded u).guarded

/-- A pass gives up only active assets of archives that are not needed, it sees to assets within the
bound, and what it leaves is within the bound. -/
theorem run_conforms {m : UseMap} {given : Set ObjectKey}
    (hgiven : ∀ r u, (r, u) ∈ m.toDelete → ∀ x ∈ u.status.activeAssets, x.state = .active →
      x.keyAt a.target ∈ given)
    (hm : ∀ r u, m.get? r = some u → S.Covers r u) :
    (a.run m).Conforms R (fun last' e => a.owner.GivesUp given last' e ∨ S.Permits last' e)
      (fun m' => ∀ r u, m'.get? r = some u → S.Covers r u) last := by
  rw [run_eq]
  refine conforms_bind ((giveUp_conforms hgiven hm).imp (fun _ _ => Or.inl) fun _ => id) ?_
  intro m' hm' last'
  exact (seeToAll_conforms hm').imp (fun _ _ => Or.inr) fun _ => id

end Activation

namespace Stack

/-- The status is written for the stack that it was made for. -/
lemma updateStatus_guarded (s : Stack) (status : StackStatus)
    (last : Option (Exchange Effect.Answer)) :
    (s.updateStatus status).Guarded
      (fun _ e => ∃ ns, s.metadata.namespaceName = some ns ∧ e = .record ns s.name status)
      last := by
  unfold updateStatus
  split
  · split
    · exact guarded_done _
    · next ns hns =>
      refine guarded_bind (guarded_question ⟨ns, hns, rfl⟩) fun answer _ => ?_
      cases answer <;> exact guarded_done _
  · exact guarded_done _

/-- Beyond bringing the cluster in line a whole pass only counts metrics and writes the status. -/
theorem reconcile_conforms {R : (e : Effect) → Effect.Answer e → Prop} {s : Stack}
    {G : Option (Exchange Effect.Answer) → Effect → Prop} {last : Option (Exchange Effect.Answer)}
    (hcount : ∀ last metric, G last (.count metric))
    (hrecord : ∀ last ns name status, G last (.record ns name status))
    (h : ∀ last, s.reconcileActiveVersions.Conforms R G (fun _ => True) last) :
    s.reconcile.Conforms R G (fun _ => True) last := by
  have hwrite : ∀ status last', (s.updateStatus status).Guarded G last' := by
    intro status last'
    refine (s.updateStatus_guarded status last').imp ?_
    rintro last'' e ⟨ns, -, rfl⟩
    exact hrecord last'' ns s.name status
  refine conforms_bind (guarded_question (hcount _ _)).conforms fun _ _ _ => ?_
  refine conforms_bind (h _) fun result _ _ => ?_
  cases result with
  | error e => exact conforms_done trivial
  | ok status =>
    refine (guarded_bind (hwrite status _) fun written _ => ?_).conforms
    cases written with
    | error e => exact guarded_done _
    | ok _ =>
      exact guarded_bind (guarded_question (hcount _ _)) fun _ _ =>
        guarded_bind (guarded_question (hcount _ _)) fun _ _ => guarded_done _

end Stack

end PipelineStacks
