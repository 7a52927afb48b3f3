import PipelineStacks.Proofs.Reach

/-!
# Worlds that show one object

What an archive may be found to hold comes to be written in some world.  The worlds here answer with
success only when one key is looked up and one source is fetched (`Effect.glimpse`).  If an object
is shown under the key of an asset, it is adopted (`Stack.issues_update`); if none is shown, the
last asset of the same name is created (`Stack.issues_create`).
-/

namespace PipelineStacks

open Program (AsksFor World asksFor_bind asksFor_question asksFor_traverse)

/-! ## A world that shows one object -/

namespace Effect

/-- The answers of a world in which only one key can be looked up and only one source be fetched. -/
def glimpse (key : ObjectKey) (there : Option Object) (source : Source) (raw : Bytes) :
    (e : Effect) → Effect.Answer e
  | .get kind ns name =>
    (if (⟨kind, ns, name⟩ : ObjectKey) = key then .ok there else .error (Failure.root "timeout") :
      Except Failure (Option Object))
  | .fetch source' _ =>
    (if source' = source then .ok raw else .error (Failure.root "timeout") : Except Failure Bytes)
  | e => e.failed (Failure.root "timeout")

/-- The answer is that of such a world. -/
def Glimpsed (key : ObjectKey) (there : Option Object) (source : Source) (raw : Bytes) (e : Effect)
    (answer : Effect.Answer e) : Prop :=
  answer = e.glimpse key there source raw

/-- The world itself. -/
def glimpseWorld (key : ObjectKey) (there : Option Object) (source : Source) (raw : Bytes) :
    World Effect.Answer Unit :=
  fun e t => (e.glimpse key there source raw, t)

variable {key : ObjectKey} {there : Option Object} {source : Source} {raw : Bytes}

lemma admits_glimpseWorld :
    (glimpseWorld key there source raw).Admits (Glimpsed key there source raw) :=
  fun _ _ => rfl

lemma Glimpsed.servedAt {e : Effect} {answer : Effect.Answer e}
    (h : Glimpsed key there source raw e answer) : ServedAt source raw e answer := by
  cases e with
  | fetch source' skip =>
    intro hsource
    exact h.trans (if_pos hsource)
  | _ => trivial

lemma Glimpsed.among {served : Source → Set Bytes} (hraw : raw ∈ served source) {e : Effect}
    {answer : Effect.Answer e} (h : Glimpsed key there source raw e answer) :
    Among served e answer := by
  cases e with
  | fetch source' skip =>
    intro raw' hraw'
    by_cases hsource : source' = source
    · have hanswer : answer = (.ok raw : Except Failure Bytes) := h.trans (if_pos hsource)
      rw [hraw'] at hanswer
      rwa [hsource, Except.ok.inj hanswer]
    · have hanswer : answer = (.error (Failure.root "timeout") : Except Failure Bytes) :=
        h.trans (if_neg hsource)
      rw [hraw'] at hanswer
      cases hanswer
  | _ => trivial

/-- The world is one in which fetches yield what is served. -/
lemma among_glimpseWorld {served : Source → Set Bytes} (hraw : raw ∈ served source) :
    (glimpseWorld key there source raw).Admits (Among served) :=
  fun e t => Glimpsed.among hraw (admits_glimpseWorld e t)

end Effect

namespace Activation

open Effect (Glimpsed glimpseWorld admits_glimpseWorld)

variable {a : Activation} {r : Reference} {key : ObjectKey} {there : Option Object} {raw : Bytes}
  {Q : Effect → Prop}

/-- What becomes of the look-up of an asset: nothing under any other key. -/
lemma get_glimpsed (x : AssetStatus) (target : String) {source : Source} :
    (Pass.get x.objectKind (x.place target) x.name).Always (Glimpsed key there source raw)
      fun answer => answer =
        if x.keyAt target = key then .ok there else .error (Failure.root "timeout") :=
  fun _ h => h

/-- An asset under another key cannot be looked up, and no more is asked about it. -/
lemma ensureAsset_of_ne {source : Source} {p : Progress} {x : AssetStatus}
    (hx : x.keyAt a.target ≠ key) :
    (a.ensureAsset r p x).Always (Glimpsed key there source raw) fun found => found.2 = p := by
  unfold ensureAsset
  refine Program.always_bind.mpr ((get_glimpsed x a.target).imp ?_)
  rintro answer rfl
  rw [if_neg hx]
  exact rfl

/-- Of assets that are seen to the first one under the key makes the difference. -/
lemma ensureAssets_asksFor {source : Source} {p : Progress} {l : List AssetStatus}
    (hkey : key ∈ l.map (·.keyAt a.target))
    (hfirst : ∀ x, x.keyAt a.target = key →
      (a.ensureAsset r p x).AsksFor (glimpseWorld key there source raw) Q) :
    (a.ensureAssets r p l).AsksFor (glimpseWorld key there source raw) Q := by
  induction l with
  | nil => cases hkey
  | cons x l ih =>
    by_cases hx : x.keyAt a.target = key
    · exact (hfirst x hx).bind _
    · refine asksFor_bind (ensureAsset_of_ne hx) admits_glimpseWorld ?_
      rintro ⟨x', p'⟩ rfl
      rw [List.map_cons, List.mem_cons] at hkey
      exact (ih (hkey.resolve_left (Ne.symm hx))).bind _

/-- An object without any owners is adopted. -/
lemma ensureAsset_asksFor_update {source : Source} {p : Progress} {x : AssetStatus}
    (hx : x.keyAt a.target = key) :
    (a.ensureAsset r p x).AsksFor (glimpseWorld key (some {}) source raw)
      fun e => ∃ o, e = .update key.kind key.inNamespace o := by
  have hmark : (a.owner.mark (x.place a.target) {}).1 = true := by
    unfold Owner.mark
    split <;> rfl
  unfold ensureAsset
  refine asksFor_bind (get_glimpsed x a.target) admits_glimpseWorld ?_
  rintro answer rfl
  rw [if_pos hx]
  subst hx
  refine AsksFor.bind ?_ _
  unfold adoptAsset
  cases hmarked : a.owner.mark (x.place a.target) {} with
  | mk changed o =>
    rw [hmarked] at hmark
    obtain rfl : changed = true := hmark
    exact (asksFor_question ⟨o, rfl⟩).bind _

/-- The bytes at the source of the archive are loaded. -/
lemma load_glimpsed {u : Usage} {found : List Asset}
    (hfound : assetsIn (fun _ => raw) r u.status.name (a.contextFor r) = .ok found) :
    (a.load r u).Always (Glimpsed key there r.source raw) fun loaded =>
      loaded = (true, { u with manifests := found, manifestError := none }) := by
  refine Program.always_bind.mpr
    ((getManifests_always_servedAt.anti fun _ _ h => h.servedAt).imp ?_)
  rintro result rfl
  rw [hfound]
  exact rfl

/-- Where no object is, what is offered then is created. -/
lemma ensureAsset_asksFor_create {p : Progress} {x : AssetStatus} {found : List Asset} {m : Asset}
    (hx : x.keyAt a.target = key) (hnone : p.usage.manifests = []) (hfirst : p.attempted = false)
    (hfound : assetsIn (fun _ => raw) r p.usage.status.name (a.contextFor r) = .ok found)
    (hm : Asset.offered found key.name = .ok m) :
    (a.ensureAsset r p x).AsksFor (glimpseWorld key none r.source raw)
      fun e => ∃ o, e = .create m.kind key.inNamespace o := by
  unfold ensureAsset
  refine asksFor_bind (get_glimpsed x a.target) admits_glimpseWorld ?_
  rintro answer rfl
  rw [if_pos hx]
  subst hx
  simp only [hnone, hfirst, List.isEmpty_nil, Bool.not_false, Bool.and_true, if_true]
  refine asksFor_bind (load_glimpsed hfound) admits_glimpseWorld ?_
  rintro _ rfl
  simp only [Program.pure_eq, Program.done_bind]
  refine AsksFor.bind ?_ _
  have hoffered : Asset.offered found x.name = .ok m := hm
  rw [install_eq]
  simp only [hoffered]
  exact (asksFor_question ⟨_, rfl⟩).bind _

/-- If no assets are recorded of an archive, those that it holds are looked for, and an object that
is found is adopted. -/
lemma ensure_asksFor_update {u : Usage} {found : List Asset}
    (hempty : u.status.activeAssets = [])
    (hfound : assetsIn (fun _ => raw) r u.status.name (a.contextFor r) = .ok found)
    (hkey : key ∈ found.map (·.key a.target)) :
    (a.ensure r u).AsksFor (glimpseWorld key (some {}) r.source raw)
      fun e => ∃ o, e = .update key.kind key.inNamespace o := by
  unfold ensure
  rw [if_pos (List.isEmpty_iff.mpr hempty)]
  refine asksFor_bind (load_glimpsed hfound) admits_glimpseWorld ?_
  rintro _ rfl
  refine AsksFor.bind (ensureAssets_asksFor ?_ fun x hx => ensureAsset_asksFor_update hx) _
  rw [List.map_map]
  rwa [List.map_congr_left fun m _ => m.keyAt_pending a.target]

/-- If assets are recorded of an archive, they are looked for, and where no object is the last asset
of the same name that the archive holds is created. -/
lemma ensure_asksFor_create {u : Usage} {found : List Asset} {m : Asset}
    (hmanifests : u.manifests = []) (herror : u.manifestError = none)
    (hkey : key ∈ u.status.activeAssets.map (·.keyAt a.target))
    (hfound : assetsIn (fun _ => raw) r u.status.name (a.contextFor r) = .ok found)
    (hm : Asset.offered found key.name = .ok m) :
    (a.ensure r u).AsksFor (glimpseWorld key none r.source raw)
      fun e => ∃ o, e = .create m.kind key.inNamespace o := by
  have hne : u.status.activeAssets ≠ [] := by
    intro hempty
    rw [hempty] at hkey
    cases hkey
  unfold ensure
  rw [if_neg (by simpa using hne)]
  refine AsksFor.bind (ensureAssets_asksFor hkey fun x hx => ?_) _
  exact ensureAsset_asksFor_create hx hmanifests (by simp [hmanifests, herror]) hfound hm

/-- The first round of a pass leaves alone what is needed. -/
lemma giveUp_always {R : (e : Effect) → Effect.Answer e → Prop} (a : Activation) (m : UseMap) :
    (a.giveUp m).Always R fun m' => ∀ r u, m.get? r = some u → u.isNeeded → m'.get? r = some u := by
  have hvisit : (a.giveUp m).Always R fun m' =>
      m.Pointwise (fun _ u u' => u.isNeeded → u' = u) m' := by
    refine Program.always_traverse fun e _ => ?_
    by_cases hneeded : e.2.isNeeded
    · rw [if_pos hneeded]
      exact fun _ => rfl
    · exact Program.always_of_forall fun _ h => (hneeded h).elim
  refine hvisit.imp fun m' hm' r u hu hneeded => ?_
  obtain ⟨u', hu', hsame⟩ := hm'.of_some hu
  rw [hu', hsame hneeded]

end Activation

/-- A version that lists a single pipeline. -/
def VersionSpec.only (p : PipelineSpec) : VersionSpec where
  version := "1"
  pipelines := [p]

/-- The spec that asks for a single pipeline in place of all others. -/
def StackSpec.onlyFor (spec : StackSpec) (p : PipelineSpec) : StackSpec :=
  { spec with versions := [.only p] }

lemma UseMap.asked_onlyFor (spec : StackSpec) (p : PipelineSpec) :
    Asked (spec.onlyFor p).versions (.ofSpec p) :=
  ⟨.only p, List.mem_singleton_self _, rfl, p, List.mem_singleton_self p, rfl⟩

namespace Stack

variable {s : Stack} {a : Activation} {r : Reference} {u : Usage}

/-- A pass asks what it asks for each archive that is needed. -/
lemma reconcile_asksFor {σ : Type} {world : World Effect.Answer σ} {Q : Effect → Prop}
    (ha : s.activation = .ok a) {m : UseMap}
    (hm : UseMap.build s.recorded.versions s.spec.versions = .ok m) (hu : m.get? r = some u)
    (hneeded : u.isNeeded) (h : (a.ensure r u).AsksFor world Q) : s.reconcile.AsksFor world Q := by
  have hround : ∀ m' : UseMap, m'.get? r = some u → (a.seeToAll m').AsksFor world Q := by
    intro m' hu'
    refine asksFor_traverse (SortedMap.mem_entries_iff.mpr hu') ?_
    rw [if_pos hneeded]
    exact h
  have hactive : s.reconcileActiveVersions.AsksFor world Q := by
    rw [reconcileActiveVersions_eq ha hm, Activation.run_eq]
    refine AsksFor.bind (asksFor_bind (a.giveUp_always m) .anything fun m' hm' => ?_) _
    exact hround m' (hm' r u hu hneeded)
  exact asksFor_bind (Program.always_of_forall fun _ => trivial) .anything
    fun _ (_ : True) => hactive.bind _

variable {served : Source → Set Bytes} {p : PipelineSpec} {found found' : List Asset} {m m' : Asset}
  {target : String}

/-- The archive that is asked for has an entry in the map of the pass, with what is recorded. -/
lemma exists_entry_onlyFor (recorded : StackStatus) (spec : StackSpec) (p : PipelineSpec) :
    ∃ uses u, UseMap.build recorded.versions (spec.onlyFor p).versions = .ok uses ∧
      uses.get? (.ofSpec p) = some u ∧ u.isNeeded ∧
      u.status.activeAssets = UseMap.assetsAt recorded.versions (.ofSpec p) ∧
      u.manifests = [] ∧ u.manifestError = none := by
  obtain ⟨uses, huses, -⟩ := UseMap.build_eq_ok recorded.versions (spec.onlyFor p).versions
  have hlisted : p ∈ (VersionSpec.only p).pipelines := List.mem_singleton_self p
  obtain ⟨u, hu⟩ := Option.isSome_iff_exists.mp
    (UseMap.isSome_get?_of_desired huses (List.mem_singleton_self _) rfl hlisted)
  have hneeded := UseMap.isNeeded_of_asked huses hu (UseMap.asked_onlyFor spec p)
  exact ⟨uses, u, huses, hu, hneeded, UseMap.activeAssets_of_build huses hu,
    UseMap.manifests_of_build huses hu⟩

/-- Assets go to the namespace of the stack unless they have one of their own. -/
lemma target_eq (ha : s.activation = .ok a) (htarget : s.metadata.namespaceName = some target) :
    a.target = target := by
  obtain ⟨-, hns, hsame⟩ := activation_eq_ok ha
  rw [hsame]
  exact Option.some.inj (hns.symm.trans htarget)

/-- Every asset that an archive may be found to hold may come to be adopted. -/
lemma issues_update (hfound : s.Offered served (.ofSpec p) found) (hm : m ∈ found)
    (htarget : s.metadata.namespaceName = some target) :
    ∃ o, s.Issues served (.update m.kind (m.placement target) o) := by
  obtain ⟨spec, a, raw, ha, hraw, hassets⟩ := hfound
  obtain rfl := target_eq ha htarget
  obtain ⟨uses, u, huses, hu, hneeded, hrecorded, -⟩ := exists_entry_onlyFor {} spec p
  have hasks := reconcile_asksFor (s := s.amended (spec.onlyFor p) {}) ha huses hu hneeded
    (a.ensure_asksFor_update hrecorded (assetsIn_congr_name hassets _) (List.mem_map_of_mem hm))
  obtain ⟨x, hx, o, ho⟩ := hasks ()
  exact ⟨o, {}, .start, spec.onlyFor p, Unit, _, (), Effect.among_glimpseWorld hraw, x, hx, ho⟩

/-- After a first pass the assets are recorded that the archive was found to hold. -/
lemma exists_reached_of_offered (hfound : s.Offered served (.ofSpec p) found)
    (htarget : s.metadata.namespaceName = some target) :
    ∃ recorded, s.Reached served recorded ∧
      (UseMap.assetsAt recorded.versions (.ofSpec p)).map (·.keyAt target) =
        found.map (·.key target) := by
  obtain ⟨spec, a, raw, ha, hraw, hassets⟩ := hfound
  obtain rfl := target_eq ha htarget
  obtain ⟨uses, -, huses, -⟩ := exists_entry_onlyFor {} spec p
  let world := Effect.glimpseWorld default none (Reference.ofSpec p).source raw
  have hserved : world.Admits (Effect.ServedAt (Reference.ofSpec p).source raw) :=
    fun e t => (Effect.admits_glimpseWorld e t).servedAt
  let left : UseMap := ((a.run uses).run world ()).1
  let status : StackStatus := .build (spec.onlyFor p) {} left
  have hrun : ((s.amended (spec.onlyFor p) {}).reconcileActiveVersions.run world ()).1 =
      .ok status :=
    congrArg Prod.fst (reconcileActiveVersions_run (s := s.amended (spec.onlyFor p) {}) ha world ()
      huses)
  refine ⟨status, .pass .start (Effect.among_glimpseWorld hraw) () (spec.onlyFor p) hrun, ?_⟩
  -- the version lists the pipeline, so there is a record of its archive
  obtain ⟨v, hv, -, hp⟩ : ∃ v ∈ status.versions, v.version = (VersionSpec.only p).version ∧
      StackStatus.activePipeline left p ∈ v.pipelines :=
    StackStatus.record_iff.mpr
      (Or.inl ⟨.only p, List.mem_singleton_self _, rfl, rfl, p, List.mem_singleton_self p, rfl⟩)
  obtain ⟨v', hv', p', hp', hr, hassetsAt⟩ := UseMap.exists_record_of_assetsAt hv hp
  have hofSpec : Reference.ofStatus (StackStatus.activePipeline left p) = .ofSpec p :=
    UseMap.ofStatus_freshStatus p p
  rw [hofSpec] at hr hassetsAt
  rw [hassetsAt, keys_of_served_pass (s := s.amended (spec.onlyFor p) {}) ha hserved hrun
    (fun name => assetsIn_congr_name hassets name) (UseMap.asked_onlyFor spec p) hv' hp' hr]
  exact if_pos rfl

/-- Where an asset has been recorded, the last asset of the same name that its archive may be found
to hold later may come to be created. -/
lemma issues_create (hfound : s.Offered served (.ofSpec p) found) (hm : m ∈ found)
    (hfound' : s.Offered served (.ofSpec p) found') (hm' : Asset.offered found' m.name = .ok m')
    (htarget : s.metadata.namespaceName = some target) :
    ∃ o, s.Issues served (.create m'.kind (m.placement target) o) := by
  obtain ⟨recorded, hreached, hkeys⟩ := exists_reached_of_offered hfound htarget
  obtain ⟨spec, a, raw, ha, hraw, hassets⟩ := hfound'
  obtain rfl := target_eq ha htarget
  obtain ⟨uses, u, huses, hu, hneeded, hrecorded, hmanifests, herror⟩ :=
    exists_entry_onlyFor recorded spec p
  have hkey : m.key a.target ∈ u.status.activeAssets.map (·.keyAt a.target) := by
    rw [hrecorded, hkeys]
    exact List.mem_map_of_mem hm
  have hasks := reconcile_asksFor (s := s.amended (spec.onlyFor p) recorded) ha huses hu hneeded
    (a.ensure_asksFor_create hmanifests herror hkey (assetsIn_congr_name hassets _) hm')
  obtain ⟨x, hx, o, ho⟩ := hasks ()
  exact ⟨o, recorded, hreached, spec.onlyFor p, Unit, _, (), Effect.among_glimpseWorld hraw, x, hx,
    ho⟩

end Stack

end PipelineStacks
