import PipelineStacks.Proofs.Conduct
import PipelineStacks.Proofs.Recorded
import PipelineStacks.Proofs.StoreTrace

/-!
# What passes come to write

A stack goes through passes while what it asks for changes, while archives change, and while other
parties do what they like to the store (`Stack.Reached`).  All that is fixed is which bytes can be
served at which source, and so which assets an archive can be found to hold (`Stack.Offered`).

`issued_cases` is what every write of such passes comes from.  An object is replaced or deleted
under the key of an offered asset.  An object is created in the namespace of an offered asset, but
it is that of the last asset of the same name that is offered then.  `issues_update` and
`issues_create` are the other way round: worlds in which a pass writes what may be written.
-/

namespace PipelineStacks

/-! ## Requests that write -/

namespace Effect

/-- The kind and the namespace in which a request creates, replaces or deletes an object. -/
def writesTo? : Effect → Option (Kind × String)
  | .create kind ns _ => some (kind, ns)
  | .update kind ns _ => some (kind, ns)
  | .delete kind ns _ => some (kind, ns)
  | _ => none

end Effect

/-- The archive of a record may be asked for. -/
lemma Reference.exists_ofSpec (q : PipelineStatus) : ∃ p, Reference.ofSpec p = .ofStatus q := by
  let p : PipelineSpec := {
    id := q.name
    sha256 := q.digest
    https := q.url.map fun url => { url := url }
    gitRelease := q.gitRelease.map fun release => { release := release } }
  refine ⟨p, ?_⟩
  simp [p, Reference.ofSpec, Reference.ofStatus, Function.comp_def]

/-- Only assets of the allowed groups are offered. -/
lemma Asset.isAllowedGroup_of_offered {manifests : List Asset} {name : String} {m : Asset}
    (h : Asset.offered manifests name = .ok m) : Asset.isAllowedGroup m.kind.group := by
  unfold offered at h
  split at h
  · cases h
  · split at h
    · cases h
    · split at h
      · cases h
      · next hallowed =>
        cases h
        simpa using hallowed

namespace Stack

/-! ## Passes over a stack -/

/-- The stack with what it asks for and what is recorded replaced. -/
def amended (s : Stack) (spec : StackSpec) (recorded : StackStatus) : Stack :=
  { s with spec, status := some recorded }

/-- An archive may be found to hold the assets: they are in bytes that are served at its source, as
they are rendered for the stack under some spec. -/
def Offered (s : Stack) (served : Source → Set Bytes) (r : Reference) (found : List Asset) : Prop :=
  ∃ spec a raw, (s.amended spec {}).activation = .ok a ∧ raw ∈ served r.source ∧
    assetsIn (fun _ => raw) r "" (a.contextFor r) = .ok found

/-- The statuses that passes over the stack lead to, the first of which starts from nothing.  Each
runs in any world in which fetches yield only what is served.  A pass whose status could not be
written leaves no trace here. -/
inductive Reached (s : Stack) (served : Source → Set Bytes) : StackStatus → Prop
  | start : Reached s served {}
  | pass {recorded : StackStatus} (h : Reached s served recorded) {σ : Type}
      {world : Program.World Effect.Answer σ} (hworld : world.Admits (Effect.Among served)) (t : σ)
      (spec : StackSpec) {status : StackStatus}
      (hrun : ((s.amended spec recorded).reconcileActiveVersions.run world t).1 = .ok status) :
      Reached s served status

/-- The request is made by some pass that the stack can come to. -/
def Issues (s : Stack) (served : Source → Set Bytes) (e : Effect) : Prop :=
  ∃ recorded, s.Reached served recorded ∧
    ∃ (spec : StackSpec) (σ : Type) (world : Program.World Effect.Answer σ) (t : σ),
      world.Admits (Effect.Among served) ∧ ∃ x ∈ (s.amended spec recorded).reconcile.log world t,
        x.1 = e

variable {s : Stack} {served : Source → Set Bytes} {spec : StackSpec} {recorded : StackStatus}
  {a : Activation}

/-! ## What is recorded -/

/-- The keys of the assets that an archive may be found to hold. -/
def offeredKeys (s : Stack) (served : Source → Set Bytes) (target : String) (r : Reference) :
    Set ObjectKey :=
  {key | ∃ found, s.Offered served r found ∧ ∃ m ∈ found, m.key target = key}

/-- The assets that may be created, each with its namespace: that of an asset with the same name
that the archive may be found to hold, then or earlier. -/
def creatable (s : Stack) (served : Source → Set Bytes) (target : String) :
    Set (Asset × String) :=
  {x | ∃ p found found' m, s.Offered served (.ofSpec p) found ∧
    s.Offered served (.ofSpec p) found' ∧ m ∈ found ∧
      Asset.offered found' m.name = .ok x.1 ∧ m.placement target = x.2}

/-- What is recorded is about assets that the archives may be found to hold. -/
def Accounted (s : Stack) (served : Source → Set Bytes) (target : String)
    (recorded : StackStatus) : Prop :=
  ∀ v ∈ recorded.versions, ∀ p ∈ v.pipelines, ∀ x ∈ p.activeAssets,
    x.keyAt target ∈ s.offeredKeys served target (.ofStatus p)

/-- The bound of a pass: the archives may be found to hold what is offered. -/
def scope (s : Stack) (served : Source → Set Bytes)
    (ha : (s.amended spec recorded).activation = .ok a) : a.Scope (Effect.Among served) where
  archives := Set.range Reference.ofSpec
  loaded := s.Offered served
  keys := s.offeredKeys served a.target
  made := s.creatable served a.target
  loads r _ name skip := getManifests_always_among.imp fun result hresult found hfound => by
    obtain ⟨raw, hraw, hassets⟩ := hresult found hfound
    exact ⟨spec, a, raw, ha, hraw, assetsIn_congr_name hassets ""⟩
  listed r _ found hfound m hm := ⟨found, hfound, m, hm, rfl⟩
  makes r hr found' hfound' key hkey m' hm' := by
    obtain ⟨p, rfl⟩ := hr
    obtain ⟨found, hfound, m, hm, rfl⟩ := hkey
    exact ⟨p, found, found', m, hfound, hfound', hm, hm', rfl⟩

/-- Every entry of the map of a pass is within the bound. -/
lemma covers_of_build (ha : (s.amended spec recorded).activation = .ok a)
    (hrecorded : s.Accounted served a.target recorded) {m : UseMap}
    (hm : UseMap.build recorded.versions spec.versions = .ok m) {r : Reference} {u : Usage}
    (hu : m.get? r = some u) : (s.scope served ha).Covers r u := by
  have hassets := UseMap.activeAssets_of_build hm hu
  refine ⟨?_, Or.inl (UseMap.manifests_of_build hm hu).1, fun x hx => ?_⟩
  · rw [← UseMap.ofStatus_of_build hm hu]
    exact Reference.exists_ofSpec u.status
  · rw [hassets] at hx
    obtain ⟨v, hv, p, hp, rfl, hrecord⟩ := UseMap.exists_record_of_mem_assetsAt hx
    exact hrecorded v hv p hp x hrecord

/-- What the programs of a pass ask, and what they leave, is within the bound. -/
lemma run_conforms (ha : (s.amended spec recorded).activation = .ok a)
    (hrecorded : s.Accounted served a.target recorded) {m : UseMap}
    (hm : UseMap.build recorded.versions spec.versions = .ok m)
    (last : Option (Program.Exchange Effect.Answer)) :
    (a.run m).Conforms (Effect.Among served)
      (fun last' e => a.owner.GivesUp (s.scope served ha).allKeys last' e ∨
        (s.scope served ha).Permits last' e)
      (fun m' => ∀ r u, m'.get? r = some u → (s.scope served ha).Covers r u) last := by
  refine Activation.run_conforms (fun r u hu x hx _ => ?_)
    fun r u hu => covers_of_build ha hrecorded hm hu
  have hcovers := covers_of_build ha hrecorded hm (UseMap.mem_toDelete.mp hu).1
  exact ⟨r, hcovers.archive, hcovers.keys x hx⟩

/-- One pass keeps the books about offered assets only. -/
theorem Accounted.step (ha : (s.amended spec recorded).activation = .ok a)
    (hrecorded : s.Accounted served a.target recorded) {σ : Type}
    {world : Program.World Effect.Answer σ} (hworld : world.Admits (Effect.Among served)) {t : σ}
    {status : StackStatus}
    (hrun : ((s.amended spec recorded).reconcileActiveVersions.run world t).1 = .ok status) :
    s.Accounted served a.target status := by
  obtain ⟨m, hm, -⟩ := UseMap.build_eq_ok recorded.versions spec.versions
  rw [reconcileActiveVersions_run ha world t hm] at hrun
  obtain rfl := Except.ok.inj hrun
  have hcovers := (run_conforms ha hrecorded hm none).always.run hworld t
  intro v hv p hp x hx
  rw [StackStatus.activeAssets_eq_of_record (fun r u hu => ofStatus_of_run hm a world t hu) hv hp]
    at hx
  cases hu : ((a.run m).run world t).1.get? (.ofStatus p) with
  | none =>
    rw [hu] at hx
    cases hx
  | some u =>
    rw [hu] at hx
    exact (hcovers _ u hu).keys x hx

/-- Whatever passes a stack goes through, what is recorded is about assets that the archives may be
found to hold. -/
theorem accounted_of_reached (hreached : s.Reached served recorded) {target : String}
    (htarget : s.metadata.namespaceName = some target) : s.Accounted served target recorded := by
  induction hreached with
  | start => exact fun v hv => (List.not_mem_nil hv).elim
  | @pass recorded hreached σ world hworld t spec status hrun ih =>
    cases ha : (s.amended spec recorded).activation with
    | error e =>
      unfold reconcileActiveVersions at hrun
      rw [ha] at hrun
      cases hrun
    | ok a =>
      obtain ⟨-, hns, hsame⟩ := activation_eq_ok ha
      obtain rfl : target = a.target := by
        rw [hsame]
        exact Option.some.inj (htarget.symm.trans hns)
      exact ih.step ha hworld hrun

/-! ## What is written -/

/-- Where a write under the key of an offered asset, or the creation of an asset, comes from. -/
def Origin (s : Stack) (served : Source → Set Bytes) (target : String) (e : Effect) (kind : Kind)
    (ns : String) : Prop :=
  ∃ p found m, s.Offered served (.ofSpec p) found ∧ m ∈ found ∧ m.placement target = ns ∧
    if e.isCreate then
      ∃ found' m', s.Offered served (.ofSpec p) found' ∧ Asset.offered found' m.name = .ok m' ∧
        m'.kind = kind
    else m.kind = kind

/-- What is asked within the bound and writes has its origin there. -/
lemma origin_of_permitted (ha : (s.amended spec recorded).activation = .ok a)
    {last : Option (Program.Exchange Effect.Answer)} {e : Effect} {kind : Kind} {ns : String}
    (h : a.owner.GivesUp (s.scope served ha).allKeys last e ∨ (s.scope served ha).Permits last e)
    (hwrites : e.writesTo? = some (kind, ns)) : s.Origin served a.target e kind ns := by
  have hkey : ∀ key ∈ (s.scope served ha).allKeys, e.isCreate = false → key.kind = kind →
      key.inNamespace = ns → s.Origin served a.target e kind ns := by
    rintro key ⟨r, ⟨p, rfl⟩, found, hfound, m, hm, rfl⟩ hcreate hkind hns
    exact ⟨p, found, m, hfound, hm, hns, by rw [hcreate]; exact hkind⟩
  cases e with
  | create kind' ns' o =>
    cases hwrites
    obtain hgives | ⟨m', hmade, rfl, -⟩ := h
    · exact hgives.elim
    · obtain ⟨p, found, found', m, hfound, hfound', hm, hm', hns⟩ := hmade
      exact ⟨p, found, m, hfound, hm, hns, found', m', hfound', hm', rfl⟩
  | update kind' ns' o =>
    cases hwrites
    obtain ⟨key, hmem, object, -, rfl, rfl, -⟩ | ⟨key, hmem, object, -, rfl, rfl, -⟩ := h
    · exact hkey key hmem rfl rfl rfl
    · exact hkey key hmem rfl rfl rfl
  | delete kind' ns' name =>
    cases hwrites
    obtain ⟨hmem, -⟩ | hdelete := h
    · exact hkey _ hmem rfl rfl rfl
    · exact hdelete.elim
  | _ => cases hwrites

/-- A stack that can own nothing writes nothing. -/
lemma writesTo?_of_error {e : ReconcileError} (he : (s.amended spec recorded).activation = .error e)
    {σ : Type} {world : Program.World Effect.Answer σ} {t : σ}
    {x : Program.Exchange Effect.Answer}
    (hx : x ∈ (s.amended spec recorded).reconcile.log world t) : x.1.writesTo? = none := by
  obtain ⟨before, rest, hlog⟩ := List.append_of_mem hx
  have hnothing : (s.amended spec recorded).reconcile.Guarded
      (fun _ e => e.writesTo? = none) none := by
    unfold reconcile reconcileActiveVersions
    rw [he]
    exact Program.guarded_bind (Program.guarded_question rfl) fun _ _ => Program.guarded_done _
  exact hnothing.of_log hlog

/-- What a whole pass asks writes nothing or is within the bound. -/
lemma permitted_of_mem_log (ha : (s.amended spec recorded).activation = .ok a)
    (hrecorded : s.Accounted served a.target recorded) {σ : Type}
    {world : Program.World Effect.Answer σ} (hworld : world.Admits (Effect.Among served)) {t : σ}
    {x : Program.Exchange Effect.Answer}
    (hx : x ∈ (s.amended spec recorded).reconcile.log world t) :
    ∃ last, x.1.writesTo? = none ∨ a.owner.GivesUp (s.scope served ha).allKeys last x.1 ∨
      (s.scope served ha).Permits last x.1 := by
  obtain ⟨before, rest, hlog⟩ := List.append_of_mem hx
  obtain ⟨m, hm, -⟩ := UseMap.build_eq_ok recorded.versions spec.versions
  let G (last : Option (Program.Exchange Effect.Answer)) (e : Effect) : Prop :=
    e.writesTo? = none ∨ a.owner.GivesUp (s.scope served ha).allKeys last e ∨
      (s.scope served ha).Permits last e
  have hactive : ∀ last, (s.amended spec recorded).reconcileActiveVersions.Conforms
      (Effect.Among served) G (fun _ => True) last := by
    intro last
    have hrun : (a.run m).Conforms (Effect.Among served) G _ last :=
      (run_conforms ha hrecorded hm last).imp (fun _ _ => Or.inr) fun _ h => h
    rw [reconcileActiveVersions_eq ha hm]
    exact Program.conforms_bind hrun fun _ _ _ => Program.conforms_done trivial
  have hpass : (s.amended spec recorded).reconcile.Conforms (Effect.Among served) G
      (fun _ => True) none :=
    reconcile_conforms (fun _ _ => Or.inl rfl) (fun _ _ _ _ => Or.inl rfl) hactive
  exact ⟨_, hpass.of_log hworld hlog⟩

/-- Every write of the passes that a stack can come to is under the key of an asset that an archive
may be found to hold, or creates an asset of the same name in its namespace. -/
theorem issued_cases {e : Effect} (h : s.Issues served e) {kind : Kind} {ns : String}
    (hwrites : e.writesTo? = some (kind, ns)) :
    ∃ target, s.metadata.namespaceName = some target ∧ s.Origin served target e kind ns := by
  obtain ⟨recorded, hreached, spec, σ, world, t, hworld, x, hx, rfl⟩ := h
  cases ha : (s.amended spec recorded).activation with
  | error e =>
    rw [writesTo?_of_error ha hx] at hwrites
    cases hwrites
  | ok a =>
    obtain ⟨-, hns, hsame⟩ := activation_eq_ok ha
    have htarget : s.metadata.namespaceName = some a.target := hsame ▸ hns
    have hrecorded : s.Accounted served a.target recorded := accounted_of_reached hreached htarget
    refine ⟨a.target, htarget, ?_⟩
    obtain ⟨last, hnone | hpermitted⟩ := permitted_of_mem_log ha hrecorded hworld hx
    · rw [hnone] at hwrites
      cases hwrites
    · exact origin_of_permitted ha hpermitted hwrites

end Stack

end PipelineStacks
