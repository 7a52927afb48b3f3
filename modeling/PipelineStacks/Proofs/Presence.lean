import PipelineStacks.Proofs.Recorded

/-!
# Does every active asset exist?

A first pass looks for each asset under its own key.  If nothing is there, it creates the object of
the last asset of the same name, which may be of another kind, and reports the asset as active.  So
the pass is a run of attempts on the set of keys that are taken (`Attempt`, `takenAfter`), and what
it reports is `Reported`.

`active_exist_iff` is what holds in a store without failures: every asset that is reported as active
exists under its own key exactly if each asset that was `Misplaced` comes to exist in another way.
In particular they all exist if assets of one name in one archive are of one kind
(`active_exist_of_one_kind`); `task_without_object` is an archive in which they are not.
-/

namespace PipelineStacks

/-! ## Attempts -/

/-- An attempt to bring an asset into the store. -/
structure Attempt where
  /-- The key under which the asset is looked for. -/
  key : ObjectKey
  /-- The key under which an object is created if nothing is there, unless it may not be. -/
  created? : Option ObjectKey
deriving DecidableEq

namespace Attempt

/-- The keys that are taken after an attempt. -/
def after (taken : Set ObjectKey) (b : Attempt) : Set ObjectKey :=
  {k | k ∈ taken ∨ b.key ∉ taken ∧ b.created? = some k}

/-- The attempt is reported as a success: an object is there or is created. -/
def Applied (taken : Set ObjectKey) (b : Attempt) : Prop :=
  b.key ∈ taken ∨ ∃ k, b.created? = some k ∧ k ∉ taken

/-- Nothing is there, and an object is created under another key. -/
def Misplaced (taken : Set ObjectKey) (b : Attempt) : Prop :=
  b.key ∉ taken ∧ ∃ k, b.created? = some k ∧ k ∉ taken ∧ k ≠ b.key

variable {taken : Set ObjectKey} {b : Attempt}

lemma subset_after : taken ⊆ b.after taken :=
  fun _ hk => Or.inl hk

lemma after_of_mem (h : b.key ∈ taken) : b.after taken = taken :=
  Set.Subset.antisymm (fun _ hk => hk.resolve_right fun hnot => hnot.1 h) subset_after

lemma after_of_some {k : ObjectKey} (hnot : b.key ∉ taken) (h : b.created? = some k) :
    b.after taken = insert k taken := by
  ext k'
  simp [after, hnot, h, or_comm, eq_comm]

/-- What is reported as a success is there after the attempt or was misplaced. -/
lemma Applied.mem_or_misplaced (h : b.Applied taken) :
    b.key ∈ b.after taken ∨ b.Misplaced taken := by
  by_cases hmem : b.key ∈ taken
  · exact Or.inl (subset_after hmem)
  · rcases h with hmem' | ⟨k, hcreated, hfree⟩
    · exact (hmem hmem').elim
    · by_cases hk : k = b.key
      · exact Or.inl (Or.inr ⟨hmem, hk ▸ hcreated⟩)
      · exact Or.inr ⟨hmem, k, hcreated, hfree, hk⟩

/-- What was misplaced is reported as a success. -/
lemma Misplaced.applied (h : b.Misplaced taken) : b.Applied taken := by
  obtain ⟨-, k, hcreated, hfree, -⟩ := h
  exact Or.inr ⟨k, hcreated, hfree⟩

end Attempt

/-- The keys that are taken after some attempts. -/
def takenAfter (taken : Set ObjectKey) (bs : List Attempt) : Set ObjectKey :=
  bs.foldl Attempt.after taken

lemma takenAfter_append (taken : Set ObjectKey) (bs cs : List Attempt) :
    takenAfter taken (bs ++ cs) = takenAfter (takenAfter taken bs) cs :=
  List.foldl_append

lemma subset_takenAfter (taken : Set ObjectKey) (bs : List Attempt) :
    taken ⊆ takenAfter taken bs := by
  induction bs generalizing taken with
  | nil => exact subset_rfl
  | cons b bs ih => exact Attempt.subset_after.trans (ih (b.after taken))

/-- The records say of each attempt whether it was a success. -/
def Reported : Set ObjectKey → List Attempt → List AssetStatus → Prop
  | _, [], [] => True
  | taken, b :: bs, s :: ss =>
    s.key = b.key ∧ (s.state = .active ↔ b.Applied taken) ∧ Reported (b.after taken) bs ss
  | _, _, _ => False

lemma Reported.append {taken : Set ObjectKey} {bs cs : List Attempt} {ss us : List AssetStatus}
    (h : Reported taken bs ss) (h' : Reported (takenAfter taken bs) cs us) :
    Reported taken (bs ++ cs) (ss ++ us) := by
  induction bs generalizing taken ss with
  | nil =>
    cases ss with
    | nil => exact h'
    | cons s ss => exact h.elim
  | cons b bs ih =>
    cases ss with
    | nil => exact h.elim
    | cons s ss => exact ⟨h.1, h.2.1, ih h.2.2 h'⟩

/-- Whatever is reported as active is among some keys exactly if what was misplaced is. -/
lemma Reported.forall_active_iff {taken final : Set ObjectKey} {bs : List Attempt}
    {ss : List AssetStatus} (h : Reported taken bs ss) (hfinal : takenAfter taken bs ⊆ final) :
    (∀ s ∈ ss, s.state = .active → s.key ∈ final) ↔
      ∀ before b rest, bs = before ++ b :: rest → b.Misplaced (takenAfter taken before) →
        b.key ∈ final := by
  induction bs generalizing taken ss with
  | nil =>
    cases ss with
    | nil => simp
    | cons s ss => exact h.elim
  | cons b bs ih =>
    cases ss with
    | nil => exact h.elim
    | cons s ss =>
      obtain ⟨hkey, hstate, hrest⟩ := h
      have ih := ih hrest hfinal
      have hhead : (s.state = .active → s.key ∈ final) ↔ (b.Misplaced taken → b.key ∈ final) := by
        rw [hkey, hstate]
        refine ⟨fun hs hb => hs hb.applied, fun hb hs => ?_⟩
        rcases hs.mem_or_misplaced with hmem | hmisplaced
        · exact hfinal (subset_takenAfter _ bs hmem)
        · exact hb hmisplaced
      rw [List.forall_mem_cons, ih, hhead]
      constructor
      · rintro ⟨hb, hbs⟩ before b' rest heq hmisplaced
        cases before with
        | nil =>
          cases heq
          exact hb hmisplaced
        | cons b₀ before =>
          cases heq
          exact hbs before b' rest rfl hmisplaced
      · intro hall
        exact ⟨hall [] b bs rfl, fun before b' rest heq hmisplaced =>
          hall (b :: before) b' rest (by rw [heq]; rfl) hmisplaced⟩

/-! ## The attempts of a pass -/

namespace Asset

/-- The attempt on an asset of an archive: if nothing is there, the object of the last asset with
its name is created, but under the kind of that one. -/
def attempt (target : String) (manifests : List Asset) (m : Asset) : Attempt where
  key := m.key target
  created? := do
    let last ← manifests.reverse.find? fun m' => m'.name = m.name
    if Asset.isAllowedGroup last.kind.group then
      some { m.key target with kind := last.kind }
    else none

/-- If assets of one name are of one kind, an attempt creates nothing but the asset itself. -/
lemma eq_key_of_attempt {target : String} {manifests : List Asset} {m : Asset}
    (hkinds : ∀ x ∈ manifests, ∀ y ∈ manifests, x.name = y.name → x.kind = y.kind)
    (hm : m ∈ manifests) {k : ObjectKey} (hk : (attempt target manifests m).created? = some k) :
    k = (attempt target manifests m).key := by
  obtain ⟨last, hlast, hk⟩ := Option.bind_eq_some_iff.mp hk
  have hmem := List.mem_reverse.mp (List.mem_of_find?_eq_some hlast)
  have hname : last.name = m.name := by simpa using List.find?_some hlast
  split at hk
  · cases hk
    rw [hkinds last hmem m hm hname]
    rfl
  · cases hk

/-- The attempts on all assets of an archive. -/
def attempts (target : String) (manifests : List Asset) : List Attempt :=
  manifests.map (attempt target manifests)

end Asset

/-- The attempts on all assets that were loaded for a use map. -/
def UseMap.attempts (target : String) (m : UseMap) : List Attempt :=
  m.entries.flatMap fun e => Asset.attempts target e.2.manifests

/-! ## One asset -/

section Run

variable {τ : Type} {c : Surroundings τ}

/-- The object that an asset is created as has the name of its object. -/
lemma Asset.nameText_prepared (m : Asset) (ns : String) (owner : Owner) :
    (m.prepared ns owner).nameText = m.object.nameText := by
  simp only [prepared, Owner.mark, Object.addReference, Object.addAnnotatedOwner,
    Object.setAnnotatedOwners]
  split
  · split <;> rfl
  · split
    · rfl
    · simp only
      split <;> rfl

/-- To adopt an object takes no key that was free. -/
lemma run_adoptAsset (kind : Kind) (ns : String) (object : Object) (owner : Owner)
    (objects : Objects) (t : τ) :
    ∃ result objects' t', (adoptAsset kind ns object owner).run c.world (objects, t) =
      (result, (objects', t')) ∧ objects'.taken = objects.taken := by
  refine ⟨_, _, _, rfl, ?_⟩
  unfold adoptAsset
  split
  · rfl
  · next marked _ =>
    have htaken := Surroundings.taken_run_update (c := c) kind ns marked objects t
    rw [Program.run_bind]
    cases ((Pass.update kind ns marked).run c.world (objects, t)).1 <;> exact htaken

/-- What comes of an attempt on an asset in a world. -/
structure Outcome (objects : Objects) (b : Attempt) (s : AssetStatus) (objects' : Objects) :
    Prop where
  key : s.key = b.key
  active_iff : s.state = .active ↔ b.Applied objects.taken
  taken : objects'.taken = b.after objects.taken

/-- To record a failure leaves the store alone, and it is right if nothing was there and there was
no free key to create an object under. -/
lemma run_fail {objects : Objects} {b : Attempt} (hfree : b.key ∉ objects.taken)
    (hcreated : ∀ k, b.created? = some k → k ∈ objects.taken) {s : AssetStatus}
    (hkey : s.key = b.key) (message : String) (t : τ) :
    ∃ t', (Activation.fail s message).run c.world (objects, t) =
      (s.set .failed message, (objects, t')) ∧
      Outcome objects b (s.set .failed message) objects := by
  obtain ⟨t', hcount⟩ := Surroundings.run_count (c := c) .assetsFailed objects t
  refine ⟨t', ?_, hkey, ⟨fun h => AssetState.noConfusion h, ?_⟩, ?_⟩
  · rw [Activation.fail, Program.run_bind, hcount]
    rfl
  · rintro (hmem | ⟨k, hk, hk'⟩)
    · exact (hfree hmem).elim
    · exact (hk' (hcreated k hk)).elim
  · exact Set.Subset.antisymm Attempt.subset_after fun k hk => hk.elim id fun h => hcreated k h.2

variable (hc : c.StoreFaultless) (a : Activation)
include hc

/-- An object is created under the name it bears, or its key was taken. -/
lemma run_createAsset (m : Asset) (ns : String) (owner : Owner) (objects : Objects) (t : τ) :
    let key : ObjectKey := ⟨m.kind, ns, m.object.nameText⟩
    ∃ result objects' t', (createAsset m ns owner).run c.world (objects, t) =
      (result, (objects', t')) ∧
      (result = .ok () ∧ key ∉ objects.taken ∧ objects'.taken = insert key objects.taken ∨
        (∃ f, result = .error f) ∧ key ∈ objects.taken ∧ objects = objects') := by
  intro key
  have hkey : (⟨m.kind, ns, (m.prepared ns owner).nameText⟩ : ObjectKey) = key := by
    rw [Asset.nameText_prepared]
  unfold createAsset
  cases hthere : objects key with
  | none =>
    obtain ⟨t', hcreate⟩ := Surroundings.run_create_free hc (by rw [hkey]; exact hthere) t
    refine ⟨_, _, t', hcreate, Or.inl ⟨rfl, ?_, ?_⟩⟩
    · simp [Objects.mem_taken, hthere]
    · rw [hkey, Objects.taken_set_some]
  | some o =>
    have hsome : objects key ≠ none := by simp [hthere]
    obtain ⟨f, t', hcreate⟩ := Surroundings.run_create_taken (o := m.prepared ns owner) hc
      (by rwa [hkey]) t
    exact ⟨_, _, t', hcreate, Or.inr ⟨⟨f, rfl⟩, by simp [Objects.mem_taken, hthere], rfl⟩⟩

/-- Where nothing is, an object is created as the attempt says. -/
lemma run_install {u : Usage} (hnamed : Named u.manifests) {m : Asset} (hm : m ∈ u.manifests)
    {s : AssetStatus} (hkey : s.key = m.key a.target) {objects : Objects}
    (hfree : m.key a.target ∉ objects.taken) (t : τ) :
    ∃ s' objects' t', (a.install u s).run c.world (objects, t) = (s', (objects', t')) ∧
      Outcome objects (m.attempt a.target u.manifests) s' objects' := by
  have hname : s.name = m.name := congrArg ObjectKey.name hkey
  have hplace : s.namespaceName = m.placement a.target := congrArg ObjectKey.inNamespace hkey
  unfold Activation.install
  rw [List.isEmpty_eq_false_iff.mpr (List.ne_nil_of_mem hm), if_neg Bool.false_ne_true, hname]
  cases hlast : u.manifests.reverse.find? fun m' => m'.name = m.name with
  | none =>
    have hnone : ∀ k, (m.attempt a.target u.manifests).created? = some k → k ∈ objects.taken :=
      fun k hk => by simp [Asset.attempt, hlast] at hk
    obtain ⟨t', h⟩ := run_fail hfree hnone hkey _ t
    exact ⟨_, _, t', h⟩
  | some last =>
    by_cases hallowed : Asset.isAllowedGroup last.kind.group
    · have hcreated : (m.attempt a.target u.manifests).created? =
          some ⟨last.kind, s.namespaceName, last.object.nameText⟩ := by
        have hmem := List.mem_reverse.mp (List.mem_of_find?_eq_some hlast)
        have hlastName : last.name = m.name := by simpa using List.find?_some hlast
        simp [Asset.attempt, hlast, hallowed, Asset.key, hplace, ← hnamed last hmem, hlastName]
      simp only [hallowed, Bool.not_true, Bool.false_eq_true, if_false]
      rw [Program.run_bind]
      obtain ⟨result, objects', t₁, hrun, ⟨rfl, hfree', htaken⟩ | ⟨⟨f, rfl⟩, hmem, rfl⟩⟩ :=
        run_createAsset hc last s.namespaceName a.owner objects t
      · obtain ⟨t₂, hcount⟩ := Surroundings.run_count (c := c) .assetsApplied objects' t₁
        rw [hrun]
        simp only
        rw [Program.run_bind, hcount]
        refine ⟨_, _, t₂, rfl, hkey, ⟨fun _ => Or.inr ⟨_, hcreated, hfree'⟩, fun _ => rfl⟩, ?_⟩
        rw [htaken, Attempt.after_of_some hfree hcreated]
      · rw [hrun]
        have htaken : ∀ k, (m.attempt a.target u.manifests).created? = some k → k ∈ objects.taken :=
          fun k hk => Option.some.inj (hcreated.symm.trans hk) ▸ hmem
        obtain ⟨t₂, h⟩ := run_fail hfree htaken hkey f.message t₁
        exact ⟨_, _, t₂, h⟩
    · simp only [hallowed, Bool.not_false, if_true]
      have hnone : ∀ k, (m.attempt a.target u.manifests).created? = some k → k ∈ objects.taken :=
        fun k hk => by simp [Asset.attempt, hlast, hallowed] at hk
      obtain ⟨t', h⟩ := run_fail hfree hnone hkey _ t
      exact ⟨_, _, t', h⟩

/-- A pending asset is seen to as the attempt says. -/
lemma run_ensureAsset (r : Reference) {p : Activation.Progress} (hnamed : Named p.usage.manifests)
    {m : Asset} (hm : m ∈ p.usage.manifests) (objects : Objects) (t : τ) :
    ∃ s' objects' t', (a.ensureAsset r p (m.pending a.target)).run c.world (objects, t) =
      ((s', p), (objects', t')) ∧
      Outcome objects (m.attempt a.target p.usage.manifests) s' objects' := by
  obtain ⟨t₁, hget⟩ := Surroundings.run_get hc m.kind (m.placement a.target) m.name objects t
  unfold Activation.ensureAsset
  rw [Asset.place_pending]
  change ∃ s' objects' t', Program.run c.world
    (Pass.get m.kind (m.placement a.target) m.name >>= _) (objects, t) = _ ∧ _
  rw [Program.run_bind, hget]
  cases hthere : objects ⟨m.kind, m.placement a.target, m.name⟩ with
  | some object =>
    obtain ⟨result, objects', t₂, hadopt, htaken⟩ := run_adoptAsset (c := c) m.kind
      (m.placement a.target) object a.owner objects t₁
    have hmem : (m.attempt a.target p.usage.manifests).key ∈ objects.taken := by
      simp [Objects.mem_taken, Asset.attempt, Asset.key, hthere]
    change ∃ s' objects' t', Program.run c.world
      (adoptAsset m.kind (m.placement a.target) object a.owner >>= _) (objects, t₁) = _ ∧ _
    rw [Program.run_bind, hadopt]
    refine ⟨_, objects', t₂, rfl, rfl, ⟨fun _ => Or.inl hmem, fun _ => rfl⟩, ?_⟩
    rw [htaken, Attempt.after_of_mem hmem]
  | none =>
    have hfree : m.key a.target ∉ objects.taken := by
      simp [Objects.mem_taken, Asset.key, hthere]
    obtain ⟨s', objects', t₂, hinstall, houtcome⟩ :=
      run_install hc a hnamed hm (s := m.pending a.target) rfl hfree t₁
    have hne : p.usage.manifests.isEmpty = false := by simpa using List.ne_nil_of_mem hm
    simp only [hne, Bool.false_and, Bool.false_eq_true, if_false, Program.pure_eq,
      Program.done_bind]
    change ∃ s' objects' t', Program.run c.world
      (a.install p.usage (m.pending a.target) >>= fun s => .done (s, p)) (objects, t₁) = _ ∧ _
    rw [Program.run_bind, hinstall]
    exact ⟨s', objects', t₂, rfl, houtcome⟩

/-! ## All assets -/

/-- Pending assets are seen to in order as the attempts say. -/
lemma run_ensureAssets (r : Reference) {p : Activation.Progress} (hnamed : Named p.usage.manifests)
    {l : List Asset} (hl : l ⊆ p.usage.manifests) (objects : Objects) (t : τ) :
    ∃ ss objects' t',
      (a.ensureAssets r p (l.map fun m => m.pending a.target)).run c.world (objects, t) =
        ((ss, p), (objects', t')) ∧
      Reported objects.taken (l.map (Asset.attempt a.target p.usage.manifests)) ss ∧
      objects'.taken =
        takenAfter objects.taken (l.map (Asset.attempt a.target p.usage.manifests)) := by
  induction l generalizing objects t with
  | nil => exact ⟨[], objects, t, rfl, trivial, rfl⟩
  | cons m l ih =>
    obtain ⟨hm, hl⟩ := List.cons_subset.mp hl
    obtain ⟨s', objects₁, t₁, hhead, hkey, hactive, htaken⟩ :=
      run_ensureAsset hc a r hnamed hm objects t
    obtain ⟨ss, objects₂, t₂, htail, hreported, htaken'⟩ := ih hl objects₁ t₁
    rw [htaken] at hreported htaken'
    refine ⟨s' :: ss, objects₂, t₂, ?_, ⟨hkey, hactive, hreported⟩, htaken'⟩
    rw [List.map_cons, Activation.ensureAssets, Program.run_bind, hhead]
    simp only
    rw [Program.run_bind, htail]
    rfl

omit hc in
/-- To look for the assets of a source leaves the store alone. -/
lemma run_fetchAssets (r : Reference) (name : String) (context : RenderContext) (skip : Bool)
    (objects : Objects) (t : τ) :
    ∃ result t', (fetchAssets r name context skip).run c.world (objects, t) =
      (result, (objects, t')) := by
  unfold fetchAssets fetchArchive
  split
  · exact ⟨_, t, rfl⟩
  · split
    · exact ⟨_, t, rfl⟩
    · obtain ⟨answer, t', hfetch⟩ := Surroundings.run_fetch (c := c) r.source skip objects t
      rw [Program.run_bind, Program.run_bind, hfetch]
      cases answer <;> exact ⟨_, t', rfl⟩

omit hc in
/-- To load an archive leaves the store alone, and what is loaded bears the names of its objects. -/
lemma run_getManifests (r : Reference) (name : String) (context : RenderContext) (skip : Bool)
    (objects : Objects) (t : τ) :
    ∃ result t', (getManifests r name context skip).run c.world (objects, t) =
      (result, (objects, t')) ∧ ∀ found, result = .ok found → Named found := by
  have hnamed : ∀ found, ((getManifests r name context skip).run c.world (objects, t)).1 =
      .ok found → Named found := getManifests_always_named.run .anything (objects, t)
  refine ⟨_, _, Prod.ext rfl (Prod.ext ?_ rfl), hnamed⟩
  obtain ⟨t₁, hcount⟩ := Surroundings.run_count (c := c) .archiveFetches objects t
  obtain ⟨result, t₂, hfetch⟩ := run_fetchAssets (c := c) r name context skip objects t₁
  obtain ⟨t₃, hcount'⟩ := Surroundings.run_count (c := c) .archiveFetchDuration objects t₂
  unfold getManifests
  rw [Program.run_bind, hcount]
  simp only
  rw [Program.run_bind, hfetch]
  simp only
  rw [Program.run_bind, hcount']
  cases result with
  | ok found => rfl
  | error e =>
    obtain ⟨t₄, hcount''⟩ := Surroundings.run_count (c := c) .archiveFetchErrors objects t₃
    simp only
    rw [Program.run_bind, hcount'']
    rfl

/-- An archive of which nothing is recorded is seen to as the attempts on its assets say. -/
lemma run_ensure_fresh (r : Reference) {u : Usage} (hassets : u.status.activeAssets = [])
    (hmanifests : u.manifests = []) (objects : Objects) (t : τ) :
    ∃ u' objects' t', (a.ensure r u).run c.world (objects, t) = (u', (objects', t')) ∧
      Reported objects.taken (Asset.attempts a.target u'.manifests) u'.status.activeAssets ∧
      objects'.taken = takenAfter objects.taken (Asset.attempts a.target u'.manifests) := by
  obtain ⟨result, t₁, hload, hnamed⟩ := run_getManifests (c := c) r u.status.name (a.contextFor r)
    u.skipCertVerification objects t
  unfold Activation.ensure Activation.load
  rw [if_pos (by simp [hassets]), Program.run_bind, Program.run_bind, hload]
  cases result with
  | error e =>
    refine ⟨_, objects, t₁, rfl, ?_, ?_⟩
    · simp [Asset.attempts, hmanifests, hassets, Reported]
    · simp [Asset.attempts, hmanifests, takenAfter]
  | ok found =>
    let loaded : Usage := { u with manifests := found, manifestError := none }
    let pending := found.map fun m => m.pending a.target
    let p : Activation.Progress :=
      ⟨{ loaded with status := { u.status with activeAssets := pending } },
        !found.isEmpty || loaded.manifestError.isSome⟩
    obtain ⟨ss, objects', t₂, hrun, hreported, htaken⟩ :=
      run_ensureAssets hc a r (p := p) (hnamed found rfl) (List.Subset.refl found) objects t₁
    refine ⟨{ loaded with status := { u.status with activeAssets := ss } }, objects', t₂, ?_,
      hreported, htaken⟩
    change Program.run c.world (a.ensureAssets r p pending >>= _) (objects, t₁) = _
    rw [Program.run_bind, hrun]
    rfl

/-- Archives of which nothing is recorded are seen to in order as the attempts say. -/
lemma run_ensure_entries {es : List (Reference × Usage)}
    (hes : ∀ e ∈ es, e.2.isNeeded ∧ e.2.status.activeAssets = [] ∧ e.2.manifests = [])
    (objects : Objects) (t : τ) :
    ∃ es' objects' t',
      SortedMap.runEntries c.world (fun r u => if u.isNeeded then a.ensure r u else return u) es
        (objects, t) = (es', (objects', t')) ∧
      Reported objects.taken (es'.flatMap fun e => Asset.attempts a.target e.2.manifests)
        (es'.flatMap fun e => e.2.status.activeAssets) ∧
      objects'.taken = takenAfter objects.taken
        (es'.flatMap fun e => Asset.attempts a.target e.2.manifests) := by
  induction es generalizing objects t with
  | nil => exact ⟨[], objects, t, rfl, trivial, rfl⟩
  | cons e es ih =>
    obtain ⟨r, u⟩ := e
    obtain ⟨⟨hneeded, hassets, hmanifests⟩, hes⟩ := List.forall_mem_cons.mp hes
    obtain ⟨u', objects₁, t₁, hhead, hreported, htaken⟩ :=
      run_ensure_fresh hc a r hassets hmanifests objects t
    obtain ⟨es', objects₂, t₂, htail, hreported', htaken'⟩ := ih hes objects₁ t₁
    rw [htaken] at hreported' htaken'
    refine ⟨(r, u') :: es', objects₂, t₂, ?_, ?_, ?_⟩
    · simp only [SortedMap.runEntries, hneeded, if_true, hhead, htail]
    · exact hreported.append hreported'
    · rw [htaken', List.flatMap_cons, takenAfter_append]

/-- A pass over archives of which nothing is recorded is a run of the attempts on their assets. -/
theorem run_of_fresh {m : UseMap}
    (hm : ∀ r u, m.get? r = some u →
      u.isNeeded ∧ u.status.activeAssets = [] ∧ u.manifests = []) (objects : Objects) (t : τ) :
    ∃ m' objects' t', (a.run m).run c.world (objects, t) = (m', (objects', t')) ∧
      Reported objects.taken (m'.attempts a.target)
        (m'.entries.flatMap fun e => e.2.status.activeAssets) ∧
      objects'.taken = takenAfter objects.taken (m'.attempts a.target) := by
  have hes : ∀ e ∈ m.entries, e.2.isNeeded ∧ e.2.status.activeAssets = [] ∧ e.2.manifests = [] :=
    fun e he => hm e.1 e.2 (SortedMap.mem_entries_iff.mp he)
  obtain ⟨es', objects', t', hrun, hreported, htaken⟩ := run_ensure_entries hc a hes objects t
  rw [← SortedMap.run_traverse] at hrun
  obtain ⟨hentries, hworld⟩ : ((a.seeToAll m).run c.world (objects, t)).1.entries = es' ∧ _ :=
    Prod.mk.inj hrun
  have hsecond : (a.run m).run c.world (objects, t) =
      (a.seeToAll m).run c.world (objects, t) := by
    rw [a.run_eq, Program.run_bind, a.run_giveUp_of_needed c.world fun e he => (hes e he).1]
  refine ⟨_, objects', t', hsecond.trans (Prod.ext rfl hworld), ?_, ?_⟩
  · rw [UseMap.attempts, hentries]
    exact hreported
  · rw [UseMap.attempts, hentries]
    exact htaken

end Run

/-! ## A first pass -/

namespace StackStatus

variable {spec : StackSpec} {current : StackStatus} {m : UseMap}

/-- If every archive of a map is asked for, the assets that a status lists are those of the map. -/
lemma forall_assets_iff (hm : ∀ r u, m.get? r = some u → Reference.ofStatus u.status = r)
    (hdesired : ∀ r u, m.get? r = some u →
      ∃ w ∈ spec.versions, w.isActive ∧ ∃ p ∈ w.pipelines, Reference.ofSpec p = r)
    {P : AssetStatus → Prop} :
    (∀ v ∈ (build spec current m).versions, ∀ p ∈ v.pipelines, ∀ x ∈ p.activeAssets, P x) ↔
      ∀ x ∈ m.entries.flatMap fun e => e.2.status.activeAssets, P x := by
  constructor
  · intro h x hx
    obtain ⟨⟨r, u⟩, he, hx⟩ := List.mem_flatMap.mp hx
    have hu := SortedMap.mem_entries_iff.mp he
    obtain ⟨w, hw, hactive, p, hp, rfl⟩ := hdesired r u hu
    obtain ⟨v, hv, -, hrecord⟩ := record_iff.mpr (Or.inl ⟨w, hw, rfl, hactive, p, hp, rfl⟩)
    refine h v hv _ hrecord x ?_
    rw [activePipeline, hu]
    exact hx
  · intro h v hv p hp x hx
    rw [activeAssets_eq_of_record hm hv hp] at hx
    cases hu : m.get? (.ofStatus p) with
    | none =>
      rw [hu] at hx
      cases hx
    | some u =>
      rw [hu] at hx
      exact h x (List.mem_flatMap.mpr ⟨_, SortedMap.mem_entries_iff.mpr hu, hx⟩)

end StackStatus

namespace Stack

variable {τ : Type} {c : Surroundings τ} {s : Stack} {a : Activation}

/-- The status lists no active asset without an object of its own. -/
def AllPresent (objects : Objects) (status : StackStatus) : Prop :=
  ∀ v ∈ status.versions, ∀ p ∈ v.pipelines, ∀ x ∈ p.activeAssets,
    x.state = .active → (objects x.key).isSome

/-- A first pass is a run of the attempts on the assets that it loads, and its status lists what
comes of them. -/
lemma reported_of_first_pass (hc : c.StoreFaultless) (ha : s.activation = .ok a)
    (hempty : s.recorded.versions = []) (objects : Objects) (t : τ) :
    ∃ m status objects' t' ss, UseMap.build s.recorded.versions s.spec.versions = .ok m ∧
      s.reconcileActiveVersions.run c.world (objects, t) = (.ok status, (objects', t')) ∧
      let bs := ((a.run m).run c.world (objects, t)).1.attempts a.target
      Reported objects.taken bs ss ∧ objects'.taken = takenAfter objects.taken bs ∧
      (AllPresent objects' status ↔ ∀ x ∈ ss, x.state = .active → x.key ∈ objects'.taken) := by
  obtain ⟨m, hm, -⟩ := UseMap.build_eq_ok s.recorded.versions s.spec.versions
  have hnone : ∀ r, UseMap.usesOf r (UseMap.recordedUses s.recorded.versions) = [] := by
    simp [hempty, UseMap.recordedUses, UseMap.usesOf]
  have hdesired : ∀ r u, m.get? r = some u →
      ∃ w ∈ s.spec.versions, w.isActive ∧ ∃ p ∈ w.pipelines, Reference.ofSpec p = r :=
    fun r u hu => UseMap.exists_desired_of_not_recorded hm hu (hnone r)
  have hfresh : ∀ r u, m.get? r = some u →
      u.isNeeded ∧ u.status.activeAssets = [] ∧ u.manifests = [] := by
    intro r u hu
    refine ⟨?_, ?_, (UseMap.manifests_of_build hm hu).1⟩
    · simpa [Usage.isNeeded] using (UseMap.useCount_pos_iff hm hu).mpr (Or.inl (hdesired r u hu))
    · rw [UseMap.activeAssets_of_build hm hu, UseMap.assetsAt, hnone]
  obtain ⟨m', objects', t', hrun, hreported, htaken⟩ := run_of_fresh hc a hfresh objects t
  have hpass := reconcileActiveVersions_run ha c.world (objects, t) hm
  have hm' : ((a.run m).run c.world (objects, t)).1 = m' := by rw [hrun]
  rw [hm'] at hpass
  refine ⟨m, _, objects', t', m'.entries.flatMap fun e => e.2.status.activeAssets, hm,
    hpass.trans (by rw [hrun]), ?_⟩
  rw [hm']
  refine ⟨hreported, htaken, StackStatus.forall_assets_iff ?_ ?_⟩
  · exact fun r u hu => ofStatus_of_run hm a c.world (objects, t) (by rwa [hm'])
  · intro r u hu
    obtain ⟨u₀, hu₀, -⟩ := kept_of_run a c.world m (objects, t) (by rwa [hm'])
    exact hdesired r u₀ hu₀

/-- After a first pass in a store without failures every asset that is reported as active exists
under its own key exactly if each asset that was misplaced comes to exist in another way. -/
theorem active_exist_iff (hc : c.StoreFaultless) (ha : s.activation = .ok a)
    (hempty : s.recorded.versions = []) (objects : Objects) (t : τ) :
    ∃ m status objects' t', UseMap.build s.recorded.versions s.spec.versions = .ok m ∧
      s.reconcileActiveVersions.run c.world (objects, t) = (.ok status, (objects', t')) ∧
      (AllPresent objects' status ↔
        let bs := ((a.run m).run c.world (objects, t)).1.attempts a.target
        ∀ before b rest, bs = before ++ b :: rest →
          b.Misplaced (takenAfter objects.taken before) → b.key ∈ takenAfter objects.taken bs) := by
  obtain ⟨m, status, objects', t', ss, hm, hrun, hreported, htaken, hpresent⟩ :=
    reported_of_first_pass hc ha hempty objects t
  refine ⟨m, status, objects', t', hm, hrun, ?_⟩
  rw [hpresent, htaken]
  exact hreported.forall_active_iff subset_rfl

/-- Every asset that is reported as active exists if assets of one name in one archive are of one
kind. -/
theorem active_exist_of_one_kind (hc : c.StoreFaultless) (ha : s.activation = .ok a)
    (hempty : s.recorded.versions = []) (objects : Objects) (t : τ) {m : UseMap}
    (hm : UseMap.build s.recorded.versions s.spec.versions = .ok m)
    (hkinds : ∀ e ∈ ((a.run m).run c.world (objects, t)).1.entries,
      ∀ x ∈ e.2.manifests, ∀ y ∈ e.2.manifests, x.name = y.name → x.kind = y.kind) :
    ∃ status objects' t',
      s.reconcileActiveVersions.run c.world (objects, t) = (.ok status, (objects', t')) ∧
        AllPresent objects' status := by
  obtain ⟨m₀, status, objects', t', ss, hm₀, hrun, hreported, htaken, hpresent⟩ :=
    reported_of_first_pass hc ha hempty objects t
  obtain rfl : m₀ = m := Except.ok.inj (hm₀.symm.trans hm)
  refine ⟨status, objects', t', hrun, hpresent.mpr ?_⟩
  refine (hreported.forall_active_iff htaken.ge).mpr ?_
  rintro before b rest heq ⟨-, k, hcreated, -, hk⟩
  have hb : b ∈ before ++ b :: rest := List.mem_append_right _ List.mem_cons_self
  rw [← heq] at hb
  obtain ⟨e, he, hb⟩ := List.mem_flatMap.mp hb
  obtain ⟨x, hx, rfl⟩ := List.mem_map.mp hb
  exact (hk (Asset.eq_key_of_attempt (hkinds e he) hx hcreated)).elim

/-! ## A task and a pipeline of one name -/

/-- An archive of a task and a pipeline. -/
def taskAndPipeline (task pipeline : String) : String :=
  document "Task" task ++ "---\n" ++ document "Pipeline" pipeline

/-- The world that serves the archive and in which nothing fails. -/
def quiet (text : String) : Surroundings Unit :=
  .serving text fun _ => false

/-- The key of an object of the archive. -/
def tektonKey (kind name : String) : ObjectKey :=
  ⟨⟨"tekton.dev", "v1beta1", kind⟩, "kabanero", name⟩

set_option maxRecDepth 100000 in
/-- Under different names each object is created under its own key. -/
lemma attempts_of_two_names :
    (UseMap.build [] [.ofUrl "https://e.com/p.yaml"]).map (fun m =>
      ((askingActivation.run m).run (quiet (taskAndPipeline "a" "b")).world
        (fun _ => none, ())).1.attempts "kabanero") =
      .ok [⟨tektonKey "Task" "a", some (tektonKey "Task" "a")⟩,
        ⟨tektonKey "Pipeline" "b", some (tektonKey "Pipeline" "b")⟩] := by
  decide +kernel

/-- A task and a pipeline of different names both exist after a first pass. -/
theorem task_and_pipeline_of_two_names_exist :
    ∃ status objects' t',
      (asking [.ofUrl "https://e.com/p.yaml"] []).reconcileActiveVersions.run
        (quiet (taskAndPipeline "a" "b")).world (fun _ => none, ()) =
          (.ok status, (objects', t')) ∧ AllPresent objects' status := by
  obtain ⟨m, status, objects', t', hm, hrun, hiff⟩ := active_exist_iff
    (Surroundings.storeFaultless_serving (taskAndPipeline "a" "b") fun _ _ => rfl)
    (activation_asking [.ofUrl "https://e.com/p.yaml"] []) rfl (fun _ => none) ()
  have hattempts := attempts_of_two_names
  rw [show UseMap.build [] [.ofUrl "https://e.com/p.yaml"] = .ok m from hm] at hattempts
  refine ⟨status, objects', t', hrun, hiff.mpr ?_⟩
  rintro bs before b rest heq ⟨-, k, hcreated, -, hk⟩
  have hbs : bs = _ := Except.ok.inj hattempts
  have hb : b ∈ bs := heq ▸ List.mem_append_right _ List.mem_cons_self
  simp only [hbs, List.mem_cons, List.not_mem_nil, or_false] at hb
  rcases hb with rfl | rfl
  · exact (hk (Option.some.inj hcreated).symm).elim
  · exact (hk (Option.some.inj hcreated).symm).elim

set_option maxRecDepth 100000 in
/-- A task and a pipeline of one name are both reported as active after a first pass, but there is
no task. -/
theorem task_without_object :
    let done := (asking [.ofUrl "https://e.com/p.yaml"] []).reconcileActiveVersions.run
      (quiet (taskAndPipeline "a" "a")).world (fun _ => none, ())
    done.1.map (fun status =>
      ((status.versions.flatMap (·.pipelines)).flatMap (·.activeAssets)).map fun x =>
        (x.key, x.state, (done.2.1 x.key).isSome)) =
      .ok [(tektonKey "Task" "a", .active, false), (tektonKey "Pipeline" "a", .active, true)] := by
  decide +kernel

end Stack

end PipelineStacks
