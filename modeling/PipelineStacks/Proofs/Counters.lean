import PipelineStacks.Proofs.Loading

/-!
# What the counters say of a pass

In its second round a pass counts each archive that is lost, each object that is created and each
asset that fails.  That the counters agree with what came of some exchanges is said by
`Effect.Balanced`, in which the archives that are lost are compared before and after.  There is one
lemma for each program of the round (`balanced_ensureAsset` and so on, by induction over the
assets), and the round is the sequence of its visits (`balanced_visits`).

What is loaded is counted within the exchanges of loading, and these are all the exchanges of the
kind (`exists_loadings`).  In the first round it is counted what was given up, and every attempt to
give an asset up leaves a record, comes to a release or passes the asset over
(`ReleaseAttempt.tally`).  `counters_account_for_pass` puts the rounds together.
-/

namespace PipelineStacks

open Program (Exchange Accounts accounts_bind accounts_done accounts_question)

/-! ## Counting in a log -/

namespace Effect

/-- The exchange counts the metric once. -/
def counts (metric : Metric) : Exchange Effect.Answer → Bool
  | ⟨.count m, _⟩ => m = metric
  | _ => false

/-- How often a metric is counted in some exchanges. -/
def counted (metric : Metric) (log : List (Exchange Effect.Answer)) : ℕ :=
  log.countP (counts metric)

/-- An object is created in the exchange. -/
def creates : Exchange Effect.Answer → Bool
  | ⟨.create .., answer⟩ => (answer : Except Failure Unit).isOk
  | _ => false

/-- How many objects are created in some exchanges. -/
def created (log : List (Exchange Effect.Answer)) : ℕ :=
  log.countP creates

/-- The request counts nothing and creates nothing. -/
def isSilent : Effect → Bool
  | .count _ | .create .. => false
  | _ => true

variable {metric : Metric} {log log' : List (Exchange Effect.Answer)}

lemma counted_append : counted metric (log ++ log') = counted metric log + counted metric log' :=
  List.countP_append

lemma created_append : created (log ++ log') = created log + created log' :=
  List.countP_append

lemma counted_eq_zero_of_silent (h : ∀ x ∈ log, x.1.isSilent = true) : counted metric log = 0 := by
  refine List.countP_eq_zero.mpr fun x hx => ?_
  obtain ⟨e, answer⟩ := x
  have hsilent := h _ hx
  cases e with
  | count => cases hsilent
  | _ => exact Bool.false_ne_true

lemma created_eq_zero_of_silent (h : ∀ x ∈ log, x.1.isSilent = true) : created log = 0 := by
  refine List.countP_eq_zero.mpr fun x hx => ?_
  obtain ⟨e, answer⟩ := x
  have hsilent := h _ hx
  cases e with
  | create => cases hsilent
  | _ => exact Bool.false_ne_true

/-- What is counted within loading can be counted there. -/
lemma counted_filter_isLoading (h : (Effect.count metric).isLoading = true) :
    counted metric (log.filter (·.1.isLoading)) = counted metric log := by
  rw [counted, List.countP_filter]
  refine List.countP_congr fun x _ => ?_
  obtain ⟨e, answer⟩ := x
  cases e with
  | count m =>
    by_cases hm : m = metric
    · simp [counts, hm, h]
    · simp [counts, hm]
  | _ => simp [counts]

/-- The counters agree with what came of some exchanges: with the numbers of archives that are lost
before and after them, of assets that have failed, and of assets that were given up.  As many assets
count as applied as objects were created. -/
structure Balanced (log : List (Exchange Effect.Answer)) (lost lost' failed released : ℕ) :
    Prop where
  fetchErrors : lost + counted .archiveFetchErrors log = lost'
  applied : counted .assetsApplied log = created log
  failed : counted .assetsFailed log = failed
  deleted : counted .assetsDeleted log = released

variable {lost lost' lost'' failed failed' released released' : ℕ}

lemma balanced_of_silent (h : ∀ x ∈ log, x.1.isSilent = true) : Balanced log lost lost 0 0 where
  fetchErrors := by rw [counted_eq_zero_of_silent h, Nat.add_zero]
  applied := by rw [counted_eq_zero_of_silent h, created_eq_zero_of_silent h]
  failed := counted_eq_zero_of_silent h
  deleted := counted_eq_zero_of_silent h

lemma balanced_nil : Balanced [] lost lost 0 0 :=
  balanced_of_silent fun _ hx => (List.not_mem_nil hx).elim

/-- Of exchanges that follow one another the numbers add up. -/
lemma Balanced.append (h : Balanced log lost lost' failed released)
    (h' : Balanced log' lost' lost'' failed' released') :
    Balanced (log ++ log') lost lost'' (failed + failed') (released + released') where
  fetchErrors := by rw [counted_append, ← Nat.add_assoc, h.fetchErrors, h'.fetchErrors]
  applied := by rw [counted_append, created_append, h.applied, h'.applied]
  failed := by rw [counted_append, h.failed, h'.failed]
  deleted := by rw [counted_append, h.deleted, h'.deleted]

/-- Archives that were lost before do not matter. -/
lemma Balanced.add_left (h : Balanced log lost lost' failed released) (n : ℕ) :
    Balanced log (n + lost) (n + lost') failed released :=
  { h with fetchErrors := by rw [Nat.add_assoc, h.fetchErrors] }

end Effect

open Effect (Balanced counted created balanced_nil balanced_of_silent LoadFree)

/-- An attempt to give an asset up counts nothing itself. -/
lemma Owner.Attempts.isSilent {w : Owner} {target : String} {x : AssetStatus}
    {log : List (Exchange Effect.Answer)} {result : Except Failure DeleteOutcome}
    (h : w.Attempts target x log result) : ∀ y ∈ log, y.1.isSilent = true := by
  cases h <;> simp [Effect.isSilent]

/-- How many of some assets have failed. -/
def AssetStatus.failures (l : List AssetStatus) : ℕ :=
  l.countP fun x => x.state = .failed

lemma AssetStatus.failures_append (l l' : List AssetStatus) :
    failures (l ++ l') = failures l + failures l' :=
  List.countP_append

/-- One if the assets of an archive could not be loaded, and else none. -/
def Usage.lost (u : Usage) : ℕ :=
  if u.manifestError.isSome then 1 else 0

/-! ## Seeing to assets -/

namespace Activation

variable {σ : Type} {world : Program.World Effect.Answer σ} (a : Activation) (r : Reference)

lemma accounts_count {metric : Metric} {F : List (Exchange Effect.Answer) → Unit → Prop}
    (h : F [⟨.count metric, ()⟩] ()) : (Pass.count metric).Accounts world F :=
  accounts_question fun _ => h

/-- To load an archive is counted and timed, and so is a failure.  All that is asked in between
belongs to the loading as well, but is not counted. -/
lemma accounts_getManifests (name : String) (context : RenderContext) (skip : Bool) :
    (getManifests r name context skip).Accounts world fun log result => ∃ fetched,
      (∀ x ∈ fetched, x.1.isSilent = true ∧ x.1.isLoading = true) ∧
      log = ⟨.count .archiveFetches, ()⟩ :: (fetched ++ ⟨.count .archiveFetchDuration, ()⟩ ::
        match result with
        | .ok _ => []
        | .error _ => [⟨.count .archiveFetchErrors, ()⟩]) := by
  have hassets : (fetchAssets r name context skip).Guarded
      (fun _ e => e.isSilent = true ∧ e.isLoading = true) none :=
    fetchAssets_guarded (fun _ _ _ => ⟨rfl, rfl⟩) r name context skip
  refine accounts_bind (accounts_count rfl) fun log₁ _ (h₁ : log₁ = _) => ?_
  refine accounts_bind hassets.accounts fun fetched result hfetched => ?_
  refine accounts_bind (accounts_count rfl) fun log₃ _ (h₃ : log₃ = _) => ?_
  subst h₁ h₃
  cases result with
  | error e =>
    refine accounts_bind (accounts_count rfl) fun log₄ _ (h₄ : log₄ = _) => ?_
    subst h₄
    exact accounts_done ⟨fetched, hfetched, by simp⟩
  | ok found => exact accounts_done ⟨fetched, hfetched, by simp⟩

/-- A failure to load an archive is counted. -/
lemma balanced_getManifests (name : String) (context : RenderContext) (skip : Bool) :
    (getManifests r name context skip).Accounts world fun log result =>
      Balanced log 0 (match result with | .ok _ => 0 | .error _ => 1) 0 0 := by
  refine (accounts_getManifests r name context skip).imp ?_
  rintro _ result ⟨fetched, hfetched, rfl⟩
  have hstart : Balanced [⟨.count .archiveFetches, ()⟩] 0 0 0 0 := ⟨rfl, rfl, rfl, rfl⟩
  have hbetween : Balanced fetched 0 0 0 0 := balanced_of_silent fun x hx => (hfetched x hx).1
  have hclose : Balanced (⟨.count .archiveFetchDuration, ()⟩ :: match result with
      | .ok _ => []
      | .error _ => [⟨.count .archiveFetchErrors, ()⟩]) 0
      (match result with | .ok _ => 0 | .error _ => 1) 0 0 := by
    cases result <;> exact ⟨rfl, rfl, rfl, rfl⟩
  simpa using hstart.append (hbetween.append hclose)

/-- After an archive was loaded it is lost exactly if a failure was counted. -/
lemma balanced_load (u : Usage) :
    (a.load r u).Accounts world fun log loaded =>
      loaded.2.status = u.status ∧ Balanced log 0 loaded.2.lost 0 0 := by
  refine accounts_bind (balanced_getManifests r _ _ _) fun log result h => ?_
  cases result with
  | error e => exact accounts_done ⟨rfl, by simpa [Usage.lost] using h⟩
  | ok found => exact accounts_done ⟨rfl, by simpa [Usage.lost] using h⟩

/-- Of an asset that was not there it is counted that its object was created, or else that it has
failed. -/
lemma balanced_install (u : Usage) (x : AssetStatus) (lost : ℕ) :
    (a.install u x).Accounts world fun log y =>
      Balanced log lost lost (AssetStatus.failures [y]) 0 := by
  have hfail : ∀ message, (fail x message).Accounts world fun log y =>
      Balanced log lost lost (AssetStatus.failures [y]) 0 := fun message _ => ⟨rfl, rfl, rfl, rfl⟩
  rw [install_eq]
  cases Asset.offered u.manifests x.name with
  | error message => exact hfail message
  | ok m =>
    refine accounts_bind (F := fun log answer =>
      log = [⟨.create m.kind x.namespaceName (m.prepared x.namespaceName a.owner), answer⟩])
      (fun _ => rfl) ?_
    rintro _ answer rfl
    cases answer with
    | ok => exact fun _ => ⟨rfl, rfl, rfl, rfl⟩
    | error e => exact fun _ => ⟨rfl, rfl, rfl, rfl⟩

/-- While assets are seen to, an archive that may be loaded is not lost yet. -/
def Progress.Sound (p : Progress) : Prop :=
  p.attempted = false → p.usage.manifestError = none

/-- When an asset is seen to, it is counted if it has failed, if its object was created, and if its
archive was lost over it. -/
lemma balanced_ensureAsset {p : Progress} (hp : p.Sound) (x : AssetStatus) :
    (a.ensureAsset r p x).Accounts world fun log found => found.2.Sound ∧
      Balanced log p.usage.lost found.2.usage.lost (AssetStatus.failures [found.1]) 0 := by
  refine accounts_bind (F := fun log answer =>
    log = [⟨.get x.objectKind (x.place a.target) x.name, answer⟩]) (fun _ => rfl) ?_
  rintro _ answer rfl
  have hlook : Balanced [⟨.get x.objectKind (x.place a.target) x.name, answer⟩] p.usage.lost
      p.usage.lost 0 0 := ⟨rfl, rfl, rfl, rfl⟩
  have hinstall : ∀ p' : Progress, p'.Sound →
      (do return (← a.install p'.usage { x with namespaceName := x.place a.target }, p') :
        Pass (AssetStatus × Progress)).Accounts world fun log found => found.2.Sound ∧
          Balanced log p'.usage.lost found.2.usage.lost (AssetStatus.failures [found.1]) 0 :=
    fun p' hp' => accounts_bind (a.balanced_install p'.usage _ p'.usage.lost) fun log y h =>
      accounts_done ⟨hp', by simpa using h⟩
  match answer with
  | .error e => exact accounts_done ⟨hp, hlook⟩
  | .ok (some object) =>
    have hadopt : (adoptAsset x.objectKind (x.place a.target) object a.owner).Guarded
        (fun _ e => e.isSilent = true) none := by
      refine (adoptAsset_asks a.owner x.objectKind (x.place a.target) object none).imp ?_
      rintro last' e ⟨-, rfl⟩
      rfl
    refine accounts_bind hadopt.accounts fun log _ hlog => accounts_done ⟨hp, ?_⟩
    rw [List.append_nil]
    exact hlook.append (balanced_of_silent hlog)
  | .ok none =>
    by_cases hload : (p.usage.manifests.isEmpty && !p.attempted) = true
    · simp only [hload, if_true]
      have hunspent : p.attempted = false := by simpa using (Bool.and_eq_true_iff.mp hload).2
      have hnone : p.usage.lost = 0 := by simp [Usage.lost, hp hunspent]
      refine accounts_bind (a.balanced_load r p.usage) fun log loaded h => ?_
      refine (hinstall ⟨loaded.2, true⟩ nofun).imp fun log' found h' => ⟨h'.1, ?_⟩
      rw [hnone] at hlook ⊢
      simpa using hlook.append (h.2.append h'.2)
    · simp only [hload]
      refine (hinstall p hp).imp fun log found h => ⟨h.1, ?_⟩
      simpa using hlook.append h.2

/-- For assets in turn the numbers add up. -/
theorem balanced_ensureAssets {p : Progress} (hp : p.Sound) (l : List AssetStatus) :
    (a.ensureAssets r p l).Accounts world fun log found =>
      Balanced log p.usage.lost found.2.usage.lost (AssetStatus.failures found.1) 0 := by
  induction l generalizing p with
  | nil => exact accounts_done balanced_nil
  | cons x l ih =>
    rw [ensureAssets_cons]
    refine accounts_bind (a.balanced_ensureAsset r hp x) fun log found h => ?_
    refine accounts_bind (ih h.1) fun log' rest h' => accounts_done ?_
    have hfailures : AssetStatus.failures (found.1 :: rest.1) =
        AssetStatus.failures [found.1] + AssetStatus.failures rest.1 :=
      AssetStatus.failures_append [found.1] rest.1
    rw [List.append_nil, hfailures]
    exact h.2.append h'

lemma balanced_ensureRecorded (u : Usage) :
    (a.ensureRecorded r u).Accounts world fun log u' =>
      Balanced log u.lost u'.lost (AssetStatus.failures u'.status.activeAssets) 0 := by
  rw [ensureRecorded_eq]
  have hsound : Progress.Sound ⟨u, !u.manifests.isEmpty || u.manifestError.isSome⟩ := by
    simp [Progress.Sound]
  refine accounts_bind (a.balanced_ensureAssets r hsound u.status.activeAssets)
    fun log found h => accounts_done ?_
  rw [List.append_nil]
  exact h

/-- When an archive of which nothing was loaded yet is seen to, it is counted whether it is lost,
and which of its assets have failed. -/
theorem balanced_ensure {u : Usage} (hu : u.manifestError = none) :
    (a.ensure r u).Accounts world fun log u' =>
      Balanced log 0 u'.lost (AssetStatus.failures u'.status.activeAssets) 0 := by
  have hfresh : u.lost = 0 := by simp [Usage.lost, hu]
  unfold ensure
  by_cases hempty : u.status.activeAssets = []
  · rw [if_pos (by simp [hempty])]
    refine accounts_bind (a.balanced_load r u) fun log loaded h => ?_
    match loaded, h with
    | (false, u'), h =>
      refine accounts_done ?_
      rw [List.append_nil, h.1, hempty]
      exact h.2
    | (true, u'), h =>
      refine (a.balanced_ensureRecorded r _).imp fun log' u'' h' => ?_
      simpa using h.2.append h'
  · rw [if_neg (by simpa using hempty)]
    simpa only [hfresh] using a.balanced_ensureRecorded r u

/-! ## The rounds of a pass -/

variable (world)

/-- In the second round it is counted which archives are lost, and which assets have failed. -/
theorem balanced_visits (seen : List ((Reference × Usage) × σ))
    (h : ∀ x ∈ seen, x.1.2.manifestError = none) :
    let done := seen.map fun x => (x.1.1, ((a.ensure x.1.1 x.1.2).run world x.2).1)
    Balanced (seen.flatMap fun x => (a.ensure x.1.1 x.1.2).log world x.2) 0
      (done.countP fun e => e.2.manifestError.isSome)
      (AssetStatus.failures (done.flatMap fun e => e.2.status.activeAssets)) 0 := by
  intro done
  induction seen with
  | nil => exact balanced_nil
  | cons x seen ih =>
    obtain ⟨hx, hseen⟩ := List.forall_mem_cons.mp h
    have hrest := (ih hseen).add_left ((a.ensure x.1.1 x.1.2).run world x.2).1.lost
    have hall := (a.balanced_ensure x.1.1 hx x.2).append hrest
    simpa only [done, List.map_cons, List.flatMap_cons, List.countP_cons, Nat.add_comm,
      Nat.add_zero, AssetStatus.failures_append, Usage.lost] using hall

/-- All that is asked while an archive is loaded belongs to that, and it is counted and timed
once. -/
lemma isLoading_loading (u : Usage) (t : σ) :
    (∀ x ∈ a.loading world r u t, x.1.isLoading = true) ∧
      counted .archiveFetches (a.loading world r u t) = 1 ∧
      counted .archiveFetchDuration (a.loading world r u t) = 1 := by
  have hloading : (getManifests r u.status.name (a.contextFor r) u.skipCertVerification).Accounts
      world fun log _ => (∀ x ∈ log, x.1.isLoading = true) ∧
        counted .archiveFetches log = 1 ∧ counted .archiveFetchDuration log = 1 := by
    refine (accounts_getManifests r _ _ _).imp ?_
    rintro _ result ⟨fetched, hfetched, rfl⟩
    have hnone : ∀ metric, fetched.countP (Effect.counts metric) = 0 := fun _ =>
      Effect.counted_eq_zero_of_silent fun x hx => (hfetched x hx).1
    refine ⟨List.forall_mem_cons.mpr ⟨rfl, List.forall_mem_append.mpr
      ⟨fun x hx => (hfetched x hx).2, List.forall_mem_cons.mpr ⟨rfl, ?_⟩⟩⟩, ?_, ?_⟩
    · cases result <;> simp [Effect.isLoading]
    · cases result <;> simp [counted, Effect.counts, hnone]
    · cases result <;> simp [counted, Effect.counts, hnone]
  exact hloading t

/-- The exchanges of loading among those of one archive are those of one loading, or there are
none. -/
lemma exists_loading {u : Usage} (hu : u.Unloaded) (t : σ) :
    ∃ start : Option σ, ((a.ensure r u).log world t).filter (·.1.isLoading) =
      start.toList.flatMap (a.loading world r u) := by
  have hloads := a.loadsIff_ensure world r hu t
  by_cases hcondition : u.status.activeAssets = [] ∨ Effect.Misses ((a.ensure r u).log world t)
  · obtain ⟨before, t', after, hlog, hbefore, hafter⟩ := hloads.once hcondition
    refine ⟨some t', ?_⟩
    rw [hlog, List.filter_append, List.filter_append, hbefore.filter_isLoading,
      hafter.filter_isLoading, List.filter_eq_self.mpr (a.isLoading_loading world r u t').1]
    simp
  · exact ⟨none, (hloads.never hcondition).filter_isLoading⟩

/-- The exchanges of loading in the second round are those of some loadings, at most one of each
archive. -/
lemma exists_loadings {seen : List ((Reference × Usage) × σ)} (h : ∀ x ∈ seen, x.1.2.Unloaded) :
    ∃ loadings : List ((Reference × Usage) × σ),
      (loadings.map Prod.fst).Sublist (seen.map Prod.fst) ∧
      (seen.flatMap fun x => (a.ensure x.1.1 x.1.2).log world x.2).filter (·.1.isLoading) =
        loadings.flatMap fun x => a.loading world x.1.1 x.1.2 x.2 := by
  induction seen with
  | nil => exact ⟨[], .slnil, rfl⟩
  | cons x seen ih =>
    obtain ⟨hx, hseen⟩ := List.forall_mem_cons.mp h
    obtain ⟨loadings, hsub, hlog⟩ := ih hseen
    obtain ⟨start, hstart⟩ := a.exists_loading world x.1.1 hx x.2
    rw [List.flatMap_cons, List.filter_append, hstart, hlog]
    cases start with
    | none => exact ⟨loadings, hsub.cons _, rfl⟩
    | some t' => exact ⟨(x.1, t') :: loadings, hsub.cons_cons _, by simp⟩

/-- Each loading is counted and timed once. -/
lemma counted_loadings (loadings : List ((Reference × Usage) × σ)) :
    counted .archiveFetches (loadings.flatMap fun x => a.loading world x.1.1 x.1.2 x.2) =
        loadings.length ∧
      counted .archiveFetchDuration (loadings.flatMap fun x => a.loading world x.1.1 x.1.2 x.2) =
        loadings.length := by
  induction loadings with
  | nil => exact ⟨rfl, rfl⟩
  | cons x loadings ih =>
    obtain ⟨-, hfetches, hduration⟩ := a.isLoading_loading world x.1.1 x.1.2 x.2
    rw [List.flatMap_cons, Effect.counted_append, Effect.counted_append, ih.1, ih.2, hfetches,
      hduration, List.length_cons, Nat.add_comm]
    exact ⟨rfl, rfl⟩

/-- In the first round the attempts to give assets up are made one after the other, and what is left
of the archives are the records that are kept. -/
lemma exists_attempts_visits (given : List ((Reference × Usage) × σ)) :
    ∃ attempts : List ReleaseAttempt,
      attempts.map (·.asset) = given.flatMap (·.1.2.status.activeAssets) ∧
      (∀ x ∈ attempts, x.Ran world a.target a.owner) ∧
      (given.flatMap fun x => (a.release x.1.2).log world x.2) =
        attempts.flatMap (·.exchanges) ∧
      (given.flatMap fun x => ((a.release x.1.2).run world x.2).1.status.activeAssets) =
        attempts.filterMap ReleaseAttempt.kept? := by
  induction given with
  | nil => exact ⟨[], rfl, fun x hx => (List.not_mem_nil hx).elim, rfl, rfl⟩
  | cons x given ih =>
    obtain ⟨attempts, hassets, hran, hlog, hkept⟩ :=
      a.exists_attempts_releaseAssets world x.1.2.status.activeAssets x.2
    obtain ⟨attempts', hassets', hran', hlog', hkept'⟩ := ih
    refine ⟨attempts ++ attempts', ?_, List.forall_mem_append.mpr ⟨hran, hran'⟩, ?_, ?_⟩
    · rw [List.map_append, hassets, hassets', List.flatMap_cons]
    · rw [List.flatMap_cons, hlog', release, Program.log_bind, hlog, List.flatMap_append]
      simp
    · rw [List.flatMap_cons, hkept', release, Program.run_bind, hkept, List.filterMap_append]
      rfl

/-- In the first round nothing but releases is counted. -/
lemma balanced_attempts {attempts : List ReleaseAttempt}
    (h : ∀ x ∈ attempts, x.Ran world a.target a.owner) :
    Balanced (attempts.flatMap (·.exchanges)) 0 0 0 (attempts.countP (·.isRelease)) := by
  induction attempts with
  | nil => exact balanced_nil
  | cons x attempts ih =>
    obtain ⟨hx, hattempts⟩ := List.forall_mem_cons.mp h
    have hone : Balanced x.exchanges 0 0 0 (if x.isRelease then 1 else 0) := by
      have hcount : Balanced (if x.isRelease then [⟨.count .assetsDeleted, ()⟩] else []) 0 0 0
          (if x.isRelease then 1 else 0) := by
        cases x.isRelease <;> exact ⟨rfl, rfl, rfl, rfl⟩
      have hrequests : Balanced x.log 0 0 0 0 := balanced_of_silent hx.attempts.isSilent
      have hboth := hrequests.append hcount
      simp only [Nat.zero_add] at hboth
      exact hboth
    have hall := hone.append (ih hattempts)
    rwa [List.countP_cons, List.flatMap_cons, Nat.add_comm (List.countP _ _)]

/-- Whatever is recorded and asked for, and however the world answers, the counters account for a
pass.

* The exchanges of loading are those of some loadings, at most one of each archive that is needed.
  As many fetches are counted, and as many durations.
* As many failures to fetch are counted as archives that are needed are left with an error.
* As many assets count as applied as objects were created.
* As many assets count as failed as assets of archives that are needed are left as failed.
* In the first round every asset that is recorded of an archive that is not needed is given up once
  and in turn.  As many assets count as deleted as attempts come to a release; the records that are
  left are those that are kept for another attempt, and with the assets that are passed over these
  are as many as were recorded. -/
theorem counters_account_for_pass (recorded : List VersionStatus) (desired : List VersionSpec)
    (t : σ) :
    ∃ m, UseMap.build recorded desired = .ok m ∧
      let log := (a.run m).log world t
      let done := ((a.run m).run world t).1
      let unneeded := m.toDelete.flatMap (·.2.status.activeAssets)
      let kept := done.toDelete.flatMap (·.2.status.activeAssets)
      (∃ loadings : List ((Reference × Usage) × σ),
        (loadings.map Prod.fst).Sublist m.toEnsure ∧
        log.filter (·.1.isLoading) =
          loadings.flatMap (fun x => a.loading world x.1.1 x.1.2 x.2) ∧
        counted .archiveFetches log = loadings.length ∧
        counted .archiveFetchDuration log = loadings.length) ∧
      counted .archiveFetchErrors log = done.toEnsure.countP (·.2.manifestError.isSome) ∧
      counted .assetsApplied log = created log ∧
      counted .assetsFailed log =
        (done.toEnsure.flatMap (·.2.status.activeAssets)).countP (·.state = .failed) ∧
      ∃ attempts : List ReleaseAttempt,
        attempts.map (·.asset) = unneeded ∧
        (∀ x ∈ attempts, x.Ran world a.target a.owner) ∧
        (a.giveUp m).log world t = attempts.flatMap (·.exchanges) ∧
        kept = attempts.filterMap ReleaseAttempt.kept? ∧
        counted .assetsDeleted log = attempts.countP (·.isRelease) ∧
        counted .assetsDeleted log + kept.length + attempts.countP (·.isPassedOver) =
          unneeded.length := by
  obtain ⟨m, hm, -⟩ := UseMap.build_eq_ok recorded desired
  obtain ⟨given, seen, hgiven, hseen, hfirst, hlog, hdeleted, hensured⟩ :=
    a.exists_visits_run world m t
  have hunloaded : ∀ x ∈ seen, x.1.2.Unloaded := fun x hx =>
    UseMap.unloaded_of_build hm (UseMap.mem_toEnsure.mp (hseen ▸ List.mem_map_of_mem hx)).1
  obtain ⟨attempts, hassets, hran, hattempts, hkept⟩ := a.exists_attempts_visits world given
  obtain ⟨loadings, hsub, hloadings⟩ := a.exists_loadings world hunloaded
  have hbalanced := (a.balanced_attempts world hran).append
    (a.balanced_visits world seen fun x hx => (hunloaded x hx).manifestError)
  rw [← hattempts, ← hfirst, ← hlog, ← hensured] at hbalanced
  have hunneeded : given.flatMap (·.1.2.status.activeAssets) =
      m.toDelete.flatMap (·.2.status.activeAssets) := by
    rw [← hgiven, List.flatMap_map]
  have hleft : ((a.run m).run world t).1.toDelete.flatMap (·.2.status.activeAssets) =
      attempts.filterMap ReleaseAttempt.kept? := by
    rw [hdeleted, List.flatMap_map, hkept]
  have hfree : LoadFree ((a.giveUp m).log world t) := by
    rw [hfirst]
    exact List.forall_mem_flatMap.mpr fun x _ => a.loadFree_release world x.1.2 x.2
  have hloaded : ((a.run m).log world t).filter (·.1.isLoading) =
      loadings.flatMap fun x => a.loading world x.1.1 x.1.2 x.2 := by
    rw [hlog, List.filter_append, hfree.filter_isLoading, hloadings, List.nil_append]
  refine ⟨m, hm, ⟨loadings, hseen ▸ hsub, hloaded, ?_, ?_⟩, ?_, hbalanced.applied, ?_,
    attempts, hassets.trans hunneeded, hran, hfirst.trans hattempts, hleft, hbalanced.deleted, ?_⟩
  · rw [← Effect.counted_filter_isLoading rfl, hloaded, (a.counted_loadings world loadings).1]
  · rw [← Effect.counted_filter_isLoading rfl, hloaded, (a.counted_loadings world loadings).2]
  · simpa using hbalanced.fetchErrors
  · exact hbalanced.failed.trans (Nat.zero_add _)
  · rw [hleft, hbalanced.deleted, Nat.add_zero, ReleaseAttempt.tally hran, ← hunneeded, ← hassets,
      List.length_map]

end Activation

end PipelineStacks
