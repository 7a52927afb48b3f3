import PipelineStacks.Proofs.Attempts
import PipelineStacks.Proofs.Completion
import PipelineStacks.Proofs.FixedPoint

/-!
# How often an archive is loaded

The exchanges of a pass are those of the archives that are not needed, one after the other, and then
those of the archives that are needed (`exists_portions_run`).  In the exchanges of one archive its
assets may be loaded in two places: before any of them is looked up, if none are recorded, and when
the first of them is missing.  After the first asset that is missing the archive is spent, whatever
came of the loading (`loadsOnce_ensureAsset`).  By induction on the assets it is loaded once under
this condition, and else not at all (`loadsIff_ensureAssets`, `loadsIff_ensure`).
`archive_is_loaded_at_most_once` says so of all archives of a pass.
-/

namespace PipelineStacks

open Program (Exchange conforms_bind conforms_done guarded_bind guarded_done)

/-! ## The exchanges of loading -/

namespace Effect

/-- The request belongs to the loading of an archive: it fetches one, or counts that. -/
def isLoading : Effect → Bool
  | .fetch .. | .count .archiveFetches | .count .archiveFetchDuration
  | .count .archiveFetchErrors => true
  | _ => false

/-- Nothing is loaded in some exchanges. -/
def LoadFree (log : List (Exchange Effect.Answer)) : Prop :=
  ∀ x ∈ log, x.1.isLoading = false

/-- Some object was looked up and is not there. -/
def Misses (log : List (Exchange Effect.Answer)) : Prop :=
  ∃ look ∈ lookups log, look.2 = .ok none

lemma loadFree_nil : LoadFree [] :=
  fun _ hx => (List.not_mem_nil hx).elim

lemma LoadFree.append {log log' : List (Exchange Effect.Answer)} (h : LoadFree log)
    (h' : LoadFree log') : LoadFree (log ++ log') :=
  List.forall_mem_append.mpr ⟨h, h'⟩

lemma LoadFree.filter_isLoading {log : List (Exchange Effect.Answer)} (h : LoadFree log) :
    log.filter (·.1.isLoading) = [] :=
  List.filter_eq_nil_iff.mpr fun x hx => by simp [h x hx]

lemma misses_append {log log' : List (Exchange Effect.Answer)} :
    Misses (log ++ log') ↔ Misses log ∨ Misses log' := by
  simp only [Misses, lookups_append, List.mem_append, or_and_right, exists_or]

/-- A request to the store loads nothing. -/
lemma isLoading_of_isForStore {e : Effect} (h : e.isForStore = true) : e.isLoading = false := by
  cases e with
  | fetch | count => cases h
  | _ => rfl

/-- A program that is not to load anything makes no such exchanges. -/
lemma loadFree_of_guarded {α σ : Type} {p : Pass α} {last : Option (Exchange Effect.Answer)}
    (h : p.Guarded (fun _ e => e.isLoading = false) last)
    (world : Program.World Effect.Answer σ) (t : σ) : LoadFree (p.log world t) :=
  fun _ hx => h.of_mem_log (Q := fun e => e.isLoading = false) (fun _ _ => id) hx

end Effect

open Effect (LoadFree Misses)

namespace Activation

variable {σ : Type} (world : Program.World Effect.Answer σ) (a : Activation) (r : Reference)

/-- The exchanges in which the assets of an archive are loaded, started in some state of the
world. -/
def loading (u : Usage) (t : σ) : List (Exchange Effect.Answer) :=
  (getManifests r u.status.name (a.contextFor r) u.skipCertVerification).log world t

/-- An archive is loaded once in some exchanges: those of its loading stand among others in which
nothing is loaded. -/
def LoadsOnce (u : Usage) (log : List (Exchange Effect.Answer)) : Prop :=
  ∃ before t after, log = before ++ a.loading world r u t ++ after ∧
    LoadFree before ∧ LoadFree after

/-- An archive is loaded once under a condition, and else not at all. -/
structure LoadsIff (u : Usage) (condition : Prop) (log : List (Exchange Effect.Answer)) : Prop where
  once : condition → a.LoadsOnce world r u log
  never : ¬ condition → LoadFree log

variable {world a r} {u : Usage} {log log' : List (Exchange Effect.Answer)}

lemma LoadsOnce.append_left (h : a.LoadsOnce world r u log') (hlog : LoadFree log) :
    a.LoadsOnce world r u (log ++ log') := by
  obtain ⟨before, t, after, rfl, hbefore, hafter⟩ := h
  exact ⟨log ++ before, t, after, by simp only [List.append_assoc], hlog.append hbefore, hafter⟩

lemma LoadsOnce.append_right (h : a.LoadsOnce world r u log) (hlog : LoadFree log') :
    a.LoadsOnce world r u (log ++ log') := by
  obtain ⟨before, t, after, rfl, hbefore, hafter⟩ := h
  exact ⟨before, t, after ++ log', by simp only [List.append_assoc], hbefore, hafter.append hlog⟩

/-- Where an archive is loaded once, it is not so that nothing is loaded. -/
lemma LoadsOnce.not_loadFree (h : a.LoadsOnce world r u log) : ¬ LoadFree log := by
  obtain ⟨before, t, after, rfl, -, -⟩ := h
  intro hfree
  -- the attempt itself is counted before anything is fetched
  have hcounted : ⟨.count .archiveFetches, (world (.count .archiveFetches) t).1⟩ ∈
      a.loading world r u t := List.mem_cons_self
  have hload := hfree _ (List.mem_append_left after (List.mem_append_right before hcounted))
  cases hload

lemma LoadsIff.loadFree_iff {condition : Prop} (h : a.LoadsIff world r u condition log) :
    LoadFree log ↔ ¬ condition :=
  ⟨fun hfree hcondition => (h.once hcondition).not_loadFree hfree, h.never⟩

variable (world a r)

/-- To load an archive is nothing but that. -/
lemma log_load (u : Usage) (t : σ) : (a.load r u).log world t = a.loading world r u t := by
  unfold load
  rw [Program.log_bind, loading]
  cases ((getManifests r u.status.name (a.contextFor r) u.skipCertVerification).run
      world t).1 <;> simp

/-! ## One asset -/

/-- The archive is not loaded any more: it has some assets, or it was tried. -/
def Progress.Spent (p : Progress) : Prop :=
  (p.usage.manifests.isEmpty && !p.attempted) = false

/-- Nothing is loaded when an object is created. -/
lemma install_loadFree (u : Usage) (s : AssetStatus) (last : Option (Exchange Effect.Answer)) :
    (a.install u s).Guarded (fun _ e => e.isLoading = false) last :=
  install_guarded (G := fun _ e => e.isLoading = false) (fun _ => rfl) (fun _ => rfl)
    fun _ _ _ => rfl

/-- After an asset was looked up nothing is loaded, unless its object is not there and the archive
may be loaded; then it is loaded first, and not again. -/
lemma ensureAsset_next (p : Progress) (x : AssetStatus) :
    ∃ next, a.ensureAsset r p x = Pass.get x.objectKind (x.place a.target) x.name >>= next ∧
      (∀ answer last, p.Spent ∨ answer ≠ .ok none → (next answer).Conforms (fun _ _ => True)
        (fun _ e => e.isLoading = false) (fun found => found.2 = p) last) ∧
      (¬ p.Spent → ∃ rest : Bool × Usage → Pass (AssetStatus × Progress),
        next (.ok none) = a.load r p.usage >>= rest ∧
        ∀ loaded last, (rest loaded).Conforms (fun _ _ => True)
          (fun _ e => e.isLoading = false) (fun found => found.2.Spent) last) := by
  have hinstall : ∀ (p' : Progress) (last : Option (Exchange Effect.Answer)),
      (do return (← a.install p'.usage { x with namespaceName := x.place a.target }, p') :
        Pass (AssetStatus × Progress)).Conforms (fun _ _ => True)
          (fun _ e => e.isLoading = false) (fun found => found.2 = p') last := fun p' last =>
    conforms_bind (a.install_loadFree p'.usage _ last).conforms fun _ _ _ => conforms_done rfl
  refine ⟨_, rfl, fun answer last hanswer => ?_, fun hunspent => ?_⟩
  · match answer with
    | .error e => exact conforms_done rfl
    | .ok (some object) =>
      have hadopt : (adoptAsset x.objectKind (x.place a.target) object a.owner).Guarded
          (fun _ e => e.isLoading = false) last := by
        refine (adoptAsset_asks a.owner x.objectKind (x.place a.target) object last).imp ?_
        rintro last' e ⟨-, rfl⟩
        rfl
      exact conforms_bind hadopt.conforms fun _ _ _ => conforms_done rfl
    | .ok none =>
      have hspent : p.Spent := hanswer.resolve_right fun hne => hne rfl
      simp only [Progress.Spent] at hspent
      simp only [hspent]
      exact hinstall p last
  · rw [Progress.Spent, Bool.not_eq_false] at hunspent
    simp only [hunspent, if_true]
    refine ⟨_, rfl, fun loaded last => ?_⟩
    refine (hinstall ⟨loaded.2, true⟩ last).imp (fun _ _ => id) ?_
    intro found hfound
    simp [hfound, Progress.Spent]

/-- Nothing is loaded for an asset if the archive is not to be loaded, or if the object is not found
to be missing. -/
lemma loadFree_ensureAsset {p : Progress} {x : AssetStatus} {t : σ}
    (h : p.Spent ∨ a.sought world x t ≠ .ok none) :
    LoadFree ((a.ensureAsset r p x).log world t) ∧
      ((a.ensureAsset r p x).run world t).1.2 = p := by
  obtain ⟨next, hensure, hnext, -⟩ := a.ensureAsset_next r p x
  have hconforms := hnext (a.sought world x t) none h
  rw [hensure, Program.log_bind, Program.run_bind]
  refine ⟨LoadFree.append ?_ (Effect.loadFree_of_guarded hconforms.guarded world _),
    hconforms.always.run .anything _⟩
  exact fun y hy => List.mem_singleton.mp hy ▸ rfl

/-- If the archive may be loaded and the object is found to be missing, the archive is loaded once,
and it may not be loaded again. -/
lemma loadsOnce_ensureAsset {p : Progress} (hp : ¬ p.Spent) {x : AssetStatus} {t : σ}
    (h : a.sought world x t = .ok none) :
    a.LoadsOnce world r p.usage ((a.ensureAsset r p x).log world t) ∧
      ((a.ensureAsset r p x).run world t).1.2.Spent := by
  obtain ⟨next, hensure, -, hnext⟩ := a.ensureAsset_next r p x
  obtain ⟨rest, hload, hrest⟩ := hnext hp
  rw [hensure, Program.log_bind, Program.run_bind]
  change a.LoadsOnce world r p.usage (_ ++ (next (a.sought world x t)).log world _) ∧
    ((next (a.sought world x t)).run world _).1.2.Spent
  rw [h, hload, Program.log_bind, Program.run_bind, a.log_load world r]
  refine ⟨⟨_, _, _, (List.append_assoc _ _ _).symm, ?_,
    Effect.loadFree_of_guarded (hrest _ none).guarded world _⟩,
    (hrest _ none).always.run .anything _⟩
  exact fun y hy => List.mem_singleton.mp hy ▸ rfl

/-! ## The assets of an archive -/

/-- Nothing is loaded for assets if the archive is not to be loaded. -/
lemma loadFree_ensureAssets {p : Progress} (hp : p.Spent) (l : List AssetStatus) (t : σ) :
    LoadFree ((a.ensureAssets r p l).log world t) := by
  induction l generalizing t with
  | nil => exact Effect.loadFree_nil
  | cons x l ih =>
    obtain ⟨hfree, hsame⟩ := a.loadFree_ensureAsset world r (x := x) (t := t) (Or.inl hp)
    rw [ensureAssets_cons, Program.log_bind, Program.log_bind, hsame]
    exact hfree.append ((ih _).append Effect.loadFree_nil)

/-- If the archive may be loaded, it is loaded for the first asset that is missing, and only
then. -/
theorem loadsIff_ensureAssets {p : Progress} (hp : ¬ p.Spent) (l : List AssetStatus) (t : σ) :
    a.LoadsIff world r p.usage (Misses ((a.ensureAssets r p l).log world t))
      ((a.ensureAssets r p l).log world t) := by
  have hdone : ∀ b : List AssetStatus × Progress, ∀ t' : σ,
      (Program.done b : Pass (List AssetStatus × Progress)).log world t' = [] := fun _ _ => rfl
  induction l generalizing t with
  | nil => exact ⟨fun ⟨look, hlook, _⟩ => (List.not_mem_nil hlook).elim, fun _ =>
      Effect.loadFree_nil⟩
  | cons x l ih =>
    rw [ensureAssets_cons, Program.log_bind, Program.log_bind, hdone, List.append_nil,
      Effect.misses_append]
    have hmisses : Misses ((a.ensureAsset r p x).log world t) ↔ a.sought world x t = .ok none := by
      rw [Misses, (a.lookups_ensureAsset r p x t).1]
      simp
    rw [hmisses]
    by_cases hmissing : a.sought world x t = .ok none
    · obtain ⟨honce, hspent⟩ := a.loadsOnce_ensureAsset world r hp hmissing
      exact ⟨fun _ => honce.append_right (a.loadFree_ensureAssets world r hspent l _),
        fun h => (h (Or.inl hmissing)).elim⟩
    · obtain ⟨hfree, hsame⟩ := a.loadFree_ensureAsset world r (p := p) (Or.inr hmissing)
      rw [hsame, or_iff_right hmissing]
      obtain ⟨honce, hnever⟩ := ih ((a.ensureAsset r p x).run world t).2
      exact ⟨fun h => (honce h).append_left hfree, fun h => hfree.append (hnever h)⟩

lemma log_ensureRecorded (u : Usage) (t : σ) : (a.ensureRecorded r u).log world t =
    (a.ensureAssets r ⟨u, !u.manifests.isEmpty || u.manifestError.isSome⟩
      u.status.activeAssets).log world t := by
  rw [ensureRecorded_eq, Program.log_bind]
  exact List.append_nil _

/-- After an archive was loaded to list its assets it is not loaded for one of them. -/
lemma loadFree_ensureRecorded (u : Usage) (found : List Asset) (t : σ) :
    LoadFree ((a.ensureRecorded r { u with
      manifests := found, manifestError := none
      status := { u.status with
        activeAssets := found.map fun m => m.pending a.target } }).log world t) := by
  rw [log_ensureRecorded]
  cases found with
  | nil => exact Effect.loadFree_nil
  | cons m found =>
    refine a.loadFree_ensureAssets world r ?_ _ t
    rfl

/-- An archive of which nothing was loaded yet is loaded once if none of its assets are recorded, or
if one of them is missing, and else not at all. -/
theorem loadsIff_ensure {u : Usage} (hu : u.Unloaded) (t : σ) :
    a.LoadsIff world r u
      (u.status.activeAssets = [] ∨ Misses ((a.ensure r u).log world t))
      ((a.ensure r u).log world t) := by
  by_cases hempty : u.status.activeAssets = []
  · refine ⟨fun _ => ?_, fun h => (h (Or.inl hempty)).elim⟩
    unfold ensure
    rw [if_pos (by simp [hempty]), Program.log_bind, a.log_load world r]
    have honce : a.LoadsOnce world r u (a.loading world r u t) :=
      ⟨[], t, [], by simp, Effect.loadFree_nil, Effect.loadFree_nil⟩
    refine honce.append_right ?_
    rw [a.run_load r u t]
    cases ((getManifests r u.status.name (a.contextFor r) u.skipCertVerification).run
        world t).1 with
    | error e => exact Effect.loadFree_nil
    | ok found => exact a.loadFree_ensureRecorded world r u found _
  · have hunspent : ¬ Progress.Spent ⟨u, !u.manifests.isEmpty || u.manifestError.isSome⟩ := by
      simp [Progress.Spent, hu.manifests, hu.manifestError]
    unfold ensure
    rw [if_neg (by simpa using hempty), or_iff_right hempty, log_ensureRecorded]
    exact a.loadsIff_ensureAssets world r hunspent _ t

/-! ## A whole pass -/

/-- Nothing is loaded when assets are given up. -/
lemma loadFree_releaseAssets (l : List AssetStatus) (t : σ) :
    LoadFree ((a.releaseAssets l).log world t) := by
  induction l generalizing t with
  | nil => exact Effect.loadFree_nil
  | cons x l ih =>
    have hattempt := a.owner.attempts_deleteAsset world a.target x t
    have hfree : LoadFree ((deleteAsset x a.target a.owner).log world t) := fun y hy =>
      Effect.isLoading_of_isForStore (hattempt.isForStore y hy)
    rw [releaseAssets, Program.log_bind]
    refine hfree.append ?_
    cases ((deleteAsset x a.target a.owner).run world t).1 with
    | error e =>
      simp only
      rw [Program.log_bind]
      exact (ih _).append Effect.loadFree_nil
    | ok outcome =>
      cases h : outcome.isRelease with
      | true =>
        simp only [h, if_true]
        exact List.forall_mem_cons.mpr ⟨rfl, ih _⟩
      | false =>
        simp only [h]
        exact ih _

lemma loadFree_release (u : Usage) (t : σ) : LoadFree ((a.release u).log world t) := by
  rw [release, Program.log_bind]
  exact (a.loadFree_releaseAssets world _ t).append Effect.loadFree_nil

/-- A pass deals with the archives that are not needed, one after the other, and then with those
that are. -/
theorem exists_portions_run (m : UseMap) (t : σ) :
    ∃ portions : List ((Reference × Usage) × List (Exchange Effect.Answer)),
      portions.map Prod.fst = m.toDelete ++ m.toEnsure ∧
      (a.run m).log world t = portions.flatMap Prod.snd ∧
      ∀ r u log, ((r, u), log) ∈ portions → ∃ t', log = (a.seeTo r u).log world t' := by
  obtain ⟨given, seen, hgiven, hseen, hfirst, hlog, -⟩ := a.exists_visits_run world m t
  let portion (x : (Reference × Usage) × σ) :
      (Reference × Usage) × List (Exchange Effect.Answer) :=
    (x.1, (a.seeTo x.1.1 x.1.2).log world x.2)
  have hreleased : given.flatMap (fun x => (a.release x.1.2).log world x.2) =
      given.flatMap fun x => (portion x).2 := by
    refine List.flatMap_congr fun x hx => ?_
    have hu : x.1 ∈ m.toDelete := hgiven ▸ List.mem_map_of_mem hx
    have hneeded : x.1.2.isNeeded = false := by simpa using (List.mem_filter.mp hu).2
    simp [portion, seeTo, hneeded]
  have hensured : seen.flatMap (fun x => (a.ensure x.1.1 x.1.2).log world x.2) =
      seen.flatMap fun x => (portion x).2 := by
    refine List.flatMap_congr fun x hx => ?_
    have hu : x.1 ∈ m.toEnsure := hseen ▸ List.mem_map_of_mem hx
    have hneeded : x.1.2.isNeeded = true := (List.mem_filter.mp hu).2
    simp [portion, seeTo, hneeded]
  refine ⟨(given ++ seen).map portion, ?_, ?_, fun r u log hmem => ?_⟩
  · rw [← hgiven, ← hseen, List.map_map, ← List.map_append]
    rfl
  · rw [hlog, hfirst, hreleased, hensured, ← List.flatMap_append, List.flatMap_map]
  · obtain ⟨⟨_, t'⟩, -, hx⟩ := List.mem_map.mp hmem
    obtain ⟨rfl, rfl⟩ := Prod.mk.inj hx
    exact ⟨t', rfl⟩

/-- Whatever is recorded and asked for, and however the world answers: the exchanges of a pass are
those of its archives, each of which comes up once, first those that are not needed and then the
others.  Nothing is loaded for an archive that is not needed.  An archive that is needed is loaded
once if none of its assets are recorded or one of its look-ups finds no object, whether or not that
succeeds and whatever it yields; else nothing is loaded for it. -/
theorem archive_is_loaded_at_most_once (recorded : List VersionStatus) (desired : List VersionSpec)
    (t : σ) :
    ∃ m, UseMap.build recorded desired = .ok m ∧
      ∃ portions : List ((Reference × Usage) × List (Exchange Effect.Answer)),
        portions.map Prod.fst = m.toDelete ++ m.toEnsure ∧
        (portions.map fun portion => portion.1.1).Nodup ∧
        (a.run m).log world t = portions.flatMap Prod.snd ∧
        ∀ r u log, ((r, u), log) ∈ portions →
          (∃ t', log = (a.seeTo r u).log world t') ∧
          (u.isNeeded = false → LoadFree log) ∧
          (u.isNeeded = true →
            (u.status.activeAssets = [] ∨ Misses log → a.LoadsOnce world r u log) ∧
            (LoadFree log ↔ u.status.activeAssets ≠ [] ∧ ¬ Misses log)) := by
  obtain ⟨m, hm, -⟩ := UseMap.build_eq_ok recorded desired
  obtain ⟨portions, hkeys, hlog, hportions⟩ := a.exists_portions_run world m t
  refine ⟨m, hm, portions, hkeys, ?_, hlog, fun r u log hportion => ?_⟩
  · have hall : (m.toDelete ++ m.toEnsure).Perm m.entries := by
      have hperm := List.filter_append_perm (fun e : Reference × Usage => !e.2.isNeeded) m.entries
      simpa [UseMap.toDelete, UseMap.toEnsure] using hperm
    have hrefs : (portions.map fun portion => portion.1.1) =
        (m.toDelete ++ m.toEnsure).map Prod.fst := by
      rw [← hkeys, List.map_map]
      rfl
    rw [hrefs]
    exact (hall.map Prod.fst).nodup_iff.mpr m.keys_nodup
  · obtain ⟨t', rfl⟩ := hportions r u log hportion
    refine ⟨⟨t', rfl⟩, fun hneeded => ?_, fun hneeded => ?_⟩
    · rw [seeTo, hneeded]
      exact a.loadFree_release world u t'
    · have hmem : (r, u) ∈ m.toDelete ++ m.toEnsure := hkeys ▸ List.mem_map_of_mem hportion
      have hu : m.get? r = some u := by
        rcases List.mem_append.mp hmem with h | h
        · exact (UseMap.mem_toDelete.mp h).1
        · exact (UseMap.mem_toEnsure.mp h).1
      rw [seeTo, if_pos hneeded]
      have hloads := a.loadsIff_ensure world r (UseMap.unloaded_of_build hm hu) t'
      exact ⟨hloads.once, by rw [hloads.loadFree_iff, not_or]⟩

end Activation

end PipelineStacks
