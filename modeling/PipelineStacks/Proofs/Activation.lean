import Mathlib.Data.List.Basic
import PipelineStacks.Pipeline.Activation
import PipelineStacks.Proofs.Decoding
import PipelineStacks.Proofs.SortedMap

/-!
# What a pass leaves in the use map

A record of an asset is about the object under a key (`AssetStatus.keyAt`), whatever is known of
it.  A pass deals with every archive once: it is seen to if it is needed, and else given up
(`get?_run`, and in order `exists_visits_run`).  Whatever the world answers, the books about the
uses of the archive stay as they are (`Usage.Kept`).  Of assets that are given up some are left,
still active (`release_always`); those that are seen to keep their keys
(`ensure_always_of_recorded`); and only when none are recorded the list is made anew from the
archive (`ensure_always_of_empty`).
-/

namespace PipelineStacks

/-! ## What assets are about -/

/-- The key under which the object of a record is kept. -/
def AssetStatus.key (s : AssetStatus) : ObjectKey :=
  ⟨s.objectKind, s.namespaceName, s.name⟩

/-- The key under which the object of an asset is to be kept. -/
def Asset.key (m : Asset) (target : String) : ObjectKey :=
  ⟨m.kind, m.placement target, m.name⟩

/-- The key under which the object of a record is looked for by a pass. -/
def AssetStatus.keyAt (s : AssetStatus) (target : String) : ObjectKey :=
  ⟨s.objectKind, s.place target, s.name⟩

/-- Which asset is kept under a key, wherever that is. -/
def ObjectKey.identity (key : ObjectKey) : String × Kind :=
  (key.name, key.kind)

/-- Which asset a record is about, whatever is known of it. -/
def AssetStatus.identity (s : AssetStatus) : String × Kind :=
  (s.name, s.objectKind)

/-- Which asset was decoded. -/
def Asset.identity (m : Asset) : String × Kind :=
  (m.name, m.kind)

/-- A key tells which asset a record is about. -/
lemma AssetStatus.map_identity (l : List AssetStatus) (target : String) :
    l.map identity = (l.map (·.keyAt target)).map ObjectKey.identity := by
  rw [List.map_map]
  rfl

/-- A key tells which asset was decoded. -/
lemma Asset.map_identity (l : List Asset) (target : String) :
    l.map identity = (l.map (·.key target)).map ObjectKey.identity := by
  rw [List.map_map]
  rfl

/-- The namespace of a pending asset is the one that it goes to. -/
lemma Asset.place_pending (m : Asset) (target : String) :
    (m.pending target).place target = m.placement target := by
  simp only [AssetStatus.place, pending, placement]
  split
  · next hown => rw [if_neg hown.2]
  · exact ite_self target

/-- The record of an asset that was not looked for yet is about the asset. -/
lemma Asset.keyAt_pending (m : Asset) (target : String) :
    (m.pending target).keyAt target = m.key target := by
  rw [AssetStatus.keyAt, m.place_pending]
  rfl

namespace AssetStatus

/-- The record of an asset that was looked for, with what came of it. -/
def found (x : AssetStatus) (target : String) (outcome : AssetState × String) : AssetStatus :=
  ({ x with namespaceName := x.place target } : AssetStatus).set outcome.1 outcome.2

lemma place_found (x : AssetStatus) (target : String) (outcome : AssetState × String) :
    (x.found target outcome).place target = x.place target := by
  unfold place found set place
  split <;> split <;> simp_all

/-- An asset that was looked for is looked for under the same key again. -/
@[simp] lemma keyAt_found (x : AssetStatus) (target : String) (outcome : AssetState × String) :
    (x.found target outcome).keyAt target = x.keyAt target := by
  rw [keyAt, place_found]
  rfl

/-- What came of an asset the last time does not matter. -/
@[simp] lemma found_found (x : AssetStatus) (target : String)
    (outcome outcome' : AssetState × String) :
    (x.found target outcome).found target outcome' = x.found target outcome' := by
  rw [found, place_found]
  rfl

end AssetStatus

/-- The asset whose object may be created under a name, or why there is none. -/
def Asset.offered (manifests : List Asset) (name : String) : Except String Asset :=
  if manifests.isEmpty then .error Activation.manifestsUnavailable
  else
    match manifests.reverse.find? fun m => m.name = name with
    | none => .error ("Asset " ++ name ++ " is not present in the pipeline manifests")
    | some m => if !isAllowedGroup m.kind.group then .error Activation.groupRejected else .ok m

/-- The books about an archive are kept: how often it is used, under which versions it is recorded,
and which archive it is. -/
structure Usage.Kept (u u' : Usage) : Prop where
  useCount : u'.useCount = u.useCount
  statusVersions : u'.statusVersions = u.statusVersions
  reference : Reference.ofStatus u'.status = Reference.ofStatus u.status

namespace Activation

variable {R : (e : Effect) → Effect.Answer e → Prop} (a : Activation) (r : Reference)

/-! ## Giving up -/

/-- Only an active asset can fail to be given up. -/
lemma deleteAsset_always (s : AssetStatus) (target : String) (owner : Owner) :
    (deleteAsset s target owner).Always R fun result =>
      ∀ e, result = .error e → s.state = .active := by
  unfold deleteAsset
  by_cases h : s.state = .active
  · exact Program.always_of_forall fun _ _ _ => h
  · rw [if_pos h]
    rintro e ⟨⟩

/-- The assets that are left are some of those that were to be given up, and still active. -/
theorem releaseAssets_always (l : List AssetStatus) :
    (a.releaseAssets l).Always R fun kept =>
      (kept.map (·.keyAt a.target)).Sublist (l.map (·.keyAt a.target)) ∧
        ∀ x ∈ kept, x.state = .active := by
  induction l with
  | nil => exact ⟨.slnil, fun x hx => (List.not_mem_nil hx).elim⟩
  | cons s l ih =>
    have hgone : (a.releaseAssets l).Always R fun kept =>
        (kept.map (·.keyAt a.target)).Sublist ((s :: l).map (·.keyAt a.target)) ∧
          ∀ x ∈ kept, x.state = .active :=
      ih.imp fun kept hkept => ⟨hkept.1.cons _, hkept.2⟩
    unfold releaseAssets
    refine Program.always_bind.mpr ((deleteAsset_always s a.target a.owner).imp ?_)
    intro result hresult
    cases result with
    | ok outcome =>
      by_cases h : outcome.isRelease
      · simp only [h, if_true]
        exact Program.always_bind.mpr fun _ _ => hgone
      · simp only [h]
        exact hgone
    | error e =>
      refine Program.always_bind.mpr (ih.imp fun kept hkept => ⟨hkept.1.cons_cons _, ?_⟩)
      intro x hx
      rcases List.mem_cons.mp hx with rfl | hx
      · exact hresult e rfl
      · exact hkept.2 x hx

/-- An archive that is given up is left with some of its assets, still active. -/
theorem release_always (u : Usage) :
    (a.release u).Always R fun u' => u.Kept u' ∧
      (u'.status.activeAssets.map (·.keyAt a.target)).Sublist
        (u.status.activeAssets.map (·.keyAt a.target)) ∧
      ∀ x ∈ u'.status.activeAssets, x.state = .active :=
  Program.always_bind.mpr ((a.releaseAssets_always u.status.activeAssets).imp fun _ hkept =>
    ⟨⟨rfl, rfl, rfl⟩, hkept⟩)

/-! ## Seeing to assets -/

/-- Loading changes only what is known of the decoded assets. -/
lemma load_always (u : Usage) :
    (a.load r u).Always R fun loaded => ∃ manifests manifestError,
      loaded.2 = { u with manifests, manifestError } := by
  refine Program.always_bind.mpr (Program.always_of_forall fun result => ?_)
  cases result with
  | error e => exact ⟨u.manifests, some e, rfl⟩
  | ok manifests => exact ⟨manifests, none, rfl⟩

/-- To install an asset is to create what is offered. -/
lemma install_eq (u : Usage) (s : AssetStatus) :
    a.install u s = (match Asset.offered u.manifests s.name with
      | .error message => fail s message
      | .ok m => do
        match ← createAsset m s.namespaceName a.owner with
        | .ok () =>
          Pass.count .assetsApplied
          return s.set .active ""
        | .error e => fail s e.message) := by
  unfold install Asset.offered
  by_cases hempty : u.manifests.isEmpty
  · simp only [hempty, if_true]
  · simp only [hempty, Bool.false_eq_true, if_false]
    cases u.manifests.reverse.find? fun m => m.name = s.name with
    | none => rfl
    | some m =>
      simp only
      cases Asset.isAllowedGroup m.kind.group <;> rfl

/-- When the object of an asset is created, what came of it is recorded. -/
lemma install_always (u : Usage) (s : AssetStatus) :
    (a.install u s).Always R fun s' => ∃ outcome : AssetState × String,
      s' = s.set outcome.1 outcome.2 := by
  have hfail : ∀ message, (fail s message).Always R fun s' => ∃ outcome : AssetState × String,
      s' = s.set outcome.1 outcome.2 := fun message _ _ => ⟨(.failed, message), rfl⟩
  rw [install_eq]
  cases Asset.offered u.manifests s.name with
  | error message => exact hfail message
  | ok m =>
    refine Program.always_bind.mpr (Program.always_of_forall fun result => ?_)
    cases result with
    | ok => exact Program.always_bind.mpr fun _ _ => ⟨(.active, ""), rfl⟩
    | error e => exact hfail _

/-- When an asset is seen to, what came of it is recorded, and at most the archive is loaded. -/
lemma ensureAsset_always (p : Progress) (s : AssetStatus) :
    (a.ensureAsset r p s).Always R fun found =>
      (∃ outcome, found.1 = s.found a.target outcome) ∧
      ∃ manifests manifestError, found.2.usage = { p.usage with manifests, manifestError } := by
  have hsame : ∃ manifests manifestError,
      p.usage = { p.usage with manifests, manifestError } := ⟨_, _, rfl⟩
  unfold ensureAsset
  refine Program.always_bind.mpr (Program.always_of_forall fun result => ?_)
  match result with
  | .error e => exact ⟨⟨(.unknown, _), rfl⟩, hsame⟩
  | .ok (some object) =>
    exact Program.always_bind.mpr (Program.always_of_forall fun _ =>
      ⟨⟨(.active, ""), rfl⟩, hsame⟩)
  | .ok none =>
    have hinstall : ∀ p' : Progress, (∃ manifests manifestError,
        p'.usage = { p.usage with manifests, manifestError }) →
        (do return (← a.install p'.usage { s with namespaceName := s.place a.target }, p') :
          Pass (AssetStatus × Progress)).Always R fun found =>
            (∃ outcome, found.1 = s.found a.target outcome) ∧ ∃ manifests manifestError,
              found.2.usage = { p.usage with manifests, manifestError } := fun p' hp' =>
      Program.always_bind.mpr ((a.install_always p'.usage _).imp fun s' hs' => ⟨hs', hp'⟩)
    by_cases h : p.usage.manifests.isEmpty && !p.attempted
    · simp only [h, if_true]
      rw [Program.always_bind]
      exact (a.load_always r p.usage).imp fun loaded hloaded => hinstall ⟨loaded.2, true⟩ hloaded
    · simp only [h]
      exact hinstall p hsame

/-- Assets keep their keys when they are seen to. -/
theorem ensureAssets_always (p : Progress) (l : List AssetStatus) :
    (a.ensureAssets r p l).Always R fun found =>
      found.1.map (·.keyAt a.target) = l.map (·.keyAt a.target) ∧
        ∃ manifests manifestError, found.2.usage = { p.usage with manifests, manifestError } := by
  induction l generalizing p with
  | nil => exact ⟨rfl, _, _, rfl⟩
  | cons s l ih =>
    unfold ensureAssets
    refine Program.always_bind.mpr ((a.ensureAsset_always r p s).imp ?_)
    rintro ⟨s', p'⟩ ⟨⟨outcome, hs'⟩, manifests, manifestError, hp'⟩
    obtain rfl : s' = s.found a.target outcome := hs'
    refine Program.always_bind.mpr ((ih p').imp ?_)
    rintro ⟨l', p''⟩ ⟨hl', manifests', manifestError', hp''⟩
    refine ⟨?_, manifests', manifestError', by rw [hp'', hp']⟩
    rw [List.map_cons, List.map_cons, AssetStatus.keyAt_found, hl']

/-- The recorded assets of an archive keep their keys. -/
lemma ensureRecorded_always (u : Usage) :
    (a.ensureRecorded r u).Always R fun u' => u.Kept u' ∧
      u'.status.activeAssets.map (·.keyAt a.target) =
        u.status.activeAssets.map (·.keyAt a.target) := by
  unfold ensureRecorded
  refine Program.always_bind.mpr ((a.ensureAssets_always r _ u.status.activeAssets).imp ?_)
  rintro ⟨l', p⟩ ⟨hl', manifests, manifestError, hp⟩
  refine ⟨⟨?_, ?_, rfl⟩, hl'⟩ <;> rw [hp]

/-- Assets that are recorded are seen to as they are recorded. -/
theorem ensure_always_of_recorded {u : Usage} (h : u.status.activeAssets ≠ []) :
    (a.ensure r u).Always R fun u' => u.Kept u' ∧
      u'.status.activeAssets.map (·.keyAt a.target) =
        u.status.activeAssets.map (·.keyAt a.target) := by
  unfold ensure
  rw [if_neg (by simpa using h)]
  exact a.ensureRecorded_always r u

/-- If no assets are recorded, they are those that were loaded; what can be said of the loading is
said of it. -/
theorem ensure_always_of_empty {u : Usage} (h : u.status.activeAssets = [])
    {P : Except PipelineError (List Asset) → Prop}
    (hP : (getManifests r u.status.name (a.contextFor r) u.skipCertVerification).Always R P) :
    (a.ensure r u).Always R fun u' => u.Kept u' ∧ ∃ result, P result ∧
      u'.status.activeAssets.map (·.keyAt a.target) =
        match result with
        | .ok found => found.map (·.key a.target)
        | .error _ => [] := by
  unfold ensure load
  rw [if_pos (by simp [h])]
  refine Program.always_bind.mpr (Program.always_bind.mpr (hP.imp fun result hresult => ?_))
  cases result with
  | error e => exact ⟨⟨rfl, rfl, rfl⟩, _, hresult, by simp [h]⟩
  | ok found =>
    refine (a.ensureRecorded_always r _).imp ?_
    rintro u' ⟨hkept, hassets⟩
    refine ⟨⟨hkept.useCount, hkept.statusVersions, hkept.reference⟩, _, hresult, ?_⟩
    rw [hassets, List.map_map]
    exact List.map_congr_left fun m _ => m.keyAt_pending a.target

/-- The books are kept when an archive is seen to. -/
lemma ensure_always_kept (u : Usage) : (a.ensure r u).Always R fun u' => u.Kept u' := by
  by_cases h : u.status.activeAssets = []
  · exact (a.ensure_always_of_empty r h (Program.always_of_forall fun _ => trivial)).imp
      fun _ hu' => hu'.1
  · exact (a.ensure_always_of_recorded r h).imp fun _ hu' => hu'.1

/-! ## A whole pass -/

/-- The first round of a pass: what is not needed is given up. -/
def giveUp (m : UseMap) : Pass UseMap :=
  m.traverse fun _ u => if u.isNeeded then return u else a.release u

/-- The second round of a pass: what is needed is seen to. -/
def seeToAll (m : UseMap) : Pass UseMap :=
  m.traverse fun r u => if u.isNeeded then a.ensure r u else return u

lemma run_eq (m : UseMap) : a.run m = a.giveUp m >>= a.seeToAll := rfl

/-- If every archive is needed, nothing is given up. -/
lemma run_giveUp_of_needed {σ : Type} (world : Program.World Effect.Answer σ) {m : UseMap}
    (h : ∀ e ∈ m.entries, e.2.isNeeded) (t : σ) : (a.giveUp m).run world t = (m, t) :=
  SortedMap.run_traverse_done world (fun e he => by rw [if_pos (h e he)]; rfl) t

/-- What a pass does with one archive. -/
def seeTo (u : Usage) : Pass Usage :=
  if u.isNeeded then a.ensure r u else a.release u

/-- Every archive is dealt with once. -/
theorem get?_run {σ : Type} (world : Program.World Effect.Answer σ) (m : UseMap) (t : σ) :
    ∃ t', ((a.run m).run world t).1.get? r =
      (m.get? r).map fun u => ((a.seeTo r u).run world t').1 := by
  rw [run_eq, Program.run_bind]
  obtain ⟨t₁, h₁⟩ : ∃ t₁, ((a.giveUp m).run world t).1.get? r = _ :=
    SortedMap.get?_run_traverse world m
      (fun _ u => if u.isNeeded then return u else a.release u) t r
  obtain ⟨t₂, h₂⟩ : ∃ t₂, ((a.seeToAll ((a.giveUp m).run world t).1).run world
      ((a.giveUp m).run world t).2).1.get? r = _ :=
    SortedMap.get?_run_traverse world _
      (fun r u => if u.isNeeded then a.ensure r u else return u) _ r
  rw [h₂, h₁]
  cases hu : m.get? r with
  | none => exact ⟨t, rfl⟩
  | some u =>
    by_cases hneeded : u.isNeeded
    · exact ⟨t₂, by simp [seeTo, hneeded]⟩
    · -- the archive counts as unneeded after it was given up as before
      have hkept : u.Kept ((a.release u).run world t₁).1 :=
        ((a.release_always u).run .anything t₁).1
      have hstill : ¬ ((a.release u).run world t₁).1.isNeeded := by
        rwa [Usage.isNeeded, hkept.useCount]
      exact ⟨t₁, by simp [seeTo, hneeded, hstill]⟩

/-- A pass gives up the archives that are not needed, one after the other, and then sees to those
that are, one after the other.  It leaves what these visits come to. -/
theorem exists_visits_run {σ : Type} (world : Program.World Effect.Answer σ) (m : UseMap) (t : σ) :
    ∃ given seen : List ((Reference × Usage) × σ),
      given.map Prod.fst = m.toDelete ∧ seen.map Prod.fst = m.toEnsure ∧
      (a.giveUp m).log world t = given.flatMap (fun x => (a.release x.1.2).log world x.2) ∧
      (a.run m).log world t = (a.giveUp m).log world t ++
        seen.flatMap (fun x => (a.ensure x.1.1 x.1.2).log world x.2) ∧
      ((a.run m).run world t).1.toDelete =
        given.map (fun x => (x.1.1, ((a.release x.1.2).run world x.2).1)) ∧
      ((a.run m).run world t).1.toEnsure =
        seen.map (fun x => (x.1.1, ((a.ensure x.1.1 x.1.2).run world x.2).1)) := by
  obtain ⟨given, hgiven, hfirst, hreleased, huntouched⟩ :=
    SortedMap.exists_visits_traverse world m
      (f := fun _ u => if u.isNeeded then return u else a.release u) (g := fun _ u => a.release u)
      (p := fun e => !e.2.isNeeded) (fun _ u => by cases u.isNeeded <;> rfl)
      (fun _ u t' hu => by
        have hkept : u.Kept ((a.release u).run world t').1 :=
          ((a.release_always u).run .anything t').1
        rwa [Usage.isNeeded, hkept.useCount]) t
  obtain ⟨seen, hseen, hsecond, hensured, hleft⟩ :=
    SortedMap.exists_visits_traverse world ((a.giveUp m).run world t).1
      (f := fun r u => if u.isNeeded then a.ensure r u else return u) (g := a.ensure)
      (p := fun e => e.2.isNeeded) (fun _ _ => rfl)
      (fun r u t' hu => by
        have hkept : u.Kept ((a.ensure r u).run world t').1 :=
          (a.ensure_always_kept r u).run .anything t'
        rwa [Usage.isNeeded, hkept.useCount]) ((a.giveUp m).run world t).2
  -- the first round leaves the archives alone that are needed
  have hneeded : ((a.giveUp m).run world t).1.toEnsure = m.toEnsure := by
    simp only [Bool.not_not] at huntouched
    exact huntouched
  refine ⟨given, seen, hgiven, hseen.trans hneeded, hfirst, ?_, ?_, ?_⟩
  · rw [run_eq, Program.log_bind]
    exact congrArg (_ ++ ·) hsecond
  · rw [run_eq, Program.run_bind]
    exact hleft.trans hreleased
  · rw [run_eq, Program.run_bind]
    exact hensured

variable {a} in
/-- What can be said of every archive that a pass deals with can be said of the map after it. -/
theorem run_forall {σ : Type} {world : Program.World Effect.Answer σ} (hworld : world.Admits R)
    {m : UseMap} {Q : Reference → Usage → Usage → Prop}
    (hQ : ∀ r u, m.get? r = some u → (a.seeTo r u).Always R (Q r u)) (t : σ)
    {r : Reference} {u' : Usage} (hu' : ((a.run m).run world t).1.get? r = some u') :
    ∃ u, m.get? r = some u ∧ Q r u u' := by
  obtain ⟨t', h⟩ := a.get?_run r world m t
  rw [h, Option.map_eq_some_iff] at hu'
  obtain ⟨u, hu, rfl⟩ := hu'
  exact ⟨u, hu, (hQ r u hu).run hworld t'⟩

end Activation

end PipelineStacks
