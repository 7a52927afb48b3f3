import PipelineStacks.Proofs.Conduct
import PipelineStacks.Proofs.Recorded

/-!
# What fails stops nothing

A stack without namespace, name or uid can own nothing, and a pass over it is refused before
anything is asked.  A pass over any other stack comes to a status, whatever fails on the way
(`reconcileActiveVersions_fails_iff_nameless`).

When the assets of an archive are seen to, each of them is looked up once and in turn
(`Effect.lookups`).  Its record tells what came of that (`AssetStatus.Tells`) and is the same as
before in all but an empty namespace (`AssetStatus.SameAsset`).  The lemmas follow the programs: one
for a single asset, one for a list of them by induction, and `ensure_settles_every_asset_once` for
the archive.
-/

namespace PipelineStacks

open Program (Exchange conforms_bind conforms_done guarded_bind guarded_done)

/-! ## The look-ups of a run -/

namespace Effect

/-- The key of a look-up, with the answer to it. -/
def lookup? : Exchange Effect.Answer → Option (ObjectKey × Except Failure (Option Object))
  | ⟨.get kind ns name, answer⟩ => some (⟨kind, ns, name⟩, answer)
  | _ => none

/-- The look-ups among some exchanges, in order. -/
def lookups (log : List (Exchange Effect.Answer)) :
    List (ObjectKey × Except Failure (Option Object)) :=
  log.filterMap lookup?

lemma lookups_append (log log' : List (Exchange Effect.Answer)) :
    lookups (log ++ log') = lookups log ++ lookups log' :=
  List.filterMap_append

lemma lookup?_of_not_look {x : Exchange Effect.Answer} (h : x.1.isLook = false) :
    lookup? x = none := by
  obtain ⟨e, answer⟩ := x
  cases e with
  | get => cases h
  | _ => rfl

/-- What a look-up is read off from. -/
lemma eq_of_lookup? {x : Exchange Effect.Answer}
    {look : ObjectKey × Except Failure (Option Object)} (h : lookup? x = some look) :
    x.1 = .get look.1.kind look.1.inNamespace look.1.name := by
  obtain ⟨e, answer⟩ := x
  cases e with
  | get =>
    cases h
    rfl
  | _ => cases h

variable {α β σ : Type} {p : Pass α} {last : Option (Exchange Effect.Answer)}

/-- A program that is not to look anything up makes no look-ups. -/
lemma lookups_log_of_guarded (h : p.Guarded (fun _ e => e.isLook = false) last)
    (world : Program.World Effect.Answer σ) (t : σ) : lookups (p.log world t) = [] :=
  List.filterMap_eq_nil_iff.mpr fun _ hx =>
    lookup?_of_not_look (h.of_mem_log (Q := fun e => e.isLook = false) (fun _ _ => id) hx)

/-- If only the first part of a sequence looks anything up, its look-ups are those of that part. -/
lemma lookups_log_bind {k : α → Pass β}
    (h : ∀ a last', (k a).Guarded (fun _ e => e.isLook = false) last')
    (world : Program.World Effect.Answer σ) (t : σ) :
    lookups ((p >>= k).log world t) = lookups (p.log world t) := by
  rw [Program.log_bind, lookups_append, lookups_log_of_guarded (h _ none), List.append_nil]

/-- If the first part of a sequence looks nothing up, its look-ups are those of the second part. -/
lemma lookups_log_bind_of_guarded {k : α → Pass β}
    (h : p.Guarded (fun _ e => e.isLook = false) none) (world : Program.World Effect.Answer σ)
    (t : σ) : lookups ((p >>= k).log world t) =
      lookups ((k (p.run world t).1).log world (p.run world t).2) := by
  rw [Program.log_bind, lookups_append, lookups_log_of_guarded h, List.nil_append]

end Effect

/-! ## What a record tells -/

namespace AssetStatus

/-- The second record is about the asset of the first, with an empty namespace filled in. -/
structure SameAsset (target : String) (x y : AssetStatus) : Prop where
  name : y.name = x.name
  group : y.group = x.group
  version : y.version = x.version
  kind : y.kind = x.kind
  digest : y.digest = x.digest
  namespaceName : y.namespaceName = if x.namespaceName = "" then target else x.namespaceName

lemma sameAsset_found (x : AssetStatus) (target : String) (outcome : AssetState × String) :
    x.SameAsset target (x.found target outcome) :=
  ⟨rfl, rfl, rfl, rfl, rfl, rfl⟩

/-- An asset is looked for under the same key again. -/
lemma SameAsset.keyAt {target : String} {x y : AssetStatus} (h : x.SameAsset target y) :
    y.keyAt target = x.keyAt target := by
  have hplace : y.place target = x.place target := by
    unfold place
    rw [h.namespaceName]
    split <;> simp_all
  rw [AssetStatus.keyAt, AssetStatus.keyAt, objectKind, objectKind, h.group, h.version, h.kind,
    h.name, hplace]

/-- The record tells what came of a look-up and of what was done after it: a failure is recorded
with its reason, an object that was found is active, and one that was not is active or failed. -/
def Tells (y : AssetStatus) : Except Failure (Option Object) → Prop
  | .error e => y.state = .unknown ∧ y.message = some ("Unable to check asset: " ++ e.message)
  | .ok (some _) => y.state = .active ∧ y.message = none
  | .ok none => y.state = .active ∧ y.message = none ∨ y.state = .failed

/-- Only a failed look-up leaves the state of an asset unknown. -/
lemma Tells.unknown_iff {y : AssetStatus} {answer : Except Failure (Option Object)}
    (h : y.Tells answer) : y.state = .unknown ↔ ∃ e, answer = .error e := by
  match answer, h with
  | .error e, h => exact ⟨fun _ => ⟨e, rfl⟩, fun _ => h.1⟩
  | .ok (some _), h => simp [h.1]
  | .ok none, h => rcases h with ⟨h, -⟩ | h <;> simp [h]

/-- A record of a failed look-up tells of it. -/
lemma tells_of_failure (x : AssetStatus) (target : String) (e : Failure) :
    (x.found target (.unknown, "Unable to check asset: " ++ e.message)).Tells (.error e) := by
  have hreason : "Unable to check asset: " ++ e.message ≠ "" := by simp
  refine ⟨rfl, ?_⟩
  change (if "Unable to check asset: " ++ e.message = "" then none else some _) = _
  rw [if_neg hreason]

/-- Recorded assets were looked up one after the other, and what is left of their records tells what
came of that. -/
structure Settled (target : String) (l : List AssetStatus)
    (looked : List (ObjectKey × Except Failure (Option Object))) (settled : List AssetStatus) :
    Prop where
  /-- Each asset was looked up once and in turn, under its own key. -/
  keys : looked.map Prod.fst = l.map (·.keyAt target)
  same : l.Forall₂ (SameAsset target) settled
  told : looked.Forall₂ (fun look y => y.Tells look.2) settled

lemma Settled.cons {target : String} {x y : AssetStatus} {answer : Except Failure (Option Object)}
    {l settled : List AssetStatus} {looked : List (ObjectKey × Except Failure (Option Object))}
    (hsame : x.SameAsset target y) (htells : y.Tells answer) (h : Settled target l looked settled) :
    Settled target (x :: l) ((x.keyAt target, answer) :: looked) (y :: settled) :=
  ⟨congrArg _ h.keys, .cons hsame h.same, .cons htells h.told⟩

end AssetStatus

namespace Activation

variable {R : (e : Effect) → Effect.Answer e → Prop} {σ : Type}
  {world : Program.World Effect.Answer σ} (a : Activation) (r : Reference)

/-! ## One asset -/

/-- To load an archive looks nothing up. -/
lemma load_guarded (u : Usage) {last : Option (Exchange Effect.Answer)} :
    (a.load r u).Guarded (fun _ e => e.isLook = false) last := by
  refine guarded_bind (getManifests_guarded (fun _ _ => rfl) (fun _ _ _ => rfl) _ _ _ _)
    fun result _ => ?_
  cases result <;> exact guarded_done _

/-- After its creation was tried an asset is active or failed. -/
lemma install_tells (u : Usage) (s : AssetStatus) :
    (a.install u s).Always R fun s' => s'.Tells (.ok none) := by
  have hfail : ∀ message, (fail s message).Always R fun s' => s'.Tells (.ok none) :=
    fun message _ _ => Or.inr rfl
  rw [install_eq]
  cases Asset.offered u.manifests s.name with
  | error message => exact hfail message
  | ok m =>
    refine Program.always_bind.mpr (Program.always_of_forall fun result => ?_)
    cases result with
    | ok => exact Program.always_bind.mpr fun _ _ => Or.inl ⟨rfl, rfl⟩
    | error e => exact hfail _

/-- An asset is first looked up under its own key.  Behind that nothing is looked up, and what is
left of the record tells what was answered. -/
theorem ensureAsset_look (p : Progress) (x : AssetStatus) :
    ∃ next, a.ensureAsset r p x = Pass.get x.objectKind (x.place a.target) x.name >>= next ∧
      ∀ answer last, (next answer).Conforms (fun _ _ => True) (fun _ e => e.isLook = false)
        (fun found => x.SameAsset a.target found.1 ∧ found.1.Tells answer) last := by
  refine ⟨_, rfl, fun answer last => ?_⟩
  match answer with
  | .error e =>
    exact conforms_done ⟨x.sameAsset_found a.target (.unknown, _), x.tells_of_failure a.target e⟩
  | .ok (some object) =>
    have hadopt : (adoptAsset x.objectKind (x.place a.target) object a.owner).Guarded
        (fun _ e => e.isLook = false) last := by
      refine (adoptAsset_asks a.owner x.objectKind (x.place a.target) object last).imp ?_
      rintro last' e ⟨-, rfl⟩
      rfl
    exact conforms_bind hadopt.conforms fun _ _ _ =>
      conforms_done ⟨x.sameAsset_found a.target (.active, ""), rfl, rfl⟩
  | .ok none =>
    have hinstall : ∀ (p' : Progress) (last' : Option (Exchange Effect.Answer)),
        (do return (← a.install p'.usage { x with namespaceName := x.place a.target }, p') :
          Pass (AssetStatus × Progress)).Conforms (fun _ _ => True) (fun _ e => e.isLook = false)
            (fun found => x.SameAsset a.target found.1 ∧ found.1.Tells (.ok none)) last' := by
      intro p' last'
      have hasks : (a.install p'.usage { x with namespaceName := x.place a.target }).Guarded
          (fun _ e => e.isLook = false) last' :=
        install_guarded (G := fun _ e => e.isLook = false) (fun _ => rfl) (fun _ => rfl)
          fun _ _ _ => rfl
      refine conforms_bind ((hasks.conforms.and_always (a.install_always _ _)).and_always
        (a.install_tells _ _)) ?_
      rintro s' ⟨⟨-, outcome, rfl⟩, htells⟩ last''
      exact conforms_done ⟨x.sameAsset_found a.target outcome, htells⟩
    by_cases h : p.usage.manifests.isEmpty && !p.attempted
    · simp only [h, if_true]
      exact conforms_bind (a.load_guarded r p.usage).conforms fun loaded _ _ =>
        hinstall ⟨loaded.2, true⟩ _
    · simp only [h]
      exact hinstall p _

/-- The answer to the look-up of an asset. -/
abbrev sought (world : Program.World Effect.Answer σ) (x : AssetStatus) (t : σ) :
    Except Failure (Option Object) :=
  (world (.get x.objectKind (x.place a.target) x.name) t).1

/-- An asset is looked up once, and its record tells what came of it. -/
lemma lookups_ensureAsset (p : Progress) (x : AssetStatus) (t : σ) :
    Effect.lookups ((a.ensureAsset r p x).log world t) =
        [(x.keyAt a.target, a.sought world x t)] ∧
      x.SameAsset a.target ((a.ensureAsset r p x).run world t).1.1 ∧
      ((a.ensureAsset r p x).run world t).1.1.Tells (a.sought world x t) := by
  obtain ⟨next, hensure, hnext⟩ := a.ensureAsset_look r p x
  rw [hensure, Effect.lookups_log_bind fun answer last => (hnext answer last).guarded,
    Program.run_bind]
  exact ⟨rfl, (hnext _ none).always.run .anything _⟩

/-! ## The assets of an archive -/

lemma ensureAssets_cons (p : Progress) (x : AssetStatus) (l : List AssetStatus) :
    a.ensureAssets r p (x :: l) = a.ensureAsset r p x >>= fun found =>
      a.ensureAssets r found.2 l >>= fun rest => .done (found.1 :: rest.1, rest.2) := rfl

/-- Assets are settled in turn. -/
theorem settled_ensureAssets (p : Progress) (l : List AssetStatus) (t : σ) :
    AssetStatus.Settled a.target l (Effect.lookups ((a.ensureAssets r p l).log world t))
      ((a.ensureAssets r p l).run world t).1.1 := by
  induction l generalizing p t with
  | nil => exact ⟨rfl, .nil, .nil⟩
  | cons x l ih =>
    obtain ⟨hlook, hsame, htells⟩ := a.lookups_ensureAsset r p x t
    rw [ensureAssets_cons, Program.log_bind, Effect.lookups_append, hlook,
      Effect.lookups_log_bind fun _ _ => guarded_done _, Program.run_bind, Program.run_bind]
    exact (ih _ _).cons hsame htells

lemma ensureRecorded_eq (u : Usage) : a.ensureRecorded r u =
    a.ensureAssets r ⟨u, !u.manifests.isEmpty || u.manifestError.isSome⟩ u.status.activeAssets >>=
      fun found => .done { found.2.usage with
        status := { u.status with activeAssets := found.1 } } :=
  rfl

lemma settled_ensureRecorded (u : Usage) (t : σ) :
    AssetStatus.Settled a.target u.status.activeAssets
      (Effect.lookups ((a.ensureRecorded r u).log world t))
      ((a.ensureRecorded r u).run world t).1.status.activeAssets := by
  rw [ensureRecorded_eq, Effect.lookups_log_bind fun _ _ => guarded_done _, Program.run_bind]
  exact a.settled_ensureAssets r _ u.status.activeAssets t

/-- What is known of an archive after it was loaded. -/
lemma run_load (u : Usage) (t : σ) : ((a.load r u).run world t).1 =
    match ((getManifests r u.status.name (a.contextFor r) u.skipCertVerification).run
      world t).1 with
    | .ok manifests => (true, { u with manifests, manifestError := none })
    | .error e => (false, { u with manifestError := some e }) := by
  unfold load
  rw [Program.run_bind]
  cases ((getManifests r u.status.name (a.contextFor r) u.skipCertVerification).run world t).1 <;>
    rfl

end Activation

/-- The records of an archive before its assets are seen to: those that are there, or if none is,
those of the assets that were loaded. -/
def Usage.begun (u : Usage) (target : String) (loaded : Except PipelineError (List Asset)) :
    List AssetStatus :=
  if u.status.activeAssets = [] then
    match loaded with
    | .ok found => found.map (·.pending target)
    | .error _ => []
  else u.status.activeAssets

lemma Usage.begun_of_recorded {u : Usage} (h : u.status.activeAssets ≠ []) (target : String)
    (loaded : Except PipelineError (List Asset)) :
    u.begun target loaded = u.status.activeAssets :=
  if_neg h

namespace Activation

variable {σ : Type} (world : Program.World Effect.Answer σ) (a : Activation) (r : Reference)

/-- What is there of an archive, or else what is loaded of it, is settled in turn. -/
theorem settled_ensure (u : Usage) (t : σ) :
    AssetStatus.Settled a.target
      (u.begun a.target
        ((getManifests r u.status.name (a.contextFor r) u.skipCertVerification).run world t).1)
      (Effect.lookups ((a.ensure r u).log world t))
      ((a.ensure r u).run world t).1.status.activeAssets := by
  unfold ensure
  by_cases hempty : u.status.activeAssets = []
  · rw [Usage.begun.eq_def, if_pos hempty, if_pos (by simp [hempty]),
      Effect.lookups_log_bind_of_guarded (a.load_guarded r u), Program.run_bind, a.run_load r u t]
    cases ((getManifests r u.status.name (a.contextFor r) u.skipCertVerification).run
        world t).1 with
    | error e =>
      change AssetStatus.Settled a.target [] [] u.status.activeAssets
      rw [hempty]
      exact ⟨rfl, .nil, .nil⟩
    | ok found =>
      let begun := found.map fun m => m.pending a.target
      exact a.settled_ensureRecorded r { u with
        manifests := found, manifestError := none
        status := { u.status with activeAssets := begun } } _
  · rw [Usage.begun_of_recorded hempty, if_neg (by simpa using hempty)]
    exact a.settled_ensureRecorded r u t

/-- What is recorded of an archive is looked up. -/
lemma asksFor_ensure {u : Usage} {x : AssetStatus} (hx : x ∈ u.status.activeAssets) :
    (a.ensure r u).AsksFor world fun e => e = .get x.objectKind (x.place a.target) x.name := by
  intro t
  have hkeys := (a.settled_ensure world r u t).keys
  rw [Usage.begun_of_recorded (List.ne_nil_of_mem hx)] at hkeys
  obtain ⟨look, hlook, hkey⟩ := List.mem_map.mp (hkeys ▸ List.mem_map_of_mem hx)
  obtain ⟨y, hy, hlook⟩ := List.mem_filterMap.mp hlook
  refine ⟨y, hy, ?_⟩
  rw [Effect.eq_of_lookup? hlook, hkey]
  rfl

/-- Nothing is deleted when the assets of an archive are seen to. -/
lemma not_delete_of_mem_log_ensure {u : Usage} {t : σ} {x : Exchange Effect.Answer}
    (hx : x ∈ (a.ensure r u).log world t) (kind : Kind) (ns name : String) :
    x.1 ≠ .delete kind ns name := by
  have hensure : (a.ensure r u).Guarded (Scope.unbounded a fun _ _ => True).Permits none :=
    (ensure_conforms (Scope.covers_unbounded u)).guarded
  refine hensure.of_mem_log (Q := fun e => e ≠ .delete kind ns name) ?_ hx
  rintro last e he rfl
  exact he

/-- Every asset of an archive is settled once.  However the world answers, the assets that are
recorded, or if none is those that were loaded, are looked up one after the other, each under its
own key.  A record is left of each in the same order, which is unknown exactly if the look-up failed
and else active or failed; and nothing is deleted. -/
theorem ensure_settles_every_asset_once (u : Usage) (t : σ) :
    let loaded := ((getManifests r u.status.name (a.contextFor r) u.skipCertVerification).run
      world t).1
    let looked := Effect.lookups ((a.ensure r u).log world t)
    let settled := ((a.ensure r u).run world t).1.status.activeAssets
    looked.map Prod.fst = (u.begun a.target loaded).map (·.keyAt a.target) ∧
      (u.begun a.target loaded).Forall₂ (AssetStatus.SameAsset a.target) settled ∧
      looked.Forall₂ (fun look y => y.Tells look.2 ∧
        (y.state = .unknown ↔ ∃ e, look.2 = .error e)) settled ∧
      ∀ x ∈ (a.ensure r u).log world t, ∀ kind ns name, x.1 ≠ .delete kind ns name := by
  intro loaded looked settled
  have hsettled := a.settled_ensure world r u t
  have htold : looked.Forall₂ (fun look y => y.Tells look.2 ∧
      (y.state = .unknown ↔ ∃ e, look.2 = .error e)) settled :=
    hsettled.told.imp fun _ _ htells => ⟨htells, htells.unknown_iff⟩
  exact ⟨hsettled.keys, hsettled.same, htold, fun x hx =>
    a.not_delete_of_mem_log_ensure world r hx⟩

end Activation

/-! ## A pass that fails as a whole -/

namespace Stack

variable {s : Stack}

/-- A stack that lacks a namespace, a name or a uid can own nothing, and only such a stack. -/
lemma activation_eq_error_iff : (∃ e, s.activation = .error e) ↔
    s.metadata.namespaceName = none ∨ s.metadata.name = none ∨ s.metadata.uid = none := by
  unfold activation ownerReference?
  cases s.metadata.namespaceName <;> cases s.metadata.name <;> cases s.metadata.uid <;> simp

/-- A pass fails as a whole exactly if the stack lacks a namespace, a name or a uid.  It then asks
nothing and leaves the world as it is; in every other case it comes to a status, whatever the world
answers. -/
theorem reconcileActiveVersions_fails_iff_nameless (s : Stack) {σ : Type}
    (world : Program.World Effect.Answer σ) (t : σ) :
    ((∃ e, (s.reconcileActiveVersions.run world t).1 = .error e) ↔
      s.metadata.namespaceName = none ∨ s.metadata.name = none ∨ s.metadata.uid = none) ∧
    ((∃ e, (s.reconcileActiveVersions.run world t).1 = .error e) →
      s.reconcileActiveVersions.log world t = [] ∧
        (s.reconcileActiveVersions.run world t).2 = t) ∧
    (¬ (s.metadata.namespaceName = none ∨ s.metadata.name = none ∨ s.metadata.uid = none) →
      ∃ status, (s.reconcileActiveVersions.run world t).1 = .ok status) := by
  rw [← activation_eq_error_iff]
  cases ha : s.activation with
  | error e =>
    have hpass : s.reconcileActiveVersions = .done (.error e) := by
      unfold reconcileActiveVersions
      rw [ha]
      rfl
    rw [hpass]
    exact ⟨⟨fun _ => ⟨e, rfl⟩, fun _ => ⟨e, rfl⟩⟩, fun _ => ⟨rfl, rfl⟩, fun h => (h ⟨e, rfl⟩).elim⟩
  | ok a =>
    obtain ⟨m, hm, -⟩ := UseMap.build_eq_ok s.recorded.versions s.spec.versions
    rw [reconcileActiveVersions_run ha world t hm]
    have hno : ¬ ∃ e, (Except.ok a : Except ReconcileError Activation) = .error e := nofun
    exact ⟨⟨nofun, fun h => (hno h).elim⟩, nofun, fun _ => ⟨_, rfl⟩⟩

end Stack

end PipelineStacks
