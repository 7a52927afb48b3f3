import PipelineStacks.Proofs.Conduct

/-!
# Attempts to give assets up

When a recorded asset is given up, its object is looked up, and then at most one request is made for
it: it is deleted, or replaced by the object without the owner.  `Owner.Attempts` lists the ways in
which that can go, each with all its requests and what it comes to, and
`attempts_deleteAsset` says that there are no others, whatever the world answers.

An attempt fails exactly if one of its requests does (`Owner.Attempts.findSome?_failure?`).  So what
is left of the assets of an archive after they were given up are those for which a request failed,
in their order, each with the reason (`release_keeps_failed_attempts`).  All others were released or
passed over (`ReleaseAttempt.tally`).
-/

namespace PipelineStacks

open Program (Exchange)

/-! ## Requests to the store -/

/-- The failure that there is in place of a value. -/
def Failure.of? {α : Type} : Except Failure α → Option Failure
  | .error e => some e
  | .ok _ => none

namespace Effect

/-- A look-up under a key. -/
abbrev looked (key : ObjectKey) (answer : Except Failure (Option Object)) :
    Exchange Effect.Answer :=
  ⟨.get key.kind key.inNamespace key.name, answer⟩

/-- An attempt to delete the object under a key. -/
abbrev removing (key : ObjectKey) (answer : Except Failure Unit) : Exchange Effect.Answer :=
  ⟨.delete key.kind key.inNamespace key.name, answer⟩

/-- An attempt to replace the object under a key. -/
abbrev replacing (key : ObjectKey) (o : Object) (answer : Except Failure Unit) :
    Exchange Effect.Answer :=
  ⟨.update key.kind key.inNamespace o, answer⟩

/-- The failure that a request to the store has met. -/
def failure? : Exchange Effect.Answer → Option Failure
  | ⟨.get .., answer⟩ => Failure.of? (answer : Except Failure (Option Object))
  | ⟨.create .., answer⟩ | ⟨.update .., answer⟩ | ⟨.delete .., answer⟩ =>
    Failure.of? (answer : Except Failure Unit)
  | _ => none

end Effect

open Effect (looked found removing replacing failure?)

/-! ## One attempt -/

/-- The ways to give up a recorded asset, each with the requests to the store and what it comes to.
The outcome of a second request is that of the attempt. -/
inductive Owner.Attempts (w : Owner) (target : String) (x : AssetStatus) :
    List (Exchange Effect.Answer) → Except Failure DeleteOutcome → Prop
  /-- An asset that is not active is not even looked up. -/
  | skipped (h : x.state ≠ .active) : w.Attempts target x [] (.ok .skipped)
  | unread (h : x.state = .active) (e : Failure) :
    w.Attempts target x [looked (x.keyAt target) (.error e)] (.error e)
  | gone (h : x.state = .active) :
    w.Attempts target x [looked (x.keyAt target) (.ok none)] (.ok .alreadyGone)
  /-- In another namespace an object is left alone on which the owner is not recorded. -/
  | foreign (h : x.state = .active) (o : Object) (hunmarked : w.isMarked o = false)
      (hforeign : w.canOwn (x.place target) = false) :
    w.Attempts target x [found (x.keyAt target) o] (.ok .notOwned)
  /-- In the owner's namespace it is left as it is, since others own it. -/
  | shared (h : x.state = .active) (o : Object) (hunmarked : w.isMarked o = false)
      (hown : w.canOwn (x.place target) = true) (hshared : ¬ w.SoleOn (x.place target) o) :
    w.Attempts target x [found (x.keyAt target) o] (.ok .disowned)
  | remove (h : x.state = .active) (o : Object) (hsole : w.SoleOn (x.place target) o)
      (answer : Except Failure Unit) :
    w.Attempts target x [found (x.keyAt target) o, removing (x.keyAt target) answer]
      (answer.map fun _ => .deleted)
  | replace (h : x.state = .active) (o : Object) (hmarked : w.isMarked o = true)
      (hshared : ¬ w.SoleOn (x.place target) o) (answer : Except Failure Unit) :
    w.Attempts target x
      [found (x.keyAt target) o, replacing (x.keyAt target) (w.unmark o).2 answer]
      (answer.map fun _ => .disowned)

namespace Owner

variable {σ : Type} (world : Program.World Effect.Answer σ) (w : Owner) (target : String)
  {x : AssetStatus}

/-- An object that was found is given up in one of these ways. -/
lemma attempts_releaseObject (h : x.state = .active) (o : Object) (t : σ) :
    w.Attempts target x (found (x.keyAt target) o ::
        (releaseObject x.objectKind (x.place target) x.name w o).log world t)
      ((releaseObject x.objectKind (x.place target) x.name w o).run world t).1 := by
  rw [releaseObject_eq]
  split
  · next hsole => exact .remove h o hsole _
  · next hshared =>
    split
    · next hmarked => exact .replace h o hmarked hshared _
    · next hunmarked =>
      rw [Bool.not_eq_true] at hunmarked
      cases hown : w.canOwn (x.place target) with
      | true => exact .shared h o hunmarked hown hshared
      | false => exact .foreign h o hunmarked hown

/-- An active asset is first looked up, and however that is answered, it is given up in one of these
ways then. -/
lemma deleteAsset_look (h : x.state = .active) :
    ∃ next, deleteAsset x target w = Pass.get x.objectKind (x.place target) x.name >>= next ∧
      ∀ answer t, w.Attempts target x (looked (x.keyAt target) answer :: (next answer).log world t)
        ((next answer).run world t).1 := by
  unfold deleteAsset
  rw [if_neg (not_not.mpr h)]
  refine ⟨_, rfl, fun answer t => ?_⟩
  match answer with
  | .error e => exact .unread h e
  | .ok none => exact .gone h
  | .ok (some object) => exact w.attempts_releaseObject world target h object t

/-- However the world answers, a recorded asset is given up in one of these ways. -/
theorem attempts_deleteAsset (x : AssetStatus) (t : σ) :
    w.Attempts target x ((deleteAsset x target w).log world t)
      ((deleteAsset x target w).run world t).1 := by
  by_cases h : x.state = .active
  · obtain ⟨next, hdelete, hnext⟩ := w.deleteAsset_look world target h
    rw [hdelete]
    exact hnext _ _
  · unfold deleteAsset
    rw [if_pos h]
    exact .skipped h

end Owner

/-! ### What comes of it -/

namespace Owner.Attempts

variable {w : Owner} {target : String} {x : AssetStatus} {log : List (Exchange Effect.Answer)}
  {result : Except Failure DeleteOutcome}

/-- An attempt fails exactly if one of its requests does, and then with the same failure. -/
lemma findSome?_failure? (h : w.Attempts target x log result) :
    log.findSome? failure? = Failure.of? result := by
  cases h with
  | remove _ o _ answer => cases answer <;> rfl
  | replace _ o _ _ answer => cases answer <;> rfl
  | _ => rfl

/-- Of an asset that is not active nothing is asked. -/
lemma eq_nil_of_not_active (h : w.Attempts target x log result) (hx : x.state ≠ .active) :
    log = [] ∧ result = .ok .skipped := by
  cases h with
  | skipped => exact ⟨rfl, rfl⟩
  | _ => contradiction

/-- All that is asked is about the store. -/
lemma isForStore (h : w.Attempts target x log result) : ∀ y ∈ log, y.1.isForStore = true := by
  cases h <;> simp [Effect.isForStore]

end Owner.Attempts

/-! ## The assets of an archive -/

/-- The record of an asset that could not be given up: only the message is another one. -/
def AssetStatus.unreleased (x : AssetStatus) (e : Failure) : AssetStatus :=
  { x with message := some ("Unable to delete asset: " ++ e.message) }

/-- A recorded asset that was to be given up, with the requests to the store that were made for it
and what they came to. -/
structure ReleaseAttempt where
  asset : AssetStatus
  log : List (Exchange Effect.Answer)
  result : Except Failure DeleteOutcome

namespace ReleaseAttempt

/-- The record that is left of an asset for which a request failed. -/
def kept? (x : ReleaseAttempt) : Option AssetStatus :=
  (x.log.findSome? failure?).map x.asset.unreleased

/-- The claim on the object was given up. -/
def isRelease (x : ReleaseAttempt) : Bool :=
  match x.result with
  | .ok outcome => outcome.isRelease
  | .error _ => false

/-- The asset was left alone: it was never seen, its object is gone, or it was never the owner's. -/
def isPassedOver (x : ReleaseAttempt) : Bool :=
  match x.result with
  | .ok .skipped | .ok .alreadyGone | .ok .notOwned => true
  | _ => false

/-- The requests of an attempt, and the count of a release. -/
def exchanges (x : ReleaseAttempt) : List (Exchange Effect.Answer) :=
  x.log ++ if x.isRelease then [⟨.count .assetsDeleted, ()⟩] else []

/-- The attempt is a run of what gives a recorded asset up. -/
def Ran {σ : Type} (world : Program.World Effect.Answer σ) (target : String) (w : Owner)
    (x : ReleaseAttempt) : Prop :=
  ∃ t, x.log = (deleteAsset x.asset target w).log world t ∧
    x.result = ((deleteAsset x.asset target w).run world t).1

/-- A run can only go in one of the ways that are listed. -/
lemma Ran.attempts {σ : Type} {world : Program.World Effect.Answer σ} {target : String} {w : Owner}
    {x : ReleaseAttempt} (h : x.Ran world target w) :
    w.Attempts target x.asset x.log x.result := by
  obtain ⟨t, hlog, hresult⟩ := h
  rw [hlog, hresult]
  exact w.attempts_deleteAsset world target x.asset t

/-- An attempt leaves a record, gives the object up or passes the asset over, and only one of
these. -/
lemma Ran.outcome {σ : Type} {world : Program.World Effect.Answer σ} {target : String} {w : Owner}
    {x : ReleaseAttempt} (h : x.Ran world target w) :
    (if x.isRelease then 1 else 0) + (if x.kept?.isSome then 1 else 0) +
      (if x.isPassedOver then 1 else 0) = 1 := by
  rw [kept?, h.attempts.findSome?_failure?, isRelease, isPassedOver]
  match x.result with
  | .error e => rfl
  | .ok outcome => cases outcome <;> rfl

/-- Of some attempts those that leave a record, those that come to a release and those that pass the
asset over are all. -/
lemma tally {σ : Type} {world : Program.World Effect.Answer σ} {target : String} {w : Owner}
    {attempts : List ReleaseAttempt} (h : ∀ x ∈ attempts, x.Ran world target w) :
    attempts.countP (·.isRelease) + (attempts.filterMap kept?).length +
      attempts.countP (·.isPassedOver) = attempts.length := by
  rw [List.length_filterMap_eq_countP]
  induction attempts with
  | nil => rfl
  | cons x attempts ih =>
    obtain ⟨hx, hattempts⟩ := List.forall_mem_cons.mp h
    have hone := hx.outcome
    have hrest := ih hattempts
    rw [List.countP_cons, List.countP_cons, List.countP_cons, List.length_cons]
    omega

/-- A record is left exactly if a request failed. -/
lemma isSome_kept?_iff {x : ReleaseAttempt} :
    x.kept?.isSome = true ↔ ∃ q ∈ x.log, (failure? q).isSome = true := by
  rw [kept?, Option.isSome_map, List.findSome?_isSome_iff]

/-- All but the message stays as it was recorded. -/
lemma eq_of_kept? {x : ReleaseAttempt} {y : AssetStatus} (h : x.kept? = some y) :
    y = { x.asset with message := y.message } := by
  obtain ⟨e, -, rfl⟩ := Option.map_eq_some_iff.mp h
  rfl

end ReleaseAttempt

namespace Activation

variable {σ : Type} (world : Program.World Effect.Answer σ) (a : Activation)

/-- The first of some assets is given up, and then the others. -/
lemma releaseAssets_cons (x : AssetStatus) (l : List AssetStatus) (t : σ) :
    ∃ (first : ReleaseAttempt) (t' : σ), first.asset = x ∧ first.Ran world a.target a.owner ∧
      (a.releaseAssets (x :: l)).log world t =
        first.exchanges ++ (a.releaseAssets l).log world t' ∧
      ((a.releaseAssets (x :: l)).run world t).1 =
        first.kept?.toList ++ ((a.releaseAssets l).run world t').1 := by
  let first : ReleaseAttempt := ⟨x, (deleteAsset x a.target a.owner).log world t,
    ((deleteAsset x a.target a.owner).run world t).1⟩
  have hran : first.Ran world a.target a.owner := ⟨t, rfl, rfl⟩
  rw [releaseAssets, Program.log_bind, Program.run_bind]
  generalize ((deleteAsset x a.target a.owner).run world t).2 = t₁
  have hkept : first.kept? = (Failure.of? first.result).map x.unreleased := by
    rw [ReleaseAttempt.kept?, hran.attempts.findSome?_failure?]
  cases hresult : ((deleteAsset x a.target a.owner).run world t).1 with
  | error e =>
    have hleft : first.kept? = some (x.unreleased e) := by
      rw [hkept]
      simp [first, hresult, Failure.of?]
    have hrelease : first.isRelease = false := by simp [ReleaseAttempt.isRelease, first, hresult]
    refine ⟨first, t₁, rfl, hran, ?_, ?_⟩
    · simp only
      rw [Program.log_bind, ReleaseAttempt.exchanges, hrelease]
      simp [first]
    · rw [hleft]
      simp only
      rw [Program.run_bind]
      rfl
  | ok outcome =>
    have hleft : first.kept? = none := by
      rw [hkept]
      simp [first, hresult, Failure.of?]
    have hrelease : first.isRelease = outcome.isRelease := by
      simp [ReleaseAttempt.isRelease, first, hresult]
    cases h : outcome.isRelease with
    | true =>
      refine ⟨first, (world (.count .assetsDeleted) t₁).2, rfl, hran, ?_, ?_⟩
      · rw [ReleaseAttempt.exchanges, hrelease]
        simp only [h, if_true, List.append_assoc]
        rfl
      · rw [hleft]
        simp only [h, if_true]
        rfl
    | false =>
      refine ⟨first, t₁, rfl, hran, ?_, ?_⟩
      · rw [ReleaseAttempt.exchanges, hrelease]
        simp [h, first]
      · rw [hleft]
        simp [h]

/-- Assets are given up one after the other, and what is left are the records of those for which a
request failed.  Besides the requests only the releases are counted. -/
theorem exists_attempts_releaseAssets (l : List AssetStatus) (t : σ) :
    ∃ attempts : List ReleaseAttempt, attempts.map (·.asset) = l ∧
      (∀ x ∈ attempts, x.Ran world a.target a.owner) ∧
      (a.releaseAssets l).log world t = attempts.flatMap (·.exchanges) ∧
      ((a.releaseAssets l).run world t).1 = attempts.filterMap ReleaseAttempt.kept? := by
  induction l generalizing t with
  | nil => exact ⟨[], rfl, fun x hx => (List.not_mem_nil hx).elim, rfl, rfl⟩
  | cons x l ih =>
    obtain ⟨first, t', hasset, hran, hlog, hrun⟩ := a.releaseAssets_cons world x l t
    obtain ⟨attempts, hassets, hall, hrest, hkept⟩ := ih t'
    refine ⟨first :: attempts, ?_, List.forall_mem_cons.mpr ⟨hran, hall⟩, ?_, ?_⟩
    · rw [List.map_cons, hasset, hassets]
    · rw [hlog, hrest, List.flatMap_cons]
    · rw [hrun, hkept, List.filterMap_cons]
      cases first.kept? <;> rfl

/-- The requests to the store are those of the attempts. -/
theorem attempts_releaseAssets (l : List AssetStatus) (t : σ) :
    ∃ attempts : List ReleaseAttempt, attempts.map (·.asset) = l ∧
      (∀ x ∈ attempts, a.owner.Attempts a.target x.asset x.log x.result) ∧
      ((a.releaseAssets l).log world t).filter (·.1.isForStore) = attempts.flatMap (·.log) ∧
      ((a.releaseAssets l).run world t).1 = attempts.filterMap ReleaseAttempt.kept? := by
  obtain ⟨attempts, hassets, hran, hlog, hrun⟩ := a.exists_attempts_releaseAssets world l t
  refine ⟨attempts, hassets, fun x hx => (hran x hx).attempts, ?_, hrun⟩
  rw [hlog, List.filter_flatMap]
  refine List.flatMap_congr fun x hx => ?_
  rw [ReleaseAttempt.exchanges, List.filter_append,
    List.filter_eq_self.mpr (hran x hx).attempts.isForStore]
  cases x.isRelease <;> simp [Effect.isForStore]

/-- The assets of an archive are given up in their order, and however the world answers, what is
left of them are those that were active and for which a look-up, a replacement or a deletion failed.
Their records stay as they were but for the message, so that they are active.  All others are
dropped: those that were skipped, gone or not owned, and those that were given up.  For an asset
that is not active nothing is asked of the store. -/
theorem release_keeps_failed_attempts (u : Usage) (t : σ) :
    ∃ attempts : List ReleaseAttempt, attempts.map (·.asset) = u.status.activeAssets ∧
      ((a.release u).log world t).filter (·.1.isForStore) = attempts.flatMap (·.log) ∧
      ((a.release u).run world t).1 = { u with
        status := { u.status with activeAssets := attempts.filterMap ReleaseAttempt.kept? } } ∧
      ∀ x ∈ attempts, a.owner.Attempts a.target x.asset x.log x.result ∧
        (x.kept?.isSome = true ↔
          x.asset.state = .active ∧ ∃ q ∈ x.log, (failure? q).isSome = true) ∧
        (∀ y, x.kept? = some y → y = { x.asset with message := y.message } ∧ y.state = .active) ∧
        ((∃ outcome, x.result = .ok outcome) → x.kept? = none) ∧
        (x.asset.state ≠ .active → x.log = []) := by
  obtain ⟨attempts, hassets, hall, hlog, hrun⟩ :=
    a.attempts_releaseAssets world u.status.activeAssets t
  refine ⟨attempts, hassets, ?_, ?_, fun x hx => ?_⟩
  · rw [release, Program.log_bind]
    simpa using hlog
  · rw [release, Program.run_bind, hrun]
    rfl
  · have hattempt := hall x hx
    have hactive : ∀ q ∈ x.log, (failure? q).isSome = true → x.asset.state = .active := by
      intro q hq _
      by_contra hinactive
      rw [(hattempt.eq_nil_of_not_active hinactive).1] at hq
      exact List.not_mem_nil hq
    refine ⟨hattempt, ?_, fun y hy => ⟨ReleaseAttempt.eq_of_kept? hy, ?_⟩, ?_, fun hinactive =>
      (hattempt.eq_nil_of_not_active hinactive).1⟩
    · rw [ReleaseAttempt.isSome_kept?_iff]
      exact ⟨fun ⟨q, hq, hfailed⟩ => ⟨hactive q hq hfailed, q, hq, hfailed⟩, fun h => h.2⟩
    · obtain ⟨q, hq, hfailed⟩ :=
        ReleaseAttempt.isSome_kept?_iff.mp (Option.isSome_iff_exists.mpr ⟨y, hy⟩)
      rw [ReleaseAttempt.eq_of_kept? hy]
      exact hactive q hq hfailed
    · rintro ⟨outcome, hresult⟩
      rw [ReleaseAttempt.kept?, hattempt.findSome?_failure?, hresult]
      rfl

end Activation

end PipelineStacks
