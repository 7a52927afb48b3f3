import PipelineStacks.Proofs.Deletion
import PipelineStacks.Proofs.SteadyStore

/-!
# What is left of assets that are given up

If no request to the store fails, what a pass gives up is gone if nobody else owns it, and else only
the owner is taken off it (`Owner.withdraw`).  So the first round of a pass withdraws the owner from
the objects under `UseMap.leavings`, one after the other (`yields_giveUp`), and an object is gone
after it exactly if its key is among these and nobody else owned it (`withdrawAll_eq_none_iff`).
-/

namespace PipelineStacks

open Surroundings

/-! ## One object after the other -/

namespace Owner

/-- What is left of an object that the owner gives up. -/
def leave (w : Owner) (inNamespace : String) (o : Object) : Option Object :=
  if w.SoleOn inNamespace o then none else some (w.unmark o).2

/-- The store after the owner gave up the object under a key. -/
def withdraw (w : Owner) (objects : Objects) (key : ObjectKey) : Objects :=
  objects.set key ((objects key).bind (w.leave key.inNamespace))

/-- The store after the owner gave up the objects under some keys. -/
def withdrawAll (w : Owner) (objects : Objects) (keys : List ObjectKey) : Objects :=
  keys.foldl w.withdraw objects

variable {w : Owner} {objects : Objects} {key : ObjectKey} {o : Object}

/-- An owner that is not alone on an object is not alone on what is left of it. -/
lemma not_soleOn_unmark {ns : String} (h : ¬ w.SoleOn ns o) : ¬ w.SoleOn ns (w.unmark o).2 := by
  intro hsole
  refine h ⟨fun uid huid => ?_, fun hforeign => ?_⟩
  · by_contra hne
    refine hne (hsole.alone uid ?_)
    rw [owners_unmark]
    exact List.mem_filter.mpr ⟨huid, decide_eq_true hne⟩
  · have hleft := hsole.recorded hforeign
    rw [owners_unmark] at hleft
    exact List.mem_of_mem_filter hleft

lemma withdraw_of_none (h : objects key = none) : w.withdraw objects key = objects := by
  rw [withdraw, h]
  exact Objects.set_eq_self h

lemma withdraw_of_some (h : objects key = some o) :
    w.withdraw objects key = objects.set key (w.leave key.inNamespace o) := by
  rw [withdraw, h]
  rfl

/-- The objects that are left are under their own names. -/
lemma wellKeyed_withdraw (h : objects.WellKeyed) (key : ObjectKey) :
    (w.withdraw objects key).WellKeyed := by
  cases hthere : objects key with
  | none => rwa [withdraw_of_none hthere]
  | some o =>
    rw [withdraw_of_some hthere, leave]
    split
    · exact h.set_none key
    · refine h.set_some ?_
      rw [Object.nameText_of_withoutOwners (w.sameButOwners_unmark o).withoutOwners]
      exact h key o hthere

lemma wellKeyed_withdrawAll (h : objects.WellKeyed) (keys : List ObjectKey) :
    (w.withdrawAll objects keys).WellKeyed := by
  induction keys generalizing objects with
  | nil => exact h
  | cons key keys ih => exact ih (wellKeyed_withdraw h key)

/-- What is gone after some objects were given up was not there before, or nobody else owned it. -/
theorem withdrawAll_eq_none_iff (keys : List ObjectKey) :
    w.withdrawAll objects keys key = none ↔ objects key = none ∨
      key ∈ keys ∧ ∃ o, objects key = some o ∧ w.SoleOn key.inNamespace o := by
  induction keys generalizing objects with
  | nil => simp [withdrawAll]
  | cons key' keys ih =>
    change w.withdrawAll (w.withdraw objects key') keys key = none ↔ _
    rw [ih]
    by_cases hkey : key = key'
    · subst hkey
      cases hthere : objects key with
      | none => simp [withdraw, hthere]
      | some o =>
        rw [withdraw_of_some hthere, Objects.set_same, leave]
        split
        · next hsole => simp [hsole]
        · next hsole => simp [hsole, not_soleOn_unmark hsole]
    · have hsame : w.withdraw objects key' key = objects key := Objects.set_of_ne _ _ hkey
      rw [hsame, List.mem_cons, or_iff_right hkey]

end Owner

/-! ## The assets of an archive -/

/-- The keys of the active assets of an archive. -/
def Usage.leavings (u : Usage) (target : String) : List ObjectKey :=
  (u.status.activeAssets.filter (·.state = .active)).map (·.keyAt target)

/-- An archive after its assets were given up. -/
def Usage.released (u : Usage) : Usage :=
  { u with status := { u.status with activeAssets := [] } }

namespace Activation

variable {τ : Type} {c : Surroundings τ} {objects : Objects}

/-- An object that was found is given up. -/
lemma yields_releaseObject (hc : c.OnlyLooksFail) {key : ObjectKey} {o : Object}
    (hthere : objects key = some o) (hname : o.nameText = key.name) (w : Owner) :
    ∃ outcome, c.Yields (releaseObject key.kind key.inNamespace key.name w o) objects (.ok outcome)
      (w.withdraw objects key) := by
  rw [releaseObject_eq, Owner.withdraw_of_some hthere, Owner.leave]
  split
  · exact ⟨_, (yields_delete hc _ _ _).bind (yields_done _)⟩
  · split
    · have hkey : (⟨key.kind, key.inNamespace, (w.unmark o).2.nameText⟩ : ObjectKey) = key := by
        rw [Object.nameText_of_withoutOwners (w.sameButOwners_unmark o).withoutOwners, hname]
      have htaken : objects ⟨key.kind, key.inNamespace, (w.unmark o).2.nameText⟩ ≠ none := by
        rw [hkey, hthere]
        exact Option.some_ne_none o
      have hupdate := yields_update hc htaken
      rw [hkey] at hupdate
      exact ⟨_, hupdate.bind (yields_done _)⟩
    · next hunmarked =>
      rw [Bool.not_eq_true] at hunmarked
      rw [Owner.unmark_eq_self hunmarked, Objects.set_eq_self hthere]
      exact ⟨_, yields_done _⟩

variable (hc : c.StoreFaultless)
include hc

/-- An active asset is given up if its object, where there is one, is kept under its own name. -/
lemma yields_deleteAsset_of_active {x : AssetStatus} (hactive : x.state = .active)
    (target : String) (hname : ∀ o, objects (x.keyAt target) = some o → o.nameText = x.name)
    (w : Owner) :
    ∃ outcome, c.Yields (deleteAsset x target w) objects (.ok outcome)
      (w.withdraw objects (x.keyAt target)) := by
  unfold deleteAsset
  rw [if_neg (not_not.mpr hactive)]
  have hget : c.Yields (Pass.get x.objectKind (x.place target) x.name) objects
      (.ok (objects (x.keyAt target))) objects := yields_get hc _ _ _
  cases hthere : objects (x.keyAt target) with
  | none =>
    rw [hthere] at hget
    rw [Owner.withdraw_of_none hthere]
    exact ⟨_, hget.bind (yields_done _)⟩
  | some o =>
    rw [hthere] at hget
    obtain ⟨outcome, hrelease⟩ := yields_releaseObject hc.onlyLooksFail hthere (hname o hthere) w
    exact ⟨outcome, hget.bind hrelease⟩

/-- A recorded asset is given up if it is active. -/
lemma yields_deleteAsset (hobjects : objects.WellKeyed) (x : AssetStatus) (target : String)
    (w : Owner) :
    ∃ outcome, c.Yields (deleteAsset x target w) objects (.ok outcome)
      (if x.state = .active then w.withdraw objects (x.keyAt target) else objects) := by
  by_cases hactive : x.state = .active
  · rw [if_pos hactive]
    exact yields_deleteAsset_of_active hc hactive target (hobjects (x.keyAt target)) w
  · unfold deleteAsset
    rw [if_pos hactive, if_neg hactive]
    exact ⟨_, yields_done _⟩

variable (a : Activation)

/-- Nothing fails when assets are given up, and none is left. -/
lemma yields_releaseAssets (hobjects : objects.WellKeyed) (l : List AssetStatus) :
    c.Yields (a.releaseAssets l) objects [] (a.owner.withdrawAll objects
      ((l.filter (·.state = .active)).map (·.keyAt a.target))) := by
  induction l generalizing objects with
  | nil => exact yields_done _
  | cons x l ih =>
    have hrest : (a.owner.withdrawAll objects
        (((x :: l).filter (·.state = .active)).map (·.keyAt a.target))) =
        a.owner.withdrawAll (if x.state = .active then
          a.owner.withdraw objects (x.keyAt a.target) else objects)
            ((l.filter (·.state = .active)).map (·.keyAt a.target)) := by
      by_cases hactive : x.state = .active
      · rw [List.filter_cons_of_pos (by simpa using hactive), if_pos hactive]
        rfl
      · rw [List.filter_cons_of_neg (by simpa using hactive), if_neg hactive]
    obtain ⟨outcome, hhead⟩ := yields_deleteAsset hc hobjects x a.target a.owner
    have hkeyed : (if x.state = .active then a.owner.withdraw objects (x.keyAt a.target)
        else objects).WellKeyed := by
      split
      · exact Owner.wellKeyed_withdraw hobjects _
      · exact hobjects
    rw [hrest]
    refine hhead.bind ?_
    cases hrelease : outcome.isRelease with
    | true =>
      simp only [hrelease, if_true]
      exact (yields_count _).bind (ih hkeyed)
    | false =>
      simp only [hrelease]
      exact ih hkeyed

/-- The active assets of an archive are given up. -/
lemma yields_release (hobjects : objects.WellKeyed) (u : Usage) :
    c.Yields (a.release u) objects u.released
      (a.owner.withdrawAll objects (u.leavings a.target)) :=
  (yields_releaseAssets hc a hobjects u.status.activeAssets).bind (yields_done _)

end Activation

/-! ## All that is not needed -/

/-- An archive after the assets of those that are not needed were given up. -/
def Usage.givenUp (u : Usage) : Usage :=
  if u.isNeeded then u else u.released

lemma Usage.isNeeded_givenUp (u : Usage) : u.givenUp.isNeeded = u.isNeeded := by
  unfold givenUp
  split <;> rfl

lemma Usage.manifests_givenUp (u : Usage) : u.givenUp.manifests = u.manifests := by
  unfold givenUp
  split <;> rfl

lemma Usage.givenUp_of_needed {u : Usage} (h : u.isNeeded) : u.givenUp = u :=
  if_pos h

/-- The keys of the active assets of archives that are not needed. -/
def UseMap.leavings (m : UseMap) (target : String) : List ObjectKey :=
  m.entries.flatMap fun e => if e.2.isNeeded then [] else e.2.leavings target

lemma UseMap.mem_leavings_iff {m : UseMap} {target : String} {key : ObjectKey} :
    key ∈ m.leavings target ↔ ∃ r u, (r, u) ∈ m.toDelete ∧
      ∃ x ∈ u.status.activeAssets, x.state = .active ∧ x.keyAt target = key := by
  simp only [leavings, List.mem_flatMap, toDelete, List.mem_filter, Prod.exists]
  refine exists_congr fun r => exists_congr fun u => ?_
  cases u.isNeeded <;> simp [Usage.leavings, and_assoc]

/-- The first round of a pass gives up the active assets of archives that are not needed. -/
theorem Activation.yields_giveUp {τ : Type} {c : Surroundings τ} (hc : c.StoreFaultless)
    (a : Activation) (m : UseMap) {objects : Objects} (hobjects : objects.WellKeyed) :
    c.Yields (a.giveUp m) objects (m.map fun _ u => u.givenUp)
      (a.owner.withdrawAll objects (m.leavings a.target)) := by
  have hround : c.Yields (a.giveUp m) objects (m.map fun _ u => u.givenUp)
      (m.entries.foldl (fun S e => a.owner.withdrawAll S
        (if e.2.isNeeded then [] else e.2.leavings a.target)) objects) := by
    refine yields_traverse_map (fun e _ S hS => ?_) hobjects
    unfold Usage.givenUp
    cases e.2.isNeeded with
    | true => exact ⟨yields_done _, hS⟩
    | false => exact ⟨yields_release hc a hS e.2, Owner.wellKeyed_withdrawAll hS _⟩
  rw [Owner.withdrawAll, UseMap.leavings, List.foldl_flatMap]
  exact hround

/-- The store with the task is kept under names. -/
lemma Stack.wellKeyed_storeOf (uids : List String) : (Stack.storeOf uids).WellKeyed := by
  have hempty : Objects.WellKeyed fun _ => none := fun _ _ h => nomatch h
  exact hempty.set_some rfl

end PipelineStacks
