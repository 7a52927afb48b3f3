import PipelineStacks.Proofs.Interleaving
import PipelineStacks.Proofs.Owners
import PipelineStacks.Proofs.SteadyStore

/-!
# Stores with versions

A store that several programs write gives each object that is written a version of its own, and it
takes a replacement only for the version that it holds.  Deletes are not held against a version.

`written?` reads off an exchange what it leaves under a key, and `owners_settle` says that after
some turns the owners under a key are those of the last object that was written there.  A version
stands for one object: whatever is asked, no other object comes to have it (`Identifies.settle`).
-/

namespace PipelineStacks

/-- A store, and the versions that it has given so far. -/
structure VersionedStore where
  objects : Objects
  used : List String

/-- The object with another version. -/
def Object.withVersion (o : Object) (version : String) : Object :=
  { o with metadata := { o.metadata with resourceVersion := some version } }

namespace VersionedStore

/-- The store with an object, of a new version, or none under a key. -/
def write (fresh : List String → String) (v : VersionedStore) (key : ObjectKey) :
    Option Object → VersionedStore
  | some o => ⟨v.objects.set key (some (o.withVersion (fresh v.used))), fresh v.used :: v.used⟩
  | none => { v with objects := v.objects.set key none }

end VersionedStore

namespace Surroundings

variable {τ : Type}

/-- The answer to a request that meets no failure, and what the store holds after it. -/
def respondVersioned (c : Surroundings τ) (fresh : List String → String) (v : VersionedStore)
    (t : τ) : (e : Effect) → Effect.Answer e × VersionedStore
  | .get kind ns name =>
    ((.ok (v.objects ⟨kind, ns, name⟩) : Except Failure (Option Object)), v)
  | .create kind ns o =>
    match v.objects ⟨kind, ns, o.nameText⟩ with
    | none => ((.ok () : Except Failure Unit), v.write fresh ⟨kind, ns, o.nameText⟩ (some o))
    | some _ => ((.error (c.refusal (.create kind ns o) t) : Except Failure Unit), v)
  | .update kind ns o =>
    match v.objects ⟨kind, ns, o.nameText⟩ with
    | none => ((.error (c.refusal (.update kind ns o) t) : Except Failure Unit), v)
    | some current =>
      if o.metadata.resourceVersion = current.metadata.resourceVersion then
        ((.ok () : Except Failure Unit), v.write fresh ⟨kind, ns, o.nameText⟩ (some o))
      else ((.error (c.refusal (.update kind ns o) t) : Except Failure Unit), v)
  | .delete kind ns name =>
    ((.ok () : Except Failure Unit), v.write fresh ⟨kind, ns, name⟩ none)
  | .fetch source skip => ((.ok (c.bytes source skip t) : Except Failure Bytes), v)
  | .record .. => ((.ok () : Except Failure Unit), v)
  | .count _ => ((), v)

/-- The world of a store with versions and its surroundings. -/
def versionedWorld (c : Surroundings τ) (fresh : List String → String) :
    Program.World Effect.Answer (VersionedStore × τ) := fun e s =>
  match c.fault e s.2 with
  | some f => (e.failed f, (s.1, c.next e s.2))
  | none =>
    ((c.respondVersioned fresh s.1 s.2 e).1, ((c.respondVersioned fresh s.1 s.2 e).2, c.next e s.2))

end Surroundings

namespace VersionedStore

variable {τ : Type} {c : Surroundings τ} {fresh : List String → String}

/-- The store after a request is the one before with what the request has written. -/
lemma store_versionedWorld (c : Surroundings τ) (fresh : List String → String) (e : Effect)
    (s : VersionedStore × τ) :
    ((c.versionedWorld fresh e s).2).1 =
      match e.written? (c.versionedWorld fresh e s).1 with
      | some (key, o) => s.1.write fresh key o
      | none => s.1 := by
  unfold Surroundings.versionedWorld
  cases c.fault e s.2 with
  | some f => cases e <;> rfl
  | none =>
    cases e with
    | create kind ns o =>
      simp only [Surroundings.respondVersioned]
      cases s.1.objects ⟨kind, ns, o.nameText⟩ <;> rfl
    | update kind ns o =>
      simp only [Surroundings.respondVersioned]
      cases s.1.objects ⟨kind, ns, o.nameText⟩ with
      | none => rfl
      | some current =>
        simp only
        split <;> rfl
    | _ => rfl

/-- What a turn has put under a key. -/
def writtenAt {κ : Type} (key : ObjectKey) (x : Program.Turn κ Effect.Answer) :
    Option (Option Object) :=
  ((x.2.1.written? x.2.2).filter (·.1 = key)).map (·.2)

/-- What was put under a key by the last turn that has written there. -/
def lastWritten {κ : Type} (key : ObjectKey)
    (turns : List (Program.Turn κ Effect.Answer)) : Option (Option Object) :=
  (turns.filterMap (writtenAt key)).getLast?

lemma lastWritten_cons {κ : Type} (key : ObjectKey) (x : Program.Turn κ Effect.Answer)
    (turns : List (Program.Turn κ Effect.Answer)) :
    lastWritten key (x :: turns) = (lastWritten key turns).or (writtenAt key x) := by
  unfold lastWritten
  rw [List.filterMap_cons]
  cases writtenAt key x with
  | none => exact Option.or_none.symm
  | some o =>
    rw [List.getLast?_cons]
    cases (turns.filterMap (writtenAt key)).getLast? <;> rfl

/-- Under the key that is written stands what is written there, but for its version. -/
lemma owners_write (v : VersionedStore) (key key' : ObjectKey) (o : Option Object) :
    ((v.write fresh key o).objects key').map Object.owners =
      (if key' = key then o else v.objects key').map Object.owners := by
  cases o with
  | none => rfl
  | some o =>
    change (if key' = key then _ else _ : Option Object).map _ = _
    split <;> rfl

/-- After some turns the owners under a key are those of the object that was put there last, or, if
nothing was, those from before. -/
theorem owners_settle {κ : Type} {s : VersionedStore × τ}
    {turns : List (Program.Turn κ Effect.Answer)}
    (h : Program.Answered (c.versionedWorld fresh) s turns) (key : ObjectKey) :
    ((Program.settle (c.versionedWorld fresh) s turns).1.objects key).map Object.owners =
      ((lastWritten key turns).getD (s.1.objects key)).map Object.owners := by
  induction turns generalizing s with
  | nil => rfl
  | cons x turns ih =>
    obtain ⟨hanswer, hrest⟩ := h
    have hstore := store_versionedWorld c fresh x.2.1 s
    rw [← hanswer] at hstore
    change ((Program.settle _ (c.versionedWorld fresh x.2.1 s).2 turns).1.objects key).map _ = _
    rw [ih hrest, lastWritten_cons]
    cases lastWritten key turns with
    | some o => rfl
    | none =>
      rw [Option.none_or, Option.getD_none, hstore, writtenAt]
      cases x.2.1.written? x.2.2 with
      | none => rfl
      | some written =>
        rw [owners_write, Option.filter_some]
        by_cases hkey : written.1 = key
        · simp [hkey]
        · simp [hkey, Ne.symm hkey]

/-- What a look-up finds is in the store, and stays there. -/
lemma get_versionedWorld {s : VersionedStore × τ} {kind : Kind} {ns name : String}
    {object : Object} (h : (.ok (some object) : Except Failure (Option Object)) =
      (c.versionedWorld fresh (.get kind ns name) s).1) :
    s.1.objects ⟨kind, ns, name⟩ = some object ∧
      (c.versionedWorld fresh (.get kind ns name) s).2.1 = s.1 := by
  unfold Surroundings.versionedWorld at h ⊢
  cases hfault : c.fault (.get kind ns name) s.2 with
  | some f =>
    rw [hfault] at h
    cases h
  | none =>
    rw [hfault] at h
    exact ⟨(Except.ok.inj h).symm, rfl⟩

/-! ## Which object has a version -/

/-- A replacement that is taken was made for the version that the store holds. -/
lemma exists_current_of_update {kind : Kind} {ns : String} {o : Object} {s : VersionedStore × τ}
    (h : (c.versionedWorld fresh (.update kind ns o) s).1 = (.ok () : Except Failure Unit)) :
    ∃ current, s.1.objects ⟨kind, ns, o.nameText⟩ = some current ∧
      o.metadata.resourceVersion = current.metadata.resourceVersion := by
  unfold Surroundings.versionedWorld at h
  cases hfault : c.fault (.update kind ns o) s.2 with
  | some f =>
    rw [hfault] at h
    cases h
  | none =>
    simp only [hfault, Surroundings.respondVersioned] at h
    cases hcurrent : s.1.objects ⟨kind, ns, o.nameText⟩ with
    | none =>
      rw [hcurrent] at h
      cases h
    | some current =>
      simp only [hcurrent] at h
      split at h
      · next hversion => exact ⟨current, rfl, hversion⟩
      · cases h

/-- The object is the only one that has had the version under the key, and the version is not given
again. -/
structure Identifies (v : VersionedStore) (key : ObjectKey) (version : String) (o : Object) :
    Prop where
  given : version ∈ v.used
  unique : ∀ o', v.objects key = some o' → o'.metadata.resourceVersion = some version → o' = o

/-- An object that is written has a new version. -/
lemma Identifies.write (hfresh : ∀ used, fresh used ∉ used) {v : VersionedStore} {key : ObjectKey}
    {version : String} {o : Object} (h : v.Identifies key version o) (key' : ObjectKey)
    (written : Option Object) : (v.write fresh key' written).Identifies key version o := by
  have hsame : ∀ (x : Option Object), (∀ o', x = some o' →
      o'.metadata.resourceVersion ≠ some version) → ∀ o', v.objects.set key' x key = some o' →
        o'.metadata.resourceVersion = some version → o' = o := by
    intro x hx o' ho' hversion
    by_cases hkey : key = key'
    · rw [hkey, Objects.set_same] at ho'
      exact (hx o' ho' hversion).elim
    · rw [Objects.set_of_ne _ _ hkey] at ho'
      exact h.unique o' ho' hversion
  cases written with
  | none => exact ⟨h.given, hsame none fun _ ho' => nomatch ho'⟩
  | some x =>
    refine ⟨List.mem_cons_of_mem _ h.given, hsame _ fun o' ho' hversion => ?_⟩
    obtain rfl := Option.some.inj ho'
    exact hfresh v.used (Option.some.inj hversion ▸ h.given)

/-- Whatever is asked, an object that has had a version stays the only one that has had it. -/
theorem Identifies.settle {κ : Type} (hfresh : ∀ used, fresh used ∉ used) {s : VersionedStore × τ}
    {turns : List (Program.Turn κ Effect.Answer)}
    {key : ObjectKey} {version : String} {o : Object} (h : s.1.Identifies key version o) :
    (Program.settle (c.versionedWorld fresh) s turns).1.Identifies key version o := by
  induction turns generalizing s with
  | nil => exact h
  | cons x turns ih =>
    refine ih ?_
    rw [store_versionedWorld]
    split
    · exact h.write hfresh _ _
    · exact h

/-! ## Versions that were not given before -/

/-- A version that is longer than all that were given. -/
def longer (used : List String) : String :=
  String.ofList (List.replicate ((used.map String.length).foldr max 0 + 1) '0')

/-- What is longer than all is none of them. -/
lemma longer_not_mem (used : List String) : longer used ∉ used := by
  intro hmem
  have hle : ∀ l : List String, longer used ∈ l →
      (longer used).length ≤ (l.map String.length).foldr max 0 := by
    intro l
    induction l with
    | nil => exact fun h => (List.not_mem_nil h).elim
    | cons v l ih =>
      intro h
      rcases List.mem_cons.mp h with h | h
      · exact h ▸ le_max_left _ _
      · exact (ih h).trans (le_max_right _ _)
  have hlength : (longer used).length = (used.map String.length).foldr max 0 + 1 := by
    simp [longer]
  exact absurd (hle used hmem) (hlength ▸ Nat.not_succ_le_self _)

end VersionedStore

end PipelineStacks
