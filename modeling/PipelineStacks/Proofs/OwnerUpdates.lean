import Mathlib.Data.Set.Insert
import PipelineStacks.Proofs.DeletionRace

/-!
# Owners that are recorded at the same time

To record an owner on an object, or to take it off again, is to look the object up and to replace
it by one that was made of what was found.  Several owners do so in turns.  What is written carries
the version of what was found (`OwnerChange.sameButOwners_edit`), and the store takes it only if it
still holds that version, so each replacement that is taken was made of the object that it replaces
(`found_of_update`).  Hence no change is lost: `owners_eq_changes`, which also compares what was
taken with what the changes report (`Accounted`).
-/

namespace PipelineStacks

open Program (Concurrent Exchange Rest Turn rest_ask settle guarded_bind guarded_question
  guarded_done)

/-! ## Changes of one owner -/

/-- One owner is recorded on an object, or a recorded asset is given up for it. -/
inductive OwnerChange
  | adopt (owner : Owner)
  | release (owner : Owner) (asset : AssetStatus) (target : String)

namespace OwnerChange

/-- Whose change it is. -/
def owner : OwnerChange → Owner
  | adopt w | release w _ _ => w

/-- The change is about the object under the key. -/
def At (key : ObjectKey) : OwnerChange → Prop
  | adopt _ => True
  | release _ x target => x.keyAt target = key

/-- A release has succeeded and has left the object to others. -/
def leftToOthers : Except Failure DeleteOutcome → Bool
  | .ok .disowned => true
  | _ => false

/-- Looks the object up and records the owner on it, or gives it up.  Tells whether the change is
reported as a success. -/
def program (key : ObjectKey) : OwnerChange → Pass Bool
  | adopt w => do
    match ← Pass.get key.kind key.inNamespace key.name with
    | .error _ => return false
    | .ok none => return false
    | .ok (some object) => return (← adoptAsset key.kind key.inNamespace object w).isOk
  | release w x target => return leftToOthers (← deleteAsset x target w)

/-- The object that is written for one that was found. -/
def edit (inNamespace : String) (o : Object) : OwnerChange → Object
  | adopt w => (w.mark inNamespace o).2
  | release w _ _ => (w.unmark o).2

/-- What the change means for the owners. -/
def apply : OwnerChange → Set String → Set String
  | adopt w, uids => insert w.uid uids
  | release w _ _, uids => uids \ {w.uid}

variable {d : OwnerChange} {key : ObjectKey}

/-- What is written differs in its owners only, and carries the version of what was found. -/
lemma sameButOwners_edit (ns : String) (o : Object) (d : OwnerChange) :
    o.SameButOwners (d.edit ns o) := by
  cases d with
  | adopt w => exact w.sameButOwners_mark ns o
  | release w x target => exact w.sameButOwners_unmark o

/-- What is written has the owners that the change means. -/
lemma owners_edit (hd : Listable d.owner.uid) (ns : String) (o : Object) :
    {u | u ∈ (d.edit ns o).owners} = d.apply {u | u ∈ o.owners} := by
  ext u
  cases d with
  | adopt w => exact w.mem_owners_mark ns o hd
  | release w x target =>
    change u ∈ (w.unmark o).2.owners ↔ _
    rw [w.owners_unmark, List.mem_filter, decide_eq_true_eq]
    rfl

/-- What a change may ask for.  A replacement is permitted only right after the object was found,
and it is made of the object that was found.  Nothing is created. -/
def Permits (d : OwnerChange) (key : ObjectKey) (last : Option (Exchange Effect.Answer)) :
    Effect → Prop
  | .get .. | .delete .. => True
  | .update kind ns o => kind = key.kind ∧ ns = key.inNamespace ∧
      ∃ object, last = some (Effect.found key object) ∧ o = d.edit ns object
  | _ => False

/-- A change asks for no more than what is permitted. -/
lemma program_guarded (hd : d.At key) (last : Option (Exchange Effect.Answer)) :
    (d.program key).Guarded (d.Permits key) last := by
  cases d with
  | adopt w =>
    refine ⟨trivial, fun answer => ?_⟩
    match answer with
    | .error e => exact guarded_done _
    | .ok none => exact guarded_done _
    | .ok (some object) =>
      have hadopt : (adoptAsset key.kind key.inNamespace object w).Guarded ((adopt w).Permits key)
          (some (Effect.found key object)) := by
        refine (adoptAsset_asks w key.kind key.inNamespace object _).imp ?_
        rintro last' e ⟨rfl, rfl⟩
        exact ⟨rfl, rfl, object, rfl, rfl⟩
      exact guarded_bind (k := fun result => .done result.isOk) hadopt fun _ _ => guarded_done _
  | release w x target =>
    obtain rfl : x.keyAt target = key := hd
    refine guarded_bind ?_ fun _ _ => guarded_done _
    unfold deleteAsset
    split
    · exact guarded_done _
    · refine ⟨trivial, fun answer => ?_⟩
      match answer with
      | .error e => exact guarded_done _
      | .ok none => exact guarded_done _
      | .ok (some object) =>
        refine (releaseObject_asks w x.objectKind (x.place target) x.name object _).imp ?_
        rintro last' e ⟨rfl, ⟨rfl, -⟩ | rfl⟩
        · trivial
        · exact ⟨rfl, rfl, object, rfl, rfl⟩

end OwnerChange

/-! ## Replacements that are taken -/

/-- The request has replaced an object. -/
def Effect.replaced : (e : Effect) → Effect.Answer e → Bool
  | .update .., answer => match (answer : Except Failure Unit) with
    | .ok () => true
    | .error _ => false
  | _, _ => false

/-! ## What is reported -/

namespace OwnerChange

/-- Some exchange has replaced an object. -/
def Taken (log : List (Exchange Effect.Answer)) : Prop :=
  ∃ x ∈ log, x.1.replaced x.2

/-- What is left of a change agrees with its exchanges: it has reported a success, and a replacement
was taken or there is another reason; or it has not, and none was taken. -/
def Accounted (reason : Prop) (log : List (Exchange Effect.Answer)) (p : Pass Bool) : Prop :=
  (p = .done true ∧ (Taken log ∨ reason)) ∨ (p ≠ .done true ∧ ¬Taken log)

variable {reason : Prop} {log : List (Exchange Effect.Answer)} {p : Pass Bool}

/-- An exchange that replaces nothing does not matter. -/
lemma Accounted.cons (h : Accounted reason log p) {x : Exchange Effect.Answer}
    (hx : x.1.replaced x.2 = false) : Accounted reason (x :: log) p := by
  have htaken : Taken (x :: log) ↔ Taken log := by simp [Taken, hx]
  rwa [Accounted, htaken]

lemma Accounted.imp (h : Accounted reason log p) {reason' : Prop} (himp : reason → reason') :
    Accounted reason' log p :=
  h.imp_left (And.imp_right (Or.imp_right himp))

/-- Where nothing was asked, there is no success unless it was reported. -/
lemma accounted_nil (h : p = .done true → reason) : Accounted reason [] p := by
  have hnone : ¬Taken [] := by simp [Taken]
  by_cases hp : p = .done true
  · exact .inl ⟨hp, .inr (h hp)⟩
  · exact .inr ⟨hp, hnone⟩

lemma accounted_success (hreason : reason) (h : Rest (.done true) log p) :
    Accounted reason log p := by
  obtain ⟨rfl, rfl⟩ := h.of_done
  exact accounted_nil fun _ => hreason

lemma accounted_failure (h : Rest (.done false) log p) : Accounted reason log p := by
  obtain ⟨rfl, rfl⟩ := h.of_done
  exact accounted_nil nofun

/-- A question that replaces nothing leaves it to what follows. -/
lemma accounted_ask {e : Effect} {next : Effect.Answer e → Pass Bool}
    (hidle : ∀ answer, e.replaced answer = false)
    (hnext : ∀ answer log, Rest (next answer) log p → Accounted reason log p)
    (h : Rest (.ask e next) log p) : Accounted reason log p := by
  rcases rest_ask h with ⟨rfl, rfl⟩ | ⟨answer, log', rfl, h'⟩
  · exact accounted_nil nofun
  · exact (hnext answer log' h').cons (hidle answer)

/-- A replacement is reported as a success exactly if it is taken. -/
lemma accounted_update {kind : Kind} {ns : String} {o : Object}
    {next : Effect.Answer (.update kind ns o) → Pass Bool}
    (hok : next (.ok () : Except Failure Unit) = .done true)
    (herror : ∀ e, next (.error e : Except Failure Unit) = .done false)
    (h : Rest (.ask (.update kind ns o) next) log p) : Accounted reason log p := by
  rcases rest_ask h with ⟨rfl, rfl⟩ | ⟨answer, log', rfl, h'⟩
  · exact accounted_nil nofun
  · cases answer with
    | ok u =>
      rw [hok] at h'
      obtain ⟨rfl, rfl⟩ := h'.of_done
      exact .inl ⟨rfl, .inl ⟨_, List.mem_cons_self, rfl⟩⟩
    | error e =>
      rw [herror] at h'
      exact (accounted_failure h').cons rfl

lemma accounted_adoptAsset {w : Owner} {kind : Kind} {ns : String} {object : Object}
    (h : Rest (adoptAsset kind ns object w >>= fun result => .done result.isOk) log p) :
    Accounted ((w.mark ns object).2 = object) log p := by
  unfold adoptAsset at h
  cases hmark : w.mark ns object with
  | mk changed o' =>
    rw [hmark] at h
    cases changed with
    | false =>
      have hsame : w.mark ns object = (false, object) := Owner.mark_eq_self (by rw [hmark])
      exact accounted_success (congrArg Prod.snd (hmark.symm.trans hsame)) h
    | true => exact accounted_update rfl (fun _ => rfl) h

lemma accounted_releaseObject {w : Owner} {kind : Kind} {ns name : String} {object : Object}
    (h : Rest (releaseObject kind ns name w object >>= fun result => .done (leftToOthers result))
      log p) : Accounted ((w.unmark object).2 = object) log p := by
  unfold releaseObject at h
  split at h
  · exact accounted_failure h
  · cases hunmark : w.unmark object with
    | mk changed o' =>
      simp only [hunmark] at h
      split at h
      · refine accounted_ask (fun _ => rfl) (fun answer log' h' => ?_) h
        cases answer <;> exact accounted_failure h'
      · cases changed with
        | true => exact accounted_update rfl (fun _ => rfl) h
        | false =>
          have hunmarked : w.isMarked object = false := by rw [← Owner.unmark_fst, hunmark]
          have hsame : w.unmark object = (false, object) := Owner.unmark_eq_self hunmarked
          exact accounted_success (congrArg Prod.snd (hunmark.symm.trans hsame)) h

/-- The object was found as the change would have it. -/
def Idle (d : OwnerChange) (key : ObjectKey) (log : List (Exchange Effect.Answer)) : Prop :=
  ∃ object, Effect.found key object ∈ log ∧ d.edit key.inNamespace object = object

/-- A change reports a success exactly for a replacement that was taken, or for an object that it
found as it would have it. -/
lemma accounted_program {d : OwnerChange} {key : ObjectKey} (hd : d.At key)
    (h : Rest (d.program key) log p) : Accounted (d.Idle key log) log p := by
  -- a change that has found the object goes on with it
  have hfound : ∀ object log', Accounted (d.edit key.inNamespace object = object) log' p →
      Accounted (d.Idle key (Effect.found key object :: log')) (Effect.found key object :: log')
        p := by
    intro object log' h'
    exact (h'.imp fun hsame => ⟨object, List.mem_cons_self, hsame⟩).cons rfl
  cases d with
  | adopt w =>
    rcases rest_ask h with ⟨rfl, rfl⟩ | ⟨answer, log', rfl, h'⟩
    · exact accounted_nil nofun
    match answer with
    | .error e => exact (accounted_failure h').cons rfl
    | .ok none => exact (accounted_failure h').cons rfl
    | .ok (some object) => exact hfound object log' (accounted_adoptAsset h')
  | release w x target =>
    obtain rfl : x.keyAt target = key := hd
    change Rest (deleteAsset x target w >>= fun result => .done (leftToOthers result)) log p at h
    unfold deleteAsset at h
    split at h
    · exact accounted_failure h
    rcases rest_ask h with ⟨rfl, rfl⟩ | ⟨answer, log', rfl, h'⟩
    · exact accounted_nil nofun
    match answer with
    | .error e => exact (accounted_failure h').cons rfl
    | .ok none => exact (accounted_failure h').cons rfl
    | .ok (some object) => exact hfound object log' (accounted_releaseObject h')

end OwnerChange

namespace VersionedStore

/-- Whose replacements were taken, in their order. -/
def updaters {κ : Type} (turns : List (Turn κ Effect.Answer)) : List κ :=
  (turns.filter fun x => x.2.1.replaced x.2.2).map (·.1)

lemma updaters_concat {κ : Type} (before : List (Turn κ Effect.Answer))
    (x : Turn κ Effect.Answer) : updaters (before ++ [x]) =
      updaters before ++ if x.2.1.replaced x.2.2 then [x.1] else [] := by
  rw [updaters, List.filter_append, List.map_append, List.filter_singleton]
  cases x.2.1.replaced x.2.2 <;> rfl

lemma mem_updaters {κ : Type} {turns : List (Turn κ Effect.Answer)} {i : κ} :
    i ∈ updaters turns ↔ ∃ e, (i, e) ∈ turns ∧ e.1.replaced e.2 := by
  simp only [updaters, List.mem_map, List.mem_filter]
  constructor
  · rintro ⟨⟨j, e⟩, ⟨hmem, htaken⟩, rfl⟩
    exact ⟨e, hmem, htaken⟩
  · rintro ⟨e, hmem, htaken⟩
    exact ⟨(i, e), ⟨hmem, htaken⟩, rfl⟩

/-- The object is there under a version that was given, with some owners, and all else is as it was
on another object. -/
def Holds (v : VersionedStore) (key : ObjectKey) (o : Object) (uids : Set String) : Prop :=
  ∃ o' version, v.objects key = some o' ∧ o'.metadata.resourceVersion = some version ∧
    version ∈ v.used ∧ o'.withoutOwners = o.withoutOwners ∧ {u | u ∈ o'.owners} = uids

variable {τ : Type} {c : Surroundings τ} {fresh : List String → String} {key : ObjectKey}
  {o : Object} {uids : Set String}

/-- Deletes under other keys leave the object alone. -/
lemma Holds.write_none {v : VersionedStore} (h : v.Holds key o uids) {key' : ObjectKey}
    (hne : key' ≠ key) : (v.write fresh key' none).Holds key o uids := by
  obtain ⟨o', version, ho', hrest⟩ := h
  exact ⟨o', version, (Objects.set_of_ne _ _ (Ne.symm hne)).trans ho', hrest⟩

/-- A change that is written for what the store holds changes its owners and nothing else. -/
lemma holds_write_edit {v : VersionedStore} {x : Object} (hsame : x.withoutOwners = o.withoutOwners)
    (howners : {u | u ∈ x.owners} = uids) {d : OwnerChange} (hd : Listable d.owner.uid)
    (ns : String) :
    (v.write fresh key (some (d.edit ns x))).Holds key o (d.apply uids) := by
  refine ⟨(d.edit ns x).withVersion (fresh v.used), fresh v.used, if_pos rfl, rfl,
    List.mem_cons_self, ?_, ?_⟩
  · exact (OwnerChange.sameButOwners_edit ns x d).withoutOwners.trans hsame
  · rw [← howners]
    exact OwnerChange.owners_edit hd ns x

/-- A replacement that is taken for the version of an object that was found replaces that object,
whatever was asked in between. -/
theorem found_of_update {κ : Type} (hfresh : ∀ used, fresh used ∉ used) {s : VersionedStore × τ}
    {i : κ} {between : List (Turn κ Effect.Answer)} {x : Object} {version : String}
    (hanswered : Program.Answered (c.versionedWorld fresh) s ((i, Effect.found key x) :: between))
    (hgiven : version ∈ s.1.used) {current : Object}
    (hcurrent : (settle (c.versionedWorld fresh) s
      ((i, Effect.found key x) :: between)).1.objects key = some current)
    (hsame : current.metadata.resourceVersion = some version) : current = x := by
  obtain ⟨hfound, hstore⟩ := get_versionedWorld hanswered.1
  have hidentifies : s.1.Identifies key version x :=
    ⟨hgiven, fun o' ho' _ => Option.some.inj (ho'.symm.trans hfound)⟩
  rw [← hstore] at hidentifies
  exact (hidentifies.settle hfresh).unique current hcurrent hsame

/-- A change that is taken is made of what the store holds. -/
lemma holds_of_update {κ : Type} (hfresh : ∀ used, fresh used ∉ used)
    (hname : o.nameText = key.name) {d : OwnerChange} (hd : Listable d.owner.uid)
    {s : VersionedStore × τ} {i : κ} {between : List (Turn κ Effect.Answer)} {x : Object}
    (hanswered : Program.Answered (c.versionedWorld fresh) s ((i, Effect.found key x) :: between))
    {uids' : Set String} (hthen : s.1.Holds key o uids')
    (hnow : (settle (c.versionedWorld fresh) s
      ((i, Effect.found key x) :: between)).1.Holds key o uids)
    (htaken : (c.versionedWorld fresh (.update key.kind key.inNamespace (d.edit key.inNamespace x))
      (settle (c.versionedWorld fresh) s ((i, Effect.found key x) :: between))).1 =
        (.ok () : Except Failure Unit)) :
    ((settle (c.versionedWorld fresh) s ((i, Effect.found key x) :: between)).1.write fresh
      ⟨key.kind, key.inNamespace, (d.edit key.inNamespace x).nameText⟩
      (some (d.edit key.inNamespace x))).Holds key o (d.apply uids) := by
  obtain ⟨x', version, hx', hversion, hgiven, hsame, -⟩ := hthen
  obtain rfl : x = x' := Option.some.inj ((get_versionedWorld hanswered.1).1.symm.trans hx')
  have hedit := OwnerChange.sameButOwners_edit key.inNamespace x d
  have hkey : (⟨key.kind, key.inNamespace, (d.edit key.inNamespace x).nameText⟩ : ObjectKey) =
      key := by
    rw [Object.nameText_of_withoutOwners (hedit.withoutOwners.trans hsame), hname]
  -- the version that is held is the one that was carried, and no other object has ever had it
  obtain ⟨current, hcurrent, hcarried⟩ := exists_current_of_update htaken
  rw [hkey] at hcurrent ⊢
  obtain rfl : current = x := found_of_update hfresh hanswered hgiven hcurrent
    (hcarried.symm.trans (hedit.resourceVersion.trans hversion))
  obtain ⟨o', -, ho', -, -, -, howners⟩ := hnow
  obtain rfl : current = o' := Option.some.inj (hcurrent.symm.trans ho')
  exact holds_write_edit hsame howners hd key.inNamespace

end VersionedStore

namespace OwnerChange

variable {κ τ : Type} [DecidableEq κ] {c : Surroundings τ} {fresh : List String → String}
  {change : κ → OwnerChange} {key : ObjectKey} {o : Object}

/-- Changes side by side on a store.  An owner may make several of them. -/
def concurrently (change : κ → OwnerChange) (key : ObjectKey) (v : VersionedStore) (t : τ) :
    Concurrent κ Effect.Answer Bool (VersionedStore × τ) where
  threads i := (change i).program key
  state := (v, t)

/-- A change that is reported as a success is among those whose replacements were taken, or it found
the object as it would have it; and whose replacement was taken has reported a success. -/
theorem accounted_after {i : κ} (hi : (change i).At key) (v : VersionedStore) (t : τ)
    (schedule : List κ) :
    let turns := (concurrently change key v t).turns (c.versionedWorld fresh) schedule
    let left := ((concurrently change key v t).after (c.versionedWorld fresh) schedule).threads i
    (left = .done true → i ∈ VersionedStore.updaters turns ∨
      ∃ object, (i, Effect.found key object) ∈ turns ∧
        (change i).edit key.inNamespace object = object) ∧
    (i ∈ VersionedStore.updaters turns → left = .done true) := by
  intro turns left
  have hrest : Rest ((change i).program key) (Concurrent.ownOf i turns) left :=
    (concurrently change key v t).rest_after (c.versionedWorld fresh) i schedule
  have htaken : Taken (Concurrent.ownOf i turns) ↔ i ∈ VersionedStore.updaters turns := by
    simp only [Taken, Concurrent.mem_ownOf, VersionedStore.mem_updaters]
  have hidle : (change i).Idle key (Concurrent.ownOf i turns) ↔
      ∃ object, (i, Effect.found key object) ∈ turns ∧
        (change i).edit key.inNamespace object = object := by
    simp only [Idle, Concurrent.mem_ownOf]
  have haccounted := accounted_program hi hrest
  rw [Accounted, htaken, hidle] at haccounted
  rcases haccounted with ⟨hdone, hreason⟩ | ⟨hnot, hrefused⟩
  · exact ⟨fun _ => hreason, fun _ => hdone⟩
  · exact ⟨fun hdone => (hnot hdone).elim, fun hmem => (hrefused hmem).elim⟩

/-- What some changes mean for the owners, one after the other. -/
def applyAll (change : κ → OwnerChange) (order : List κ) (uids : Set String) : Set String :=
  order.foldl (fun uids i => (change i).apply uids) uids

/-- The object has the owners that come of the replacements that were taken. -/
def Kept (c : Surroundings τ) (fresh : List String → String) (change : κ → OwnerChange)
    (key : ObjectKey) (o : Object) (s : VersionedStore × τ)
    (turns : List (Turn κ Effect.Answer)) : Prop :=
  (settle (c.versionedWorld fresh) s turns).1.Holds key o
    (applyAll change (VersionedStore.updaters turns) {u | u ∈ o.owners})

/-- The next turn keeps the object in step, if all turns before have done so. -/
lemma kept_concat (hlistable : ∀ i, Listable (change i).owner.uid)
    (hfresh : ∀ used, fresh used ∉ used) (hname : o.nameText = key.name)
    {s : VersionedStore × τ} {before : List (Turn κ Effect.Answer)} {i : κ} {e : Effect}
    {answer : Effect.Answer e}
    (hanswered : Program.Answered (c.versionedWorld fresh) s (before ++ [(i, ⟨e, answer⟩)]))
    (hpermitted : (change i).Permits key (Concurrent.lastOf i before) e)
    (hkept : e.written? answer ≠ some (key, none))
    (hbefore : ∀ earlier, earlier <+: before → Kept c fresh change key o s earlier) :
    Kept c fresh change key o s (before ++ [(i, ⟨e, answer⟩)]) := by
  rw [Program.answered_append] at hanswered
  obtain ⟨hanswered, hanswer, -⟩ := hanswered
  change answer = _ at hanswer
  have hnow := hbefore before (List.prefix_refl before)
  have hstore := VersionedStore.store_versionedWorld c fresh e
    (settle (c.versionedWorld fresh) s before)
  rw [← hanswer] at hstore
  have hsettle : settle (c.versionedWorld fresh) s (before ++ [(i, ⟨e, answer⟩)]) =
      (c.versionedWorld fresh e (settle (c.versionedWorld fresh) s before)).2 :=
    Program.settle_append _ _ _ _
  unfold Kept at hnow ⊢
  rw [hsettle, hstore, VersionedStore.updaters_concat]
  cases e with
  | get kind ns name => simpa [Effect.written?, Effect.replaced] using hnow
  | create kind ns o'' => exact hpermitted.elim
  | fetch source skip => exact hpermitted.elim
  | record ns name status => exact hpermitted.elim
  | count metric => exact hpermitted.elim
  | delete kind ns name =>
    cases answer with
    | error f => simpa [Effect.written?, Effect.replaced] using hnow
    | ok =>
      have hne : (⟨kind, ns, name⟩ : ObjectKey) ≠ key := fun heq => hkept (heq ▸ rfl)
      simpa [Effect.written?, Effect.replaced] using hnow.write_none hne
  | update kind ns o'' =>
    cases answer with
    | error f => simpa [Effect.written?, Effect.replaced] using hnow
    | ok =>
      -- what is written was made of the object that the same change has found before
      obtain ⟨rfl, rfl, x, hlast, rfl⟩ := hpermitted
      obtain ⟨earlier, between, rfl, -⟩ := Concurrent.exists_of_lastOf hlast
      rw [Program.answered_append] at hanswered
      rw [Program.settle_append] at hnow hanswer ⊢
      have hthen := hbefore earlier (List.prefix_append _ _)
      have hupdate := VersionedStore.holds_of_update hfresh hname (hlistable i) hanswered.2 hthen
        hnow hanswer.symm
      simpa [Effect.written?, Effect.replaced, applyAll] using hupdate

/-- Whatever turns the changes take, the object is kept in step with the replacements that were
taken, as long as it is not deleted. -/
lemma kept_of_answered (hlistable : ∀ i, Listable (change i).owner.uid)
    (hfresh : ∀ used, fresh used ∉ used) (hname : o.nameText = key.name)
    {s : VersionedStore × τ} (hstart : Kept c fresh change key o s [])
    {turns : List (Turn κ Effect.Answer)}
    (hanswered : Program.Answered (c.versionedWorld fresh) s turns)
    (hpermitted : ∀ before x rest, turns = before ++ x :: rest →
      (change x.1).Permits key (Concurrent.lastOf x.1 before) x.2.1)
    (hkept : ∀ x ∈ turns, x.2.1.written? x.2.2 ≠ some (key, none)) :
    ∀ earlier, earlier <+: turns → Kept c fresh change key o s earlier := by
  -- a change may rest on a look-up of any turn before, so all prefixes are carried along
  induction turns using List.reverseRecOn with
  | nil =>
    intro earlier hearlier
    obtain rfl := List.prefix_nil.mp hearlier
    exact hstart
  | append_singleton before x ih =>
    have hbefore : ∀ earlier, earlier <+: before → Kept c fresh change key o s earlier :=
      ih (Program.answered_append.mp hanswered).1
        (fun before' y rest hturns => hpermitted before' y (rest ++ [x]) (by simp [hturns]))
        fun y hy => hkept y (List.mem_append_left _ hy)
    intro earlier hearlier
    rcases List.prefix_concat_iff.mp hearlier with rfl | hearlier
    · exact kept_concat hlistable hfresh hname hanswered (hpermitted before x [] rfl)
        (hkept x (List.mem_append_right _ List.mem_cons_self)) hbefore
    · exact hbefore earlier hearlier

/-- Any number of owners are recorded on an object or taken off it, in turns in any order, and the
object is not deleted.  Then its owners are those that come of the replacements that were taken, one
after the other in their order, and all else on it is as it was.  A change that is reported as a
success is among these, or it found the object as it would have it; and all of these are reported as
successes. -/
theorem owners_eq_changes (hchange : ∀ i, (change i).At key)
    (hlistable : ∀ i, Listable (change i).owner.uid) (c : Surroundings τ)
    (hfresh : ∀ used, fresh used ∉ used) {v : VersionedStore} (ho : v.objects key = some o)
    (hname : o.nameText = key.name) {version : String}
    (hversion : o.metadata.resourceVersion = some version) (hgiven : version ∈ v.used) (t : τ)
    (schedule : List κ)
    (hkept : ∀ x ∈ (concurrently change key v t).turns (c.versionedWorld fresh) schedule,
      x.2.1.written? x.2.2 ≠ some (key, none)) :
    (∃ o', ((concurrently change key v t).after (c.versionedWorld fresh) schedule).state.1.objects
        key = some o' ∧
      {u | u ∈ o'.owners} = applyAll change (VersionedStore.updaters
        ((concurrently change key v t).turns (c.versionedWorld fresh) schedule))
        {u | u ∈ o.owners} ∧
      o'.withoutOwners = o.withoutOwners) ∧
    ∀ i,
      (((concurrently change key v t).after (c.versionedWorld fresh) schedule).threads i =
          .done true →
        i ∈ VersionedStore.updaters
          ((concurrently change key v t).turns (c.versionedWorld fresh) schedule) ∨
        ∃ object, (i, Effect.found key object) ∈
            (concurrently change key v t).turns (c.versionedWorld fresh) schedule ∧
          (change i).edit key.inNamespace object = object) ∧
      (i ∈ VersionedStore.updaters
          ((concurrently change key v t).turns (c.versionedWorld fresh) schedule) →
        ((concurrently change key v t).after (c.versionedWorld fresh) schedule).threads i =
          .done true) := by
  have hstart : Kept c fresh change key o (v, t) [] := ⟨o, version, ho, hversion, hgiven, rfl, rfl⟩
  have hpermitted : ∀ before x rest,
      (concurrently change key v t).turns (c.versionedWorld fresh) schedule = before ++ x :: rest →
        (change x.1).Permits key (Concurrent.lastOf x.1 before) x.2.1 := by
    intro before x rest hturns
    have h := Concurrent.guarded_of_turns (fun i => program_guarded (hchange i) none) hturns
    rwa [Option.or_none] at h
  obtain ⟨o', -, ho', -, -, hsame, howners⟩ := kept_of_answered hlistable hfresh hname hstart
    ((concurrently change key v t).answered_turns schedule) hpermitted hkept _ (List.prefix_refl _)
  refine ⟨⟨o', ?_, howners, hsame⟩, fun i => accounted_after (hchange i) v t schedule⟩
  rw [Concurrent.state_after]
  exact ho'

end OwnerChange

/-! ## A task that is given up and adopted -/

namespace Stack

/-- The stacks that change the owners of a task. -/
inductive Sharer
  | java
  | node
  | go
deriving DecidableEq

namespace Sharer

/-- The name and the uid of the stack, and the namespace: that of the task, or another. -/
def origin : Sharer → String × String × String
  | java => ("java", "uid-java", "kabanero")
  | node => ("node", "uid-node", "kabanero")
  | go => ("go", "uid-go", "tools")

/-- The stack as an owner. -/
def owner (r : Sharer) : Owner :=
  let (name, uid, home) := r.origin
  ⟨⟨resourceKind.apiVersion, resourceKind.name, name, uid, none, none⟩, home⟩

/-- One stack gives the task up, the others adopt it. -/
def change : Sharer → OwnerChange
  | java =>
    .release java.owner
      { name := "a", namespaceName := "kabanero", group := taskKind.group
        version := taskKind.version, kind := taskKind.name, state := .active } "kabanero"
  | node => .adopt node.owner
  | go => .adopt go.owner

/-- The changes on a task that another stack has as well. -/
def changes : Concurrent Sharer Effect.Answer Bool (VersionedStore × Unit) :=
  OwnerChange.concurrently change taskKey (Rival.store [java.owner.uid, "uid-ruby"]) ()

/-- Two stacks look the task up before one of them replaces it, so the other is refused; the third
comes later. -/
def order : List Sharer :=
  [java, node, java, node, go, go]

lemma at_change (r : Sharer) : (change r).At taskKey := by
  cases r
  · exact rfl
  · trivial
  · trivial

lemma listable_change (r : Sharer) : Listable (change r).owner.uid := by
  cases r <;> exact ⟨by decide, by decide, by decide⟩

set_option maxRecDepth 100000 in
/-- Two replacements are taken, and nothing is deleted. -/
lemma changes_turns :
    let turns := changes.turns Rival.world order
    VersionedStore.updaters turns = [java, go] ∧
      turns.all fun x => (x.2.1.written? x.2.2).all fun written => written.2.isSome := by
  decide +kernel

/-- The task is not deleted. -/
lemma changes_keep_task (x : Turn Sharer Effect.Answer)
    (hx : x ∈ changes.turns Rival.world order) : x.2.1.written? x.2.2 ≠ some (taskKey, none) := by
  intro hwritten
  have h := List.all_eq_true.mp changes_turns.2 x hx
  rw [hwritten] at h
  cases h

end Sharer

end Stack

open Stack Sharer in
/-- The first stack is taken off the task, the second is refused and the third is recorded; an owner
that none of them knows of stays.  The first and the third report a success. -/
theorem go_joins_ruby_on_the_task :
    (∃ o', (changes.after Rival.world order).state.1.objects taskKey = some o' ∧
      {u | u ∈ o'.owners} = {"uid-ruby", "uid-go"} ∧
      o'.withoutOwners = (taskOf []).withoutOwners) ∧
    (changes.after Rival.world order).threads java = .done true ∧
    (changes.after Rival.world order).threads go = .done true := by
  obtain ⟨⟨o', ho', howners, hsame⟩, hreports⟩ := OwnerChange.owners_eq_changes at_change
    listable_change (quiet (document "Task" "a")) VersionedStore.longer_not_mem
    (v := Rival.store [java.owner.uid, "uid-ruby"]) rfl rfl rfl List.mem_cons_self () order
    changes_keep_task
  have hupdaters : VersionedStore.updaters (changes.turns Rival.world order) = [java, go] :=
    changes_turns.1
  have hjava : java ∈ VersionedStore.updaters (changes.turns Rival.world order) := by
    rw [hupdaters]
    exact List.mem_cons_self
  have hgo : go ∈ VersionedStore.updaters (changes.turns Rival.world order) := by
    rw [hupdaters]
    exact List.mem_cons_of_mem _ List.mem_cons_self
  refine ⟨⟨o', ho', howners.trans ?_, hsame⟩, (hreports java).2 hjava, (hreports go).2 hgo⟩
  have hstored : ((taskOf [java.owner.uid, "uid-ruby"]).withVersion
      (VersionedStore.longer [])).owners = [java.owner.uid, "uid-ruby"] := owners_taskOf _
  rw [hstored]
  change OwnerChange.applyAll change
    (VersionedStore.updaters (changes.turns Rival.world order)) _ = _
  rw [hupdaters]
  ext u
  change u = "uid-go" ∨ u ∈ ["uid-java", "uid-ruby"] ∧ u ≠ "uid-java" ↔
    u = "uid-ruby" ∨ u = "uid-go"
  have hne : "uid-ruby" ≠ "uid-java" := by decide
  constructor
  · rintro (hadopted | ⟨hmem, hnot⟩)
    · exact .inr hadopted
    · exact .inl (by simpa [hnot] using hmem)
  · rintro (rfl | rfl)
    · exact .inr ⟨by simp, hne⟩
    · exact .inl rfl

end PipelineStacks
