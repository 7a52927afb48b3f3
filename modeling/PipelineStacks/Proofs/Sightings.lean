import PipelineStacks.Proofs.Completion
import PipelineStacks.Proofs.StoreTrace
import PipelineStacks.Proofs.Withdrawal

/-!
# What a pass sees

A pass sees an object when it looks it up and finds it (`Effect.Sights`).  If no request to the
store fails but look-ups, nothing that is seen is forgotten.  An object that the first round sees no
longer carries the uid of the owner (`frees_giveUp`), and one that the second round sees is active
in what the pass leaves of some archive that is needed (`tells_seeToAll`).  On objects that are not
seen the uid can only come by the creation of an object (`holds_seeToAll_iff`).
-/

namespace PipelineStacks

open Program (Exchange)

/-! ## Objects that carry a uid -/

/-- An object is there, and the uid is among its owners. -/
def Objects.Holds (uid : String) (objects : Objects) (key : ObjectKey) : Prop :=
  uid ∈ ((objects key).map Object.owners).getD []

instance (uid : String) (objects : Objects) (key : ObjectKey) :
    Decidable (objects.Holds uid key) :=
  inferInstanceAs (Decidable (_ ∈ _))

lemma Objects.holds_iff {uid : String} {objects : Objects} {key : ObjectKey} :
    objects.Holds uid key ↔ ∃ o, objects key = some o ∧ uid ∈ o.owners := by
  unfold Holds
  cases objects key <;> simp

/-- Only what is under the key matters. -/
lemma Objects.holds_congr {uid : String} {objects objects' : Objects} {key : ObjectKey}
    (h : objects' key = objects key) : objects'.Holds uid key ↔ objects.Holds uid key := by
  rw [Holds, Holds, h]

namespace Effect

/-- The object under the key was looked up and found. -/
def Sights (key : ObjectKey) (x : Exchange Effect.Answer) : Prop :=
  ∃ o, x = found key o

/-- An object that carries the uid was created under the key. -/
def Makes (uid : String) (key : ObjectKey) (x : Exchange Effect.Answer) : Prop :=
  ∃ kind ns o, x = ⟨.create kind ns o, (.ok () : Except Failure Unit)⟩ ∧
    key = ⟨kind, ns, o.nameText⟩ ∧ uid ∈ o.owners

variable {uid : String} {key : ObjectKey} {x : Exchange Effect.Answer}

lemma Sights.isLook (h : Sights key x) : x.1.isLook := by
  obtain ⟨o, rfl⟩ := h
  rfl

lemma Sights.isForStore (h : Sights key x) : x.1.isForStore := by
  obtain ⟨o, rfl⟩ := h
  rfl

lemma sights_get_iff (key' : ObjectKey) {answer : Except Failure (Option Object)} :
    Sights key ⟨.get key'.kind key'.inNamespace key'.name, answer⟩ ↔
      key = key' ∧ ∃ o, answer = .ok (some o) := by
  obtain ⟨kind, ns, name⟩ := key
  obtain ⟨kind', ns', name'⟩ := key'
  constructor
  · rintro ⟨o, ho⟩
    cases ho
    exact ⟨rfl, o, rfl⟩
  · rintro ⟨hkey, o, rfl⟩
    cases hkey
    exact ⟨o, rfl⟩

/-- A program that looks nothing up sees nothing. -/
lemma not_sights_of_guarded {α σ : Type} {G : Option (Exchange Effect.Answer) → Effect → Prop}
    {last : Option (Exchange Effect.Answer)} {p : Pass α} (h : p.Guarded G last)
    (hG : ∀ last' e, G last' e → e.isLook = false) {world : Program.World Effect.Answer σ} {s : σ} :
    ∀ x ∈ p.log world s, ¬ Sights key x := by
  intro x hx hsights
  have hlook : x.1.isLook = false := h.of_mem_log (Q := fun e => e.isLook = false) hG hx
  rw [hsights.isLook] at hlook
  cases hlook

lemma Makes.isCreate (h : Makes uid key x) : x.1.isCreate := by
  obtain ⟨kind, ns, o, rfl, -⟩ := h
  rfl

lemma Makes.isForStore (h : Makes uid key x) : x.1.isForStore := by
  obtain ⟨kind, ns, o, rfl, -⟩ := h
  rfl

lemma makes_create_iff {kind : Kind} {ns : String} {o : Object} :
    Makes uid key ⟨.create kind ns o, (.ok () : Except Failure Unit)⟩ ↔
      key = ⟨kind, ns, o.nameText⟩ ∧ uid ∈ o.owners := by
  constructor
  · rintro ⟨_, _, _, heq, hkey, huid⟩
    cases heq
    exact ⟨hkey, huid⟩
  · rintro ⟨hkey, huid⟩
    exact ⟨kind, ns, o, rfl, hkey, huid⟩

instance (uid : String) (key : ObjectKey) (x : Exchange Effect.Answer) :
    Decidable (Makes uid key x) :=
  match x with
  | ⟨.create kind ns o, answer⟩ =>
    match (answer : Except Failure Unit) with
    | .ok () => decidable_of_iff _ makes_create_iff.symm
    | .error f => .isFalse fun h => by obtain ⟨_, _, _, h, -⟩ := h; cases h
  | ⟨.get .., _⟩ | ⟨.update .., _⟩ | ⟨.delete .., _⟩ | ⟨.fetch .., _⟩ | ⟨.record .., _⟩
  | ⟨.count .., _⟩ => .isFalse fun h => Bool.noConfusion h.isCreate

lemma Makes.writesAt (h : Makes uid key x) : WritesAt key x := by
  obtain ⟨kind, ns, o, rfl, rfl, -⟩ := h
  exact ⟨some o, rfl⟩

end Effect

/-- What is given up no longer carries the uid of the owner, and all else is as it was. -/
lemma Owner.holds_withdraw_iff {w : Owner} {objects : Objects} {key key' : ObjectKey} :
    (w.withdraw objects key').Holds w.uid key ↔ objects.Holds w.uid key ∧ key ≠ key' := by
  by_cases hkey : key = key'
  · subst hkey
    refine iff_of_false (fun h => ?_) fun h => h.2 rfl
    obtain ⟨o, ho, huid⟩ := Objects.holds_iff.mp h
    rw [withdraw, Objects.set_same, Option.bind_eq_some_iff] at ho
    obtain ⟨o', -, hleft⟩ := ho
    unfold leave at hleft
    split at hleft
    · cases hleft
    · cases hleft
      rw [owners_unmark, List.mem_filter] at huid
      simp at huid
  · rw [and_iff_left hkey]
    exact Objects.holds_congr (Objects.set_of_ne _ _ hkey)

lemma Owner.holds_withdrawAll_iff {w : Owner} {objects : Objects} {key : ObjectKey}
    {keys : List ObjectKey} :
    (w.withdrawAll objects keys).Holds w.uid key ↔ objects.Holds w.uid key ∧ key ∉ keys := by
  induction keys generalizing objects with
  | nil => simp [withdrawAll]
  | cons key' keys ih =>
    change (w.withdrawAll (w.withdraw objects key') keys).Holds w.uid key ↔ _
    rw [ih, holds_withdraw_iff, List.mem_cons, not_or, and_assoc]

/-! ## Stores under names -/

namespace Surroundings

variable {τ α β : Type} {c : Surroundings τ}

/-- Whatever is asked, objects stay under their own names. -/
lemma wellKeyed_world {s : Objects × τ} (h : s.1.WellKeyed) (e : Effect) :
    (c.world e s).2.1.WellKeyed := by
  rw [c.store_world e s]
  cases hwritten : e.written? (c.world e s).1 with
  | none => exact h
  | some written =>
    obtain ⟨key, v⟩ := written
    generalize (c.world e s).1 = answer at hwritten
    cases e with
    | create kind ns o => match answer, hwritten with
      | .ok (), rfl => exact h.set_some rfl
    | update kind ns o => match answer, hwritten with
      | .ok (), rfl => exact h.set_some rfl
    | delete kind ns name => match answer, hwritten with
      | .ok (), rfl => exact h.set_none _
    | _ => cases hwritten

lemma wellKeyed_run (p : Pass α) {s : Objects × τ} (h : s.1.WellKeyed) :
    (p.run c.world s).2.1.WellKeyed := by
  induction p generalizing s with
  | done a => exact h
  | ask q next ih => exact ih _ (wellKeyed_world h q)

/-! ## The first round -/

/-- What carries the uid after the program did so before, and the program has not seen it. -/
def Frees (c : Surroundings τ) (uid : String) (key : ObjectKey) (p : Pass α) : Prop :=
  ∀ s : Objects × τ, s.1.WellKeyed → (p.run c.world s).2.1.Holds uid key →
    s.1.Holds uid key ∧ ∀ x ∈ p.log c.world s, ¬ Effect.Sights key x

variable {uid : String} {key : ObjectKey}

lemma frees_done (a : α) : c.Frees uid key (.done a : Pass α) :=
  fun _ _ h => ⟨h, fun _ hx => (List.not_mem_nil hx).elim⟩

lemma frees_count (metric : Metric) : c.Frees uid key (Pass.count metric) := by
  intro s _ h
  have hsame : (c.world (.count metric) s).2.1 = s.1 := c.store_world _ s
  have hasks : (Pass.count metric).Guarded (fun _ e => e = .count metric) none :=
    Program.guarded_question rfl
  exact ⟨(Objects.holds_congr (congrFun hsame key)).mp h,
    Effect.not_sights_of_guarded hasks fun _ e he => he ▸ rfl⟩

/-- What carries the uid after a sequence did so in between, and before. -/
theorem Frees.bind {p : Pass α} {k : α → Pass β} (hp : c.Frees uid key p)
    (hk : ∀ a, c.Frees uid key (k a)) : c.Frees uid key (p >>= k) := by
  intro s hkeyed h
  rw [Program.run_bind] at h
  obtain ⟨hbetween, hunseen⟩ := hk _ _ (wellKeyed_run p hkeyed) h
  obtain ⟨hbefore, hunseen'⟩ := hp s hkeyed hbetween
  rw [Program.log_bind]
  exact ⟨hbefore, List.forall_mem_append.mpr ⟨hunseen', hunseen⟩⟩

/-- After a look-up it is known whether the object was seen. -/
lemma frees_get_bind (key' : ObjectKey) {next : Except Failure (Option Object) → Pass α}
    (hfound : ∀ o (s : Objects × τ), s.1.WellKeyed → s.1 key' = some o →
      ((next (.ok (some o))).run c.world s).2.1.Holds uid key →
        s.1.Holds uid key ∧ key ≠ key' ∧
          ∀ x ∈ (next (.ok (some o))).log c.world s, ¬ Effect.Sights key x)
    (hother : ∀ answer, (∀ o, answer ≠ .ok (some o)) → c.Frees uid key (next answer)) :
    c.Frees uid key (Pass.get key'.kind key'.inNamespace key'.name >>= next) := by
  intro s hkeyed hholds
  let q : Effect := .get key'.kind key'.inNamespace key'.name
  have hsame : (c.world q s).2.1 = s.1 := c.store_world q s
  have hkeyed' : (c.world q s).2.1.WellKeyed := wellKeyed_world hkeyed q
  change ((next (c.world q s).1).run c.world (c.world q s).2).2.1.Holds uid key at hholds
  change s.1.Holds uid key ∧ ∀ x ∈ ⟨q, (c.world q s).1⟩ ::
    (next (c.world q s).1).log c.world (c.world q s).2, ¬ Effect.Sights key x
  rw [List.forall_mem_cons, ← hsame]
  by_cases hseen : ∃ o, (c.world q s).1 = (.ok (some o) : Except Failure (Option Object))
  · obtain ⟨o, hanswer⟩ := hseen
    have hthere : (c.world q s).2.1 key' = some o := by
      rw [hsame]
      exact (c.get_world hanswer).1
    rw [hanswer] at hholds ⊢
    obtain ⟨hbefore, hne, hunseen⟩ := hfound o _ hkeyed' hthere hholds
    exact ⟨hbefore, fun hsights => hne ((Effect.sights_get_iff key').mp hsights).1, hunseen⟩
  · obtain ⟨hbefore, hunseen⟩ :=
      hother _ (fun o ho => hseen ⟨o, ho⟩) _ hkeyed' hholds
    exact ⟨hbefore, fun hsights => hseen ((Effect.sights_get_iff key').mp hsights).2, hunseen⟩

lemma frees_traverse {κ ν μ : Type} [Ranked κ] {m : SortedMap κ ν} {f : κ → ν → Pass μ}
    (h : ∀ k v, c.Frees uid key (f k v)) : c.Frees uid key (m.traverse f) := by
  have hentries : ∀ es : List (κ × ν), c.Frees uid key (SortedMap.traverseEntries f es) := by
    intro es
    induction es with
    | nil => exact frees_done _
    | cons e es ih => exact (h e.1 e.2).bind fun _ => ih.bind fun _ => frees_done _
  exact (hentries m.entries).bind fun _ => frees_done _

end Surroundings

namespace Activation

open Surroundings

variable {τ : Type} {c : Surroundings τ} {key : ObjectKey}

/-- A recorded asset that is seen while it is given up no longer carries the uid. -/
lemma frees_deleteAsset (hc : c.OnlyLooksFail) (x : AssetStatus) (target : String) (w : Owner) :
    c.Frees w.uid key (deleteAsset x target w) := by
  unfold deleteAsset
  split
  · exact frees_done _
  · refine frees_get_bind (x.keyAt target) (fun o s hkeyed hthere hholds => ?_)
      fun answer hanswer => ?_
    · -- the object that was found is given up, and nothing else is looked up
      obtain ⟨outcome, hyields⟩ :=
        yields_releaseObject hc hthere (hkeyed _ o hthere) w
      obtain ⟨t', hrun⟩ := hyields s.2
      change ((releaseObject _ _ _ w o).run c.world (s.1, s.2)).2.1.Holds w.uid key at hholds
      rw [show (releaseObject x.objectKind (x.place target) x.name w o).run c.world (s.1, s.2) = _
        from hrun] at hholds
      obtain ⟨hbefore, hne⟩ := Owner.holds_withdraw_iff.mp hholds
      refine ⟨hbefore, hne, Effect.not_sights_of_guarded (releaseObject_asks w _ _ _ o none) ?_⟩
      rintro last' e ⟨-, ⟨rfl, -⟩ | rfl⟩ <;> rfl
    · match answer with
      | .error e => exact frees_done _
      | .ok none => exact frees_done _
      | .ok (some o) => exact (hanswer o rfl).elim

/-- What is seen while assets are given up no longer carries the uid. -/
lemma frees_releaseAssets (hc : c.OnlyLooksFail) (a : Activation) (l : List AssetStatus) :
    c.Frees a.owner.uid key (a.releaseAssets l) := by
  induction l with
  | nil => exact frees_done _
  | cons x l ih =>
    refine (frees_deleteAsset hc x a.target a.owner).bind fun result => ?_
    cases result with
    | error e => exact ih.bind fun _ => frees_done _
    | ok outcome =>
      by_cases h : outcome.isRelease
      · simp only [h, if_true]
        exact (frees_count _).bind fun _ => ih
      · simp only [h]
        exact ih

/-- What the first round of a pass sees no longer carries the uid after it, and it gives the uid to
nothing. -/
theorem frees_giveUp (hc : c.OnlyLooksFail) (a : Activation) (m : UseMap) :
    c.Frees a.owner.uid key (a.giveUp m) := by
  refine frees_traverse fun r u => ?_
  split
  · exact frees_done _
  · exact (frees_releaseAssets hc a _).bind fun _ => frees_done _

/-- The first round of a pass creates nothing. -/
lemma not_makes_giveUp {σ : Type} {world : Program.World Effect.Answer σ} {t : σ} (a : Activation)
    (m : UseMap) {uid : String} : ∀ x ∈ (a.giveUp m).log world t, ¬ Effect.Makes uid key x := by
  intro x hx hmakes
  have hround : (a.giveUp m).Conforms (fun _ _ => True) (a.owner.GivesUp Set.univ) _ none :=
    giveUp_conforms (S := Scope.unbounded a _) (fun _ _ _ _ _ _ => trivial)
      fun _ u _ => Scope.covers_unbounded u
  have hcreate : x.1.isCreate = false := by
    refine hround.guarded.of_mem_log (Q := fun e => e.isCreate = false) (fun _ e he => ?_) hx
    cases e with
    | create => exact he.elim
    | _ => rfl
  rw [hmakes.isCreate] at hcreate
  cases hcreate

end Activation

/-! ## The second round -/

namespace Surroundings

variable {τ α : Type} {c : Surroundings τ} {key : ObjectKey} {uid : String}

variable (c) in
/-- What was found is in the store. -/
lemma found_in_store {e : Effect} {o : Object} {s : Objects × τ}
    (h : (⟨e, (c.world e s).1⟩ : Exchange Effect.Answer) = Effect.found key o) :
    s.1 key = some o := by
  obtain ⟨rfl, hanswer⟩ := Sigma.mk.inj_iff.mp h
  exact (c.get_world (eq_of_heq hanswer)).1

/-- An object is created under a free key. -/
lemma free_of_created {kind : Kind} {ns : String} {o : Object} {s : Objects × τ}
    (h : (c.world (.create kind ns o) s).1 = (.ok () : Except Failure Unit)) :
    s.1 ⟨kind, ns, o.nameText⟩ = none := by
  unfold world at h
  cases hfault : c.fault (.create kind ns o) s.2 with
  | some f =>
    rw [hfault] at h
    cases h
  | none =>
    simp only [hfault, respond] at h
    cases hthere : s.1 ⟨kind, ns, o.nameText⟩ with
    | none => rfl
    | some o' =>
      rw [hthere] at h
      cases h

variable {w : Owner} {keys : Set ObjectKey} {made : Set (Asset × String)}
  {last : Option (Exchange Effect.Answer)}

/-- What was looked up last was found under its own name, and it was not the object under the
key. -/
def Elsewhere (key : ObjectKey) (last : Option (Exchange Effect.Answer)) : Prop :=
  ∀ key' o, last = some (Effect.found key' o) → o.nameText = key'.name ∧ key' ≠ key

lemma elsewhere_none : Elsewhere key none := by
  rintro key' o ⟨⟩

/-- While assets are seen to, the uid can come to an object that is not seen only by its
creation. -/
lemma holds_world_iff {e : Effect} (he : w.Tends keys made last e) (hlast : Elsewhere key last)
    (s : Objects × τ) : (c.world e s).2.1.Holds uid key ↔
      s.1.Holds uid key ∨ Effect.Makes uid key ⟨e, (c.world e s).1⟩ := by
  by_cases hwrites : Effect.WritesAt key ⟨e, (c.world e s).1⟩
  · obtain ⟨v, hv⟩ := hwrites
    have hthere := world_of_written hv
    generalize hanswer : (c.world e s).1 = answer at hv ⊢
    cases e with
    | create kind ns o =>
      match answer, hv with
      | .ok (), hv =>
        cases hv
        rw [Objects.Holds, Objects.Holds, hthere, free_of_created hanswer, Effect.makes_create_iff]
        simp
    | update kind ns o =>
      obtain ⟨key', -, object, hfound, rfl, rfl, rfl⟩ := he
      match answer, hv with
      | .ok (), hv =>
        cases hv
        obtain ⟨hname, hne⟩ := hlast key' object hfound
        refine (hne ?_).elim
        rw [Object.nameText_of_withoutOwners (w.sameButOwners_mark _ object).withoutOwners, hname]
    | delete kind ns name => exact he.elim
    | _ => cases hv
  · rw [Objects.holds_congr (world_of_not_writesAt hwrites)]
    exact (or_iff_left fun hmakes => hwrites hmakes.writesAt).symm

/-- The same of a whole program. -/
theorem holds_run_iff_of_unseen {p : Pass α} (h : p.Guarded (w.Tends keys made) last)
    (hlast : Elsewhere key last) {s : Objects × τ} (hkeyed : s.1.WellKeyed)
    (hunseen : ∀ x ∈ p.log c.world s, ¬ Effect.Sights key x) :
    (p.run c.world s).2.1.Holds uid key ↔
      s.1.Holds uid key ∨ ∃ x ∈ p.log c.world s, Effect.Makes uid key x := by
  induction p generalizing last s with
  | done a => simp
  | ask q next ih =>
    obtain ⟨hhead, htail⟩ := List.forall_mem_cons.mp hunseen
    have hnext : Elsewhere key (some ⟨q, (c.world q s).1⟩) := by
      intro key' o hfound
      have hthere := c.found_in_store (Option.some.inj hfound)
      refine ⟨hkeyed key' o hthere, ?_⟩
      rintro rfl
      exact hhead ⟨o, Option.some.inj hfound⟩
    have hrest := ih _ (h.2 _) hnext (wellKeyed_world hkeyed q) htail
    rw [holds_world_iff h.1 hlast s] at hrest
    simp only [Program.run, Program.log, List.exists_mem_cons_iff]
    rw [hrest, or_assoc]

/-- While assets are seen to, what is there is found by whoever looks for it. -/
theorem sights_of_look (hc : c.StoreFaultless) {p : Pass α} (h : p.Guarded (w.Tends keys made) last)
    {s : Objects × τ} (hthere : s.1 key ≠ none) {x : Exchange Effect.Answer}
    (hx : x ∈ p.log c.world s) (hlook : x.1 = .get key.kind key.inNamespace key.name) :
    Effect.Sights key x := by
  induction p generalizing last s with
  | done a => exact (List.not_mem_nil hx).elim
  | ask q next ih =>
    rcases List.mem_cons.mp hx with rfl | hx
    · obtain rfl : q = .get key.kind key.inNamespace key.name := hlook
      obtain ⟨o, ho⟩ := Option.ne_none_iff_exists'.mp hthere
      refine (Effect.sights_get_iff key).mpr ⟨rfl, o, ?_⟩
      simp only [world, hc (.get key.kind key.inNamespace key.name) s.2 rfl, respond]
      exact congrArg Except.ok ho
    · refine ih _ (h.2 _) ?_ hx
      by_cases hwrites : Effect.WritesAt key ⟨q, (c.world q s).1⟩
      · obtain ⟨v, hv⟩ := hwrites
        rw [world_of_written hv]
        exact h.1.put_of_written hv
      · rwa [world_of_not_writesAt hwrites]

end Surroundings

/-- The record says that the object under the key is there. -/
def AssetStatus.ActiveAt (x : AssetStatus) (target : String) (key : ObjectKey) : Prop :=
  x.state = .active ∧ x.keyAt target = key

instance (x : AssetStatus) (target : String) (key : ObjectKey) :
    Decidable (x.ActiveAt target key) :=
  inferInstanceAs (Decidable (_ ∧ _))

namespace Activation

variable {σ α : Type} {world : Program.World Effect.Answer σ} {key : ObjectKey} (a : Activation)
  (r : Reference)

/-- What the second round does to objects that it does not see. -/
lemma holds_seeToAll_iff {τ : Type} {c : Surroundings τ} {uid : String} (m : UseMap)
    {s : Objects × τ} (hkeyed : s.1.WellKeyed)
    (hunseen : ∀ x ∈ (a.seeToAll m).log c.world s, ¬ Effect.Sights key x) :
    ((a.seeToAll m).run c.world s).2.1.Holds uid key ↔
      s.1.Holds uid key ∨ ∃ x ∈ (a.seeToAll m).log c.world s, Effect.Makes uid key x :=
  Surroundings.holds_run_iff_of_unseen (seeToAll_guarded a m) Surroundings.elsewhere_none
    hkeyed hunseen

/-- A program that looks nothing up tells anything of what was seen. -/
lemma tells_of_guarded {p : Pass α} (h : p.Guarded (fun _ e => e.isLook = false) none)
    {P : α → Prop} : p.Tells world (Effect.Sights key) P :=
  Program.tells_of_silent fun _ => Effect.not_sights_of_guarded h fun _ _ => id

/-- An asset that was seen is active. -/
lemma tells_ensureAsset (p : Progress) (x : AssetStatus) :
    (a.ensureAsset r p x).Tells world (Effect.Sights key)
      fun found => found.1.ActiveAt a.target key := by
  obtain ⟨next, hensure, hnext⟩ := a.ensureAsset_look r p x
  rw [hensure]
  refine (Program.tells_question _).bind .anything
    (fun answer => tells_of_guarded (hnext answer none).guarded) fun answer hsights => ?_
  obtain ⟨hkey, o, rfl⟩ := (Effect.sights_get_iff (x.keyAt a.target)).mp hsights
  refine (hnext (.ok (some o)) none).always.imp ?_
  rintro found ⟨hsame, htells⟩
  exact ⟨htells.1, hkey ▸ hsame.keyAt⟩

/-- Some asset is active under the key if it was seen. -/
lemma tells_ensureAssets (p : Progress) (l : List AssetStatus) :
    (a.ensureAssets r p l).Tells world (Effect.Sights key)
      fun found => ∃ x ∈ found.1, x.ActiveAt a.target key := by
  induction l generalizing p with
  | nil => exact tells_of_guarded (Program.guarded_done _)
  | cons x l ih =>
    refine (a.tells_ensureAsset r p x).bind .anything (fun found => ?_) fun found hactive => ?_
    · refine (ih found.2).bind .anything (fun _ => tells_of_guarded (Program.guarded_done _)) ?_
      rintro rest ⟨y, hy, hactive⟩
      exact ⟨y, List.mem_cons_of_mem _ hy, hactive⟩
    · exact Program.always_bind.mpr (Program.always_of_forall fun _ =>
        ⟨found.1, List.mem_cons_self, hactive⟩)

lemma tells_ensureRecorded (u : Usage) :
    (a.ensureRecorded r u).Tells world (Effect.Sights key)
      fun u' => ∃ x ∈ u'.status.activeAssets, x.ActiveAt a.target key := by
  exact (a.tells_ensureAssets r _ _).bind .anything
    (fun _ => tells_of_guarded (Program.guarded_done _)) fun _ hactive => hactive

/-- What is seen of a needed archive is active in what is left of it. -/
lemma tells_ensure (u : Usage) :
    (a.ensure r u).Tells world (Effect.Sights key)
      fun u' => ∃ x ∈ u'.status.activeAssets, x.ActiveAt a.target key := by
  unfold ensure
  split
  · refine (tells_of_guarded (P := fun _ => False) (a.load_guarded r u)).bind .anything
      (fun loaded => ?_) fun _ => False.elim
    obtain ⟨succeeded, u'⟩ := loaded
    cases succeeded with
    | false => exact tells_of_guarded (Program.guarded_done _)
    | true => exact a.tells_ensureRecorded r _
  · exact a.tells_ensureRecorded r u

/-- What the second round sees is active in what it leaves of some archive that is needed. -/
theorem tells_seeToAll (m : UseMap) :
    (a.seeToAll m).Tells world (Effect.Sights key) fun m' => ∃ e ∈ m'.toEnsure,
      ∃ x ∈ e.2.status.activeAssets, x.ActiveAt a.target key := by
  have hround : (a.seeToAll m).Tells world (Effect.Sights key) fun m' => ∃ e ∈ m'.entries,
      e.2.isNeeded ∧ ∃ x ∈ e.2.status.activeAssets, x.ActiveAt a.target key := by
    refine Program.tells_traverse (Q := fun _ (u' : Usage) =>
      u'.isNeeded ∧ ∃ x ∈ u'.status.activeAssets, x.ActiveAt a.target key) fun e _ => ?_
    split
    · next hneeded =>
      intro t hseen
      obtain ⟨hactive, hkept⟩ := (a.tells_ensure e.1 e.2).and_always .anything
        (a.ensure_always_kept e.1 e.2) t hseen
      refine ⟨?_, hactive⟩
      rwa [Usage.isNeeded, hkept.useCount]
    · exact tells_of_guarded (Program.guarded_done _)
  intro t hseen
  obtain ⟨e, he, hneeded, hactive⟩ := hround t hseen
  exact ⟨e, List.mem_filter.mpr ⟨he, hneeded⟩, hactive⟩

/-- What is recorded of a needed archive is looked up in the second round. -/
lemma asksFor_seeToAll {m : UseMap} {r : Reference} {u : Usage} (hu : m.get? r = some u)
    (hneeded : u.isNeeded) {x : AssetStatus} (hx : x ∈ u.status.activeAssets) :
    (a.seeToAll m).AsksFor world fun e => e = .get x.objectKind (x.place a.target) x.name := by
  refine Program.asksFor_traverse (SortedMap.mem_entries_iff.mpr hu) ?_
  rw [if_pos hneeded]
  exact a.asksFor_ensure world r hx

end Activation

end PipelineStacks
