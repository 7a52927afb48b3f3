import PipelineStacks.Proofs.Completion
import PipelineStacks.Proofs.Leftovers

/-!
# What becomes of a lost status

A call changes the cluster first and writes the status it came to last.  If that write fails, the
next call starts from the status that was stored before, so what the call created is not recorded
anywhere.  Nothing is written ahead, and nothing in the cluster is searched for by its owner.

An object that is reported in the stored status stays reported as long as it carries the uid
(`made_of_report_dropped`).  So an object that was created is left behind only if its report was
lost (`Lost`): the write of a status that reports it failed, and no call has seen it since.
`released_unless_lost` says that this is exact.
-/

namespace PipelineStacks

open UseMap
open Program (Exchange)

/-! ## The end of a call -/

/-- A status that could not be written. -/
def Effect.unwritten (ns name : String) (status : StackStatus) (f : Failure) :
    Exchange Effect.Answer :=
  ⟨.record ns name status, (.error f : Except Failure Unit)⟩

/-- A program that asks nothing of the store leaves it alone. -/
lemma Surroundings.store_of_guarded {τ α : Type} {c : Surroundings τ} {p : Pass α}
    {last : Option (Exchange Effect.Answer)} (h : p.Guarded (fun _ e => e.isForStore = false) last)
    (s : Objects × τ) : (p.run c.world s).2.1 = s.1 := by
  induction p generalizing last s with
  | done a => rfl
  | ask q next ih =>
    have hsame : (c.world q s).2.1 = s.1 := by
      rw [c.store_world q s]
      cases q with
      | get | create | update | delete => cases h.1
      | _ => rfl
    exact (ih _ (h.2 _) _).trans hsame

namespace Stack

/-- The end of a call: the status that it came to is written. -/
def conclude (s : Stack) (status : StackStatus) : Pass (Except ReconcileError StackStatus) := do
  match ← s.updateStatus status with
  | .error e => return .error e
  | .ok _ =>
    Pass.count .reconciliationDuration
    Pass.count (.requeues .periodic)
    return .ok status

/-- Before its end a call brings the cluster in line. -/
lemma reconcile_eq (s : Stack) : s.reconcile = (do
    Pass.count .reconciliations
    match ← s.reconcileActiveVersions with
    | .error e => return .error e
    | .ok status => s.conclude status) := rfl

/-- The end of a call asks nothing of the store. -/
lemma conclude_guarded (s : Stack) (status : StackStatus)
    (last : Option (Exchange Effect.Answer)) :
    (s.conclude status).Guarded (fun _ e => e.isForStore = false) last := by
  have hwrite : (s.updateStatus status).Guarded (fun _ e => e.isForStore = false) last := by
    refine (s.updateStatus_guarded status last).imp ?_
    rintro last' e ⟨ns, -, rfl⟩
    rfl
  refine Program.guarded_bind hwrite fun written last' => ?_
  cases written with
  | error e => exact Program.guarded_done _
  | ok _ =>
    exact Program.guarded_bind (Program.guarded_question rfl) fun _ _ =>
      Program.guarded_bind (Program.guarded_question rfl) fun _ _ => Program.guarded_done _

/-- A status that is stored already is not written. -/
lemma conclude_of_unchanged {s : Stack} {status : StackStatus}
    (hchanged : s.statusChanged status = false) : s.conclude status = (do
      Pass.count .reconciliationDuration
      Pass.count (.requeues .periodic)
      return .ok status) := by
  rw [conclude, updateStatus, hchanged]
  rfl

/-- Any other status is written. -/
lemma conclude_of_changed {s : Stack} {status : StackStatus} {ns : String}
    (hns : s.metadata.namespaceName = some ns) (hchanged : s.statusChanged status = true) :
    s.conclude status = .ask (.record ns s.name status) fun answer =>
      match (answer : Except Failure Unit) with
      | .error f => .done (.error (.statusUpdate f))
      | .ok () => do
        Pass.count .reconciliationDuration
        Pass.count (.requeues .periodic)
        return .ok status := by
  rw [conclude, updateStatus, hchanged, if_pos rfl, hns]
  refine congrArg (Program.ask _) (funext fun answer => ?_)
  match answer with
  | .error f => rfl
  | .ok () => rfl

/-- Either the status is stored after the end of a call, or all that was asked is to write it, and
that failed. -/
lemma conclude_cases {s : Stack} {ns : String} (hns : s.metadata.namespaceName = some ns)
    (status : StackStatus) {σ : Type} (world : Program.World Effect.Answer σ) (t : σ) :
    ((s.conclude status).run world t).1 = .ok status ∧
      (∀ ns name status' f, Effect.unwritten ns name status' f ∉ (s.conclude status).log world t) ∨
    ∃ f, ((s.conclude status).run world t).1 = .error (.statusUpdate f) ∧
      (s.conclude status).log world t = [Effect.unwritten ns s.name status f] := by
  cases hchanged : s.statusChanged status with
  | false =>
    rw [conclude_of_unchanged hchanged]
    refine Or.inl ⟨rfl, fun ns name status' f hmem => ?_⟩
    rcases List.mem_cons.mp hmem with h | hmem
    · cases h
    · cases List.mem_singleton.mp hmem
  | true =>
    rw [conclude_of_changed hns hchanged]
    match hanswer : ((world (.record ns s.name status) t).1 : Except Failure Unit) with
    | .error f =>
      refine Or.inr ⟨f, ?_, ?_⟩
      · simp only [Program.run, hanswer]
      · simp only [Program.log, hanswer]
        rfl
    | .ok () =>
      simp only [Program.run, Program.log, hanswer]
      refine Or.inl ⟨rfl, fun ns' name status' f hmem => ?_⟩
      rcases List.mem_cons.mp hmem with h | hmem
      · cases h
      · rcases List.mem_cons.mp hmem with h | hmem
        · cases h
        · cases List.mem_singleton.mp hmem

end Stack

/-- A call that is over: the status that was stored before it, what it asked, and its result. -/
structure Called where
  stored : Option StackStatus
  log : List (Exchange Effect.Answer)
  result : Except ReconcileError StackStatus

namespace Called

/-- The status that is stored after the call. -/
def leaves (x : Called) : Option StackStatus :=
  match x.result with
  | .ok status => some status
  | .error _ => x.stored

/-- The status that the call came to is the one it yields, or the one that could not be written. -/
def CameTo (x : Called) (status : StackStatus) : Prop :=
  x.result = .ok status ∨ ∃ ns name f, Effect.unwritten ns name status f ∈ x.log

/-- The call came to a status that reports the object under the key as active. -/
def Reports (x : Called) (target : String) (key : ObjectKey) : Prop :=
  ∃ status, x.CameTo status ∧ status.Reports target key

/-- What is stored after the call is the status that it came to, or the write of it failed and all
is as before. -/
lemma leaves_cases (x : Called) : (∃ status, x.CameTo status ∧ x.leaves = some status) ∨
    (∃ e, x.result = .error e) ∧ x.leaves = x.stored := by
  unfold leaves
  split
  · next status hok => exact Or.inl ⟨status, Or.inl hok, rfl⟩
  · next e herror => exact Or.inr ⟨⟨e, herror⟩, rfl⟩

end Called

namespace Stack

variable {s : Stack} {a : Activation} {key : ObjectKey} {objects : Objects} {τ : Type}
  {c : Surroundings τ}

/-- The call that the stack makes in a store. -/
def call (s : Stack) (c : Surroundings τ) (start : Objects × τ) : Called where
  stored := s.status
  log := s.reconcile.log c.world start
  result := (s.reconcile.run c.world start).1

/-- A call brings the cluster in line, and then it comes to its end. -/
lemma exists_conclude (ha : s.activation = .ok a) (c : Surroundings τ) (objects : Objects) (t : τ) :
    ∃ t' status done, s.reconcileActiveVersions.run c.world (objects, t') = (.ok status, done) ∧
      s.reconcile.run c.world (objects, t) = (s.conclude status).run c.world done ∧
      s.reconcile.log c.world (objects, t) =
        ⟨.count .reconciliations, ()⟩ :: (s.reconcileActiveVersions.log c.world (objects, t') ++
          (s.conclude status).log c.world done) := by
  obtain ⟨m, hm, -⟩ := UseMap.build_eq_ok s.recorded.versions s.spec.versions
  obtain ⟨t', hcount⟩ := Surroundings.run_count (c := c) .reconciliations objects t
  have hpass := reconcileActiveVersions_run ha c.world (objects, t') hm
  refine ⟨t', _, _, hpass, ?_, ?_⟩
  · rw [reconcile_eq, Program.run_bind, hcount, Program.run_bind, hpass]
  · rw [reconcile_eq, Program.log_bind, hcount, Program.log_bind, hpass]
    rfl

/-- A call does to the store what it does to bring the cluster in line, and comes to the status that
this yields. -/
theorem call_cases (ha : s.activation = .ok a) (c : Surroundings τ) (objects : Objects) (t : τ) :
    ∃ t' status, (s.reconcileActiveVersions.run c.world (objects, t')).1 = .ok status ∧
      (s.reconcile.run c.world (objects, t)).2.1 =
        (s.reconcileActiveVersions.run c.world (objects, t')).2.1 ∧
      (∀ e, e.1.isForStore → (e ∈ (s.call c (objects, t)).log ↔
        e ∈ s.reconcileActiveVersions.log c.world (objects, t'))) ∧
      ∀ status', (s.call c (objects, t)).CameTo status' ↔ status' = status := by
  obtain ⟨-, hns, -⟩ := activation_eq_ok ha
  obtain ⟨t', status, done, hpass, hrun, hlog⟩ := exists_conclude ha c objects t
  refine ⟨t', status, congrArg Prod.fst hpass, ?_, fun e he => ?_, fun status' => ?_⟩
  · rw [hrun, hpass, Surroundings.store_of_guarded (s.conclude_guarded status none)]
  · have hend : e ∉ (s.conclude status).log c.world done := by
      intro hmem
      have hstore : e.1.isForStore = false := (s.conclude_guarded status none).of_mem_log
        (Q := fun e => e.isForStore = false) (fun _ _ => id) hmem
      rw [he] at hstore
      cases hstore
    have hbegin : e ≠ ⟨.count .reconciliations, ()⟩ := by
      rintro rfl
      cases he
    change e ∈ s.reconcile.log c.world (objects, t) ↔ _
    rw [hlog, List.mem_cons, or_iff_right hbegin, List.mem_append, or_iff_left hend]
  · have hlogged : ∀ ns name f, Effect.unwritten ns name status' f ∈ (s.call c (objects, t)).log ↔
        Effect.unwritten ns name status' f ∈ (s.conclude status).log c.world done := by
      intro ns name f
      have hbegin : Effect.unwritten ns name status' f ≠ ⟨.count .reconciliations, ()⟩ := nofun
      have hpassed : Effect.unwritten ns name status' f ∉
          s.reconcileActiveVersions.log c.world (objects, t') :=
        fun hmem => Bool.noConfusion (isRecord_of_mem_log ha hmem)
      change _ ∈ s.reconcile.log c.world (objects, t) ↔ _
      rw [hlog, List.mem_cons, or_iff_right hbegin, List.mem_append, or_iff_right hpassed]
    simp only [Called.CameTo, hlogged]
    rcases conclude_cases hns status c.world done with ⟨hok, hwritten⟩ | ⟨f, herror, hlost⟩
    · have hresult : (s.call c (objects, t)).result = .ok status :=
        (congrArg Prod.fst hrun).trans hok
      simp only [hresult, hwritten, exists_false, or_false, Except.ok.injEq]
      exact eq_comm
    · have hresult : (s.call c (objects, t)).result = .error (.statusUpdate f) :=
        (congrArg Prod.fst hrun).trans herror
      rw [hresult, hlost]
      constructor
      · rintro (h | ⟨ns', name, f', hmem⟩)
        · cases h
        · cases List.mem_singleton.mp hmem
          rfl
      · rintro rfl
        exact Or.inr ⟨_, _, f, List.mem_singleton_self _⟩

/-! ## Reports stay -/

/-- If no request to the store fails in a pass, a report is only dropped if the object no longer
carries the uid, or was created anew. -/
theorem made_of_report_dropped (ha : s.activation = .ok a) (hrecorded : s.recorded.Orderly)
    (hc : c.StoreFaultless) (hobjects : objects.WellKeyed) {t : τ} {status : StackStatus}
    (hrun : (s.reconcileActiveVersions.run c.world (objects, t)).1 = .ok status)
    (hreported : s.recorded.Reports a.target key) (hdropped : ¬ status.Reports a.target key)
    (hholds : (s.reconcileActiveVersions.run c.world (objects, t)).2.1.Holds a.owner.uid key) :
    ∃ x ∈ s.reconcileActiveVersions.log c.world (objects, t),
      Effect.Makes a.owner.uid key x := by
  obtain ⟨m, hm, -⟩ := UseMap.build_eq_ok s.recorded.versions s.spec.versions
  obtain ⟨first, hfirst, hmap, hstore, hdone⟩ := run_of_faultless ha hm hobjects hc t
  rw [log_reconcileActiveVersions ha c.world (objects, t) hm, hfirst]
  rw [reconcileActiveVersions_run ha c.world (objects, t) hm] at hrun
  obtain rfl := Except.ok.inj hrun
  have hunseen := unseen_of_unreported hrecorded hm hdropped
  rw [hfirst] at hunseen
  have hkeyed : first.2.1.WellKeyed := hfirst ▸ Surroundings.wellKeyed_run (a.giveUp m) hobjects
  rw [hdone, a.holds_seeToAll_iff first.1 hkeyed hunseen] at hholds
  rcases hholds with hbetween | ⟨x, hx, hmakes⟩
  · -- between the rounds the object carries the uid, so it was not given up, and it is looked up
    obtain ⟨v, hv, p, hp, x, hx, hactive, hkey⟩ := hreported
    obtain ⟨u, hu⟩ := Option.isSome_iff_exists.mp (isSome_get?_of_recorded hm hv hp)
    rw [hrecorded.assets v hv p hp, ← activeAssets_of_build hm hu] at hx
    obtain ⟨o, ho, -⟩ := Objects.holds_iff.mp hbetween
    rw [hstore, Owner.holds_withdrawAll_iff, mem_leavings_iff] at hbetween
    by_cases hcount : 0 < u.useCount
    · have hneeded : u.isNeeded := decide_eq_true hcount
      have hkept : first.1.get? (.ofStatus p) = some u := by
        obtain ⟨u', hu', rfl⟩ := (m.pointwise_map fun _ u => u.givenUp).of_some hu
        rwa [hmap, ← Usage.givenUp_of_needed hneeded]
      obtain ⟨y, hy, hlook⟩ := a.asksFor_seeToAll hkept hneeded hx first.2
      refine (hunseen y hy ?_).elim
      have hround : (a.seeToAll first.1).Guarded _ none := a.seeToAll_guarded first.1
      exact Surroundings.sights_of_look hc hround (ho ▸ Option.some_ne_none o) hy (hkey ▸ hlook)
    · exact (hbetween.2 ⟨_, u, mem_toDelete.mpr ⟨hu, hcount⟩, x, hx, hactive, hkey⟩).elim
  · exact ⟨x, List.mem_append_right _ hx, hmakes⟩

/-! ## Many calls -/

/-- The stack with what it asks for replaced, and with what is stored as its status. -/
def renewed (s : Stack) (spec : StackSpec) (stored : Option StackStatus) : Stack :=
  { s with spec, status := stored }

/-- What a stack can go through, the latest call first, with the status that is stored and what is
in the store then.  The spec may be another one for every call.  No request to the store fails, but
the status may not be written, and fetches may fail.  Between calls others may do what they like to
the store but to give the uid to an object. -/
inductive Calls (s : Stack) (uid : String) : List Called → Option StackStatus → Objects → Prop
  | start {stored : Option StackStatus} {objects : Objects} (hstored : (stored.getD {}).Orderly)
      (hobjects : objects.WellKeyed) : Calls s uid [] stored objects
  | call {past : List Called} {stored : Option StackStatus} {objects : Objects}
      (h : Calls s uid past stored objects) {τ : Type} {c : Surroundings τ} (hc : c.StoreFaultless)
      (t : τ) {spec : StackSpec} (hspec : spec.Distinct) :
      Calls s uid ((s.renewed spec stored).call c (objects, t) :: past)
        ((s.renewed spec stored).call c (objects, t)).leaves
        ((s.renewed spec stored).reconcile.run c.world (objects, t)).2.1
  | meanwhile {past : List Called} {stored : Option StackStatus} {objects objects' : Objects}
      (h : Calls s uid past stored objects) (hobjects : objects'.WellKeyed)
      (hholds : ∀ key, objects'.Holds uid key → objects.Holds uid key) :
      Calls s uid past stored objects'

/-- The report of an object is lost: a call came to a status that reports it, which could not be
written, and what was stored does not report it; and no call since has seen it or come to a status
that reports it. -/
inductive Lost (target : String) (key : ObjectKey) : List Called → Prop
  | unwritten {x : Called} {past : List Called} (hreports : x.Reports target key)
      (herror : ∃ e, x.result = .error e) (hstored : ¬ (x.stored.getD {}).Reports target key) :
      Lost target key (x :: past)
  | since {x : Called} {past : List Called} (hunreported : ¬ x.Reports target key)
      (hunseen : ∀ e ∈ x.log, ¬ Effect.Sights key e) (h : Lost target key past) :
      Lost target key (x :: past)

variable {uid : String} {past : List Called} {stored : Option StackStatus}

/-- What is stored is orderly, and objects are under their own names. -/
lemma Calls.orderly (ha : s.activation = .ok a) (h : s.Calls uid past stored objects) :
    (stored.getD {}).Orderly ∧ objects.WellKeyed := by
  induction h with
  | start hstored hobjects => exact ⟨hstored, hobjects⟩
  | @call past stored objects h τ c hc t spec hspec ih =>
    refine ⟨?_, Surroundings.wellKeyed_run _ ih.2⟩
    obtain ⟨a', ha', -⟩ := exists_activation_of_metadata ha (s.renewed spec stored) rfl
    obtain ⟨t', status, hrun, -, -, hcame⟩ := call_cases ha' c objects t
    rcases ((s.renewed spec stored).call c (objects, t)).leaves_cases with
      ⟨status', hcame', hleaves⟩ | ⟨-, hleaves⟩
    · rw [hleaves, (hcame status').mp hcame']
      exact orderly_of_run ha' ih.1 hspec hrun
    · rw [hleaves]
      exact ih.1
  | meanwhile h hobjects hholds ih => exact ⟨ih.1, hobjects⟩

/-- A lost report is not in the stored status. -/
lemma Calls.unreported_of_lost (h : s.Calls uid past stored objects) {target : String}
    (hlost : Lost target key past) : ¬ (stored.getD {}).Reports target key := by
  induction h with
  | start hstored hobjects => cases hlost
  | @call past stored objects h τ c hc t spec hspec ih =>
    rcases ((s.renewed spec stored).call c (objects, t)).leaves_cases with
      ⟨status, hcame, hleaves⟩ | ⟨-, hleaves⟩
    · rw [hleaves]
      cases hlost with
      | unwritten hreports herror hstored =>
        obtain ⟨e, herror⟩ := herror
        rw [Called.leaves, herror] at hleaves
        exact hleaves ▸ hstored
      | since hunreported hunseen hlost => exact fun h => hunreported ⟨status, hcame, h⟩
    · rw [hleaves]
      cases hlost with
      | unwritten hreports herror hstored => exact hstored
      | since hunreported hunseen hlost => exact ih hlost
  | meanwhile h hobjects hholds ih => exact ih hlost

/-- If an object that a call created still carries the uid and is not reported, its report is
lost. -/
theorem Calls.lost (ha : s.activation = .ok a) (h : s.Calls a.owner.uid past stored objects)
    (hmade : ∃ x ∈ past, ∃ e ∈ x.log, Effect.Makes a.owner.uid key e)
    (hmakers : ∀ x ∈ past, (∃ e ∈ x.log, Effect.Makes a.owner.uid key e) → x.Reports a.target key)
    (hholds : objects.Holds a.owner.uid key)
    (hunreported : ¬ (stored.getD {}).Reports a.target key) : Lost a.target key past := by
  induction h with
  | start hstored hobjects =>
    obtain ⟨x, hx, -⟩ := hmade
    exact (List.not_mem_nil hx).elim
  | @call past stored objects h τ c hc t spec hspec ih =>
    obtain ⟨a', ha', howner, htarget⟩ :=
      exists_activation_of_metadata ha (s.renewed spec stored) rfl
    obtain ⟨hstored, hobjects⟩ := h.orderly ha
    obtain ⟨t', status, hrun, hstore, hlog, hcame⟩ := call_cases ha' c objects t
    by_cases hreports : ((s.renewed spec stored).call c (objects, t)).Reports a.target key
    · rcases ((s.renewed spec stored).call c (objects, t)).leaves_cases with
        ⟨status', hcame', hleaves⟩ | ⟨herror, hleaves⟩
      · obtain ⟨status'', hcame'', hreported⟩ := hreports
        rw [hleaves, (hcame status').mp hcame', ← (hcame status'').mp hcame''] at hunreported
        exact (hunreported hreported).elim
      · rw [hleaves] at hunreported
        exact .unwritten hreports herror hunreported
    · have hunmade : ¬ ∃ e ∈ ((s.renewed spec stored).call c (objects, t)).log,
          Effect.Makes a.owner.uid key e := fun h => hreports (hmakers _ List.mem_cons_self h)
      have hunmade' : ¬ ∃ e ∈ (s.renewed spec stored).reconcileActiveVersions.log c.world
          (objects, t'), Effect.Makes a.owner.uid key e := by
        rintro ⟨e, he, hmakes⟩
        exact hunmade ⟨e, (hlog e hmakes.isForStore).mpr he, hmakes⟩
      have hdropped : ¬ status.Reports a.target key := fun h =>
        hreports ⟨status, (hcame status).mpr rfl, h⟩
      rw [hstore] at hholds
      rw [← howner] at hunmade' hholds
      rw [← htarget] at hdropped
      obtain ⟨hbefore, hunseen⟩ := (made_or_unseen_of_unreported key ha' hstored
        hc.onlyLooksFail hobjects hrun hdropped hholds).resolve_left hunmade'
      have hunreported' : ¬ (stored.getD {}).Reports a'.target key := fun hreported => hunmade'
        (made_of_report_dropped ha' hstored hc hobjects hrun hreported hdropped hholds)
      rw [howner] at hbefore
      rw [htarget] at hunreported'
      obtain ⟨x, hx, hmade⟩ := hmade
      rcases List.mem_cons.mp hx with rfl | hx
      · exact (hunmade hmade).elim
      · refine .since hreports (fun e he hsights => ?_) (ih ⟨x, hx, hmade⟩
          (fun y hy => hmakers y (List.mem_cons_of_mem _ hy)) hbefore hunreported')
        exact hunseen e ((hlog e hsights.isForStore).mp he) hsights
  | meanwhile h hobjects hkept ih => exact ih hmade hmakers (hkept key hholds) hunreported

/-- An object that a call created, and that every call that created it reports, is released by a
later call that succeeds and in which no archive that is asked for lists it: unless this call
creates it, it carries the uid of the stack after the call exactly if it carried it before and its
report is lost. -/
theorem released_unless_lost (ha : s.activation = .ok a)
    (h : s.Calls a.owner.uid past stored objects)
    (hmade : ∃ x ∈ past, ∃ e ∈ x.log, Effect.Makes a.owner.uid key e)
    (hmakers : ∀ x ∈ past, (∃ e ∈ x.log, Effect.Makes a.owner.uid key e) → x.Reports a.target key)
    (spec : StackSpec) (hc : c.StoreFaultless) (t : τ) {status : StackStatus}
    (hok : ((s.renewed spec stored).call c (objects, t)).result = .ok status)
    (hunlisted : ∀ r x, Asked spec.versions r → status.Lists r x → x.keyAt a.target ≠ key) :
    ((s.renewed spec stored).reconcile.run c.world (objects, t)).2.1.Holds a.owner.uid key ↔
      (∃ e ∈ ((s.renewed spec stored).call c (objects, t)).log,
        Effect.Makes a.owner.uid key e) ∨
      objects.Holds a.owner.uid key ∧ Lost a.target key past := by
  obtain ⟨a', ha', howner, htarget⟩ :=
    exists_activation_of_metadata ha (s.renewed spec stored) rfl
  obtain ⟨hstored, hobjects⟩ := h.orderly ha
  obtain ⟨t', status', hrun, hstore, hlog, hcame⟩ := call_cases ha' c objects t
  obtain rfl := (hcame status).mp (Or.inl hok)
  rw [← htarget] at hunlisted
  have hpass := holds_after_faultless_pass ha' hstored hc hobjects hrun hunlisted
  rw [howner, htarget] at hpass
  rw [hstore, hpass]
  refine or_congr ?_ (and_congr_right fun hholds => ?_)
  · exact exists_congr fun e => and_congr_left fun hmakes => (hlog e hmakes.isForStore).symm
  · exact ⟨h.lost ha hmade hmakers hholds, h.unreported_of_lost⟩

/-! ## A task whose status could not be written -/

/-- The surroundings of the task while no status can be written. -/
def unwritable : Surroundings Unit :=
  .serving (document "Task" "a") Effect.isRecord

lemma storeFaultless_unwritable : unwritable.StoreFaultless :=
  Surroundings.storeFaultless_serving _ fun e he => by cases e <;> first | rfl | cases he

/-- A call for the task with nothing stored. -/
def taskCall (c : Surroundings Unit) (objects : Objects) : Called :=
  ((asking [] []).renewed taskSpec none).call c (objects, ())

/-- What is in the store after a call for the task with nothing stored. -/
def storeAfterCall (c : Surroundings Unit) (objects : Objects) : Objects :=
  (((asking [] []).renewed taskSpec none).reconcile.run c.world (objects, ())).2.1

/-- A call that comes to the status with the task reports it. -/
lemma reports_taskCall {c : Surroundings Unit} {objects : Objects}
    (hrun : (((asking [] []).renewed taskSpec none).reconcileActiveVersions.run c.world
      (objects, ())).1 = .ok checkedStatus) :
    (taskCall c objects).Reports "kabanero" taskKey := by
  obtain ⟨t', status, hrun', -, -, hcame⟩ :=
    call_cases (s := (asking [] []).renewed taskSpec none) rfl c objects ()
  obtain rfl := Except.ok.inj (hrun'.symm.trans hrun)
  exact ⟨_, (hcame _).mpr rfl, reports_checkedStatus⟩

/-- The call that creates the task and fails to write its status. -/
def unrecordedCall : Called :=
  taskCall unwritable fun _ => none

/-- The store after the task was created. -/
def unrecordedStore : Objects :=
  storeAfterCall unwritable fun _ => none

set_option maxRecDepth 100000 in
/-- The task is created, and nothing is stored. -/
lemma unrecordedCall_created : unrecordedCall.leaves = none ∧
    ∃ e ∈ unrecordedCall.log, Effect.Makes "uid-java" taskKey e := by
  decide +kernel

set_option maxRecDepth 100000 in
lemma reports_unrecordedCall : unrecordedCall.Reports "kabanero" taskKey :=
  reports_taskCall (by decide +kernel)

/-- The stack can come to have created the task with nothing stored. -/
lemma calls_unrecorded :
    (asking [] []).Calls "uid-java" [unrecordedCall] none unrecordedStore := by
  have hempty : Objects.WellKeyed fun _ => none := fun _ _ h => nomatch h
  have hstart : (asking [] []).Calls "uid-java" [] none fun _ => none :=
    .start StackStatus.orderly_empty hempty
  have hcall := hstart.call storeFaultless_unwritable () distinct_taskSpec
  exact unrecordedCall_created.1 ▸ hcall

set_option maxRecDepth 100000 in
/-- If it is reported again before the version is removed, the task is released. -/
theorem task_reported_again_is_released :
    ∃ past, (asking [] []).Calls "uid-java" past (some checkedStatus)
        (storeAfterCall clear unrecordedStore) ∧
      (∃ x ∈ past, ∃ e ∈ x.log, Effect.Makes "uid-java" taskKey e) ∧
      (∀ x ∈ past, (∃ e ∈ x.log, Effect.Makes "uid-java" taskKey e) →
        x.Reports "kabanero" taskKey) ∧
      ¬ (((asking [] []).renewed {} (some checkedStatus)).reconcile.run clear.world
        (storeAfterCall clear unrecordedStore, ())).2.1.Holds "uid-java" taskKey := by
  let again := taskCall clear unrecordedStore
  let last := ((asking [] []).renewed {} (some checkedStatus)).call clear
    (storeAfterCall clear unrecordedStore, ())
  have hcomputed : again.leaves = some checkedStatus ∧
      last.result = .ok { summary := some "0 active versions, 0 failed assets" } ∧
      ¬ ∃ e ∈ last.log, Effect.Makes "uid-java" taskKey e := by decide +kernel
  obtain ⟨hleaves, hok, hunmade⟩ := hcomputed
  have hcalls : (asking [] []).Calls "uid-java" [again, unrecordedCall] (some checkedStatus)
      (storeAfterCall clear unrecordedStore) :=
    hleaves ▸ calls_unrecorded.call storeFaultless_clear () distinct_taskSpec
  have hmade : ∃ x ∈ [again, unrecordedCall], ∃ e ∈ x.log, Effect.Makes "uid-java" taskKey e :=
    ⟨_, List.mem_cons_of_mem _ List.mem_cons_self, unrecordedCall_created.2⟩
  have hmakers : ∀ x ∈ [again, unrecordedCall],
      (∃ e ∈ x.log, Effect.Makes "uid-java" taskKey e) → x.Reports "kabanero" taskKey := by
    intro x hx _
    rcases List.mem_cons.mp hx with rfl | hx
    · exact reports_taskCall (by decide +kernel)
    · exact List.mem_singleton.mp hx ▸ reports_unrecordedCall
  refine ⟨_, hcalls, hmade, hmakers, fun hholds => ?_⟩
  have hunlisted : ∀ (status : StackStatus) (r : Reference) (x : AssetStatus),
      Asked ({} : StackSpec).versions r → status.Lists r x → x.keyAt "kabanero" ≠ taskKey := by
    rintro status r x ⟨v, hv, -⟩
    exact (List.not_mem_nil hv).elim
  rcases (released_unless_lost (activation_asking [] []) hcalls hmade hmakers {}
    storeFaultless_clear () hok (hunlisted _)).mp hholds with hmakes | ⟨-, hlost⟩
  · exact hunmade hmakes
  · exact hcalls.unreported_of_lost hlost reports_checkedStatus

set_option maxRecDepth 100000 in
/-- If the version is removed right after the status could not be written, the task is left though
nothing fails any more: it was created and reported as active, no version lists anything, and it
still carries the uid. -/
theorem unrecorded_task_is_left :
    ∃ past, (asking [] []).Calls "uid-java" past none unrecordedStore ∧
      (∃ x ∈ past, (∃ e ∈ x.log, Effect.Makes "uid-java" taskKey e) ∧
        x.Reports "kabanero" taskKey) ∧
      let s := (asking [] []).renewed {} none
      (s.call clear (unrecordedStore, ())).result.map (·.versions) = .ok [] ∧
        (s.reconcile.run clear.world (unrecordedStore, ())).2.1.Holds "uid-java" taskKey := by
  refine ⟨_, calls_unrecorded, ⟨_, List.mem_cons_self, unrecordedCall_created.2,
    reports_unrecordedCall⟩, ?_⟩
  decide +kernel

end Stack

end PipelineStacks
