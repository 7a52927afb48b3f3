import PipelineStacks.Proofs.Retention

/-!
# Do stacks come to have all their assets?

A stack goes through passes, each of which starts from the status that the one before it left, while
the versions that are asked for change and anything may fail (`Stack.History`).  One step either
makes the list of an archive's assets anew, in full, or leaves some of the assets that were recorded
(`step_assetsAt`).  So a list is complete unless it is `Torn`: some of its assets were given up,
others could not be, and since then it was never empty.  `assets_complete_iff_not_torn` is what a
pass comes to in which every fetch succeeds; `torn_archive_stays_incomplete` is a torn list that
stays so.
-/

namespace PipelineStacks

open UseMap

namespace Stack

/-- The same stack asking for other versions, with another status recorded. -/
def revised (s : Stack) (versions : List VersionSpec) (status : StackStatus) : Stack :=
  { s with spec := { s.spec with versions }, status := some status }

/-- The statuses that a stack goes through in passes, the latest first.  A pass runs in any world in
which fetches yield nothing but the content of their sources.  A pass whose status could not be
written leaves no trace here. -/
inductive History (s : Stack) (content : Source → Bytes) : List StackStatus → Prop
  | start : History s content []
  | pass {past : List StackStatus} (h : History s content past) {σ : Type}
      {world : Program.World Effect.Answer σ} (hworld : world.Admits (Effect.Faithful content))
      (t : σ) (versions : List VersionSpec) {status : StackStatus}
      (hrun : ((s.revised versions (past.headD {})).reconcileActiveVersions.run world t).1 =
        .ok status) :
      History s content (status :: past)

/-- The assets of an archive are recorded in part only: at some pass some of them went and others
stayed, and the list was not empty since. -/
def Torn (r : Reference) : List StackStatus → Prop
  | [] => False
  | status :: past =>
    assetsAt status.versions r ≠ [] ∧
      ((assetsAt status.versions r).length < (assetsAt (past.headD {}).versions r).length ∨
        Torn r past)

instance decidableTorn (r : Reference) : (past : List StackStatus) → Decidable (Torn r past)
  | [] => inferInstanceAs (Decidable False)
  | status :: past =>
    have := decidableTorn r past
    inferInstanceAs (Decidable (assetsAt status.versions r ≠ [] ∧
      ((assetsAt status.versions r).length < (assetsAt (past.headD {}).versions r).length ∨
        Torn r past)))

/-- A list that is torn is not empty. -/
lemma Torn.ne_nil {r : Reference} {past : List StackStatus} (h : Torn r past) :
    assetsAt (past.headD {}).versions r ≠ [] := by
  cases past with
  | nil => exact h.elim
  | cons status past => exact h.1

/-! ## One step -/

section Step

variable {σ : Type} {s : Stack} {content : Source → Bytes} {a : Activation} {r : Reference}
  {found : List Asset}

/-- An archive that is dealt with has the assets that were found if it had none, or else some of
those it had. -/
lemma seeTo_assets (hfound : ∀ name, assetsIn content r name (a.contextFor r) = .ok found)
    (u : Usage) :
    (a.seeTo r u).Always (Effect.Faithful content) fun u' =>
      (u.status.activeAssets = [] ∧
        u'.status.activeAssets.map AssetStatus.identity = found.map Asset.identity) ∨
      (u'.status.activeAssets.map AssetStatus.identity).Sublist
        (u.status.activeAssets.map AssetStatus.identity) := by
  have hids := fun l => AssetStatus.map_identity l a.target
  unfold Activation.seeTo
  split
  · by_cases hempty : u.status.activeAssets = []
    · refine (a.ensure_always_of_empty r hempty getManifests_always_faithful).imp ?_
      rintro u' ⟨-, result, hresult, hassets⟩
      cases result with
      | error e =>
        rw [hids, hassets]
        exact Or.inr (List.nil_sublist _)
      | ok found' =>
        obtain rfl : found' = found :=
          Except.ok.inj ((hresult found' rfl).symm.trans (hfound _))
        exact Or.inl ⟨hempty, by rw [hids, hassets, Asset.map_identity]⟩
    · refine (a.ensure_always_of_recorded r hempty).imp fun u' hu' => Or.inr ?_
      rw [hids, hu'.2, hids]
  · refine (a.release_always u).imp fun u' hu' => Or.inr ?_
    rw [hids, hids]
    exact hu'.2.1.map _

/-- One pass makes the list of an archive's assets anew, in full, or leaves some of the assets that
were recorded. -/
theorem step_assetsAt (ha : s.activation = .ok a)
    (hfound : ∀ name, assetsIn content r name (a.contextFor r) = .ok found)
    {world : Program.World Effect.Answer σ} (hworld : world.Admits (Effect.Faithful content))
    {t : σ} {status : StackStatus}
    (hrun : (s.reconcileActiveVersions.run world t).1 = .ok status) :
    (assetsAt s.recorded.versions r = [] ∧
      (assetsAt status.versions r).map AssetStatus.identity = found.map Asset.identity) ∨
    ((assetsAt status.versions r).map AssetStatus.identity).Sublist
      ((assetsAt s.recorded.versions r).map AssetStatus.identity) := by
  obtain ⟨m, hm, -⟩ := build_eq_ok s.recorded.versions s.spec.versions
  rw [reconcileActiveVersions_run ha world t hm] at hrun
  obtain rfl := Except.ok.inj hrun
  rcases StackStatus.assetsAt_build (fun r u hu => ofStatus_of_run hm a world t hu) r with
    ⟨hnew, -⟩ | hnew
  · exact Or.inr (by rw [hnew]; exact List.nil_sublist _)
  · rw [hnew]
    cases hu' : ((a.run m).run world t).1.get? r with
    | none => exact Or.inr (List.nil_sublist _)
    | some u' =>
      obtain ⟨t', hget⟩ := a.get?_run r world m t
      rw [hu', eq_comm, Option.map_eq_some_iff] at hget
      obtain ⟨u, hu, rfl⟩ := hget
      rw [← activeAssets_of_build hm hu]
      exact (seeTo_assets hfound u).run hworld t'

end Step

/-! ## All passes -/

/-- What is recorded of an archive are assets of it in their order: all of them or none, unless the
list is torn. -/
theorem assetsAt_of_history {s : Stack} {content : Source → Bytes} {a : Activation} {r : Reference}
    {found : List Asset} (ha : s.activation = .ok a)
    (hfound : ∀ name, assetsIn content r name (a.contextFor r) = .ok found)
    {past : List StackStatus} (h : History s content past) :
    ((assetsAt (past.headD {}).versions r).map AssetStatus.identity).Sublist
        (found.map Asset.identity) ∧
      (Torn r past → (assetsAt (past.headD {}).versions r).length < found.length) ∧
      (¬ Torn r past → assetsAt (past.headD {}).versions r = [] ∨
        (assetsAt (past.headD {}).versions r).map AssetStatus.identity =
          found.map Asset.identity) := by
  induction h with
  | start => exact ⟨List.nil_sublist _, fun h => h.elim, fun _ => Or.inl rfl⟩
  | @pass past h σ world hworld t versions status hrun ih =>
    obtain ⟨hsub, hshort, hfull⟩ := ih
    have hstep := step_assetsAt (s := s.revised versions (past.headD {})) ha hfound hworld hrun
    change (assetsAt (past.headD {}).versions r = [] ∧ _) ∨
      ((assetsAt status.versions r).map _).Sublist
        ((assetsAt (past.headD {}).versions r).map _) at hstep
    change ((assetsAt status.versions r).map _).Sublist _ ∧
      (Torn r (status :: past) → (assetsAt status.versions r).length < _) ∧
      (¬ Torn r (status :: past) → assetsAt status.versions r = [] ∨
        (assetsAt status.versions r).map _ = _)
    rcases hstep with ⟨hold, hnew⟩ | hnew
    · -- a list that was made anew was empty before, so it cannot be torn
      refine ⟨hnew ▸ .refl _, fun htorn => ?_, fun _ => Or.inr hnew⟩
      obtain ⟨-, hless | htorn⟩ := htorn
      · rw [hold] at hless
        exact absurd hless (Nat.not_lt_zero _)
      · exact absurd hold htorn.ne_nil
    · have hle := hnew.length_le
      rw [List.length_map, List.length_map] at hle
      refine ⟨hnew.trans hsub, ?_, ?_⟩
      · rintro ⟨-, hless | htorn⟩
        · have := hsub.length_le
          rw [List.length_map, List.length_map] at this
          omega
        · exact hle.trans_lt (hshort htorn)
      · intro hnot
        by_cases hempty : assetsAt status.versions r = []
        · exact Or.inl hempty
        · rw [Torn, not_and, not_or, not_lt] at hnot
          obtain ⟨hkept, hnot⟩ := hnot hempty
          -- a part that is no shorter is the whole
          have hsame := hnew.eq_of_length_le (by rwa [List.length_map, List.length_map])
          rcases hfull hnot with hold | hold
          · rw [hold] at hsame
            exact Or.inl (List.map_eq_nil_iff.mp hsame)
          · exact Or.inr (hsame.trans hold)

/-- In a pass in which every fetch succeeds, what is recorded of an archive that is asked for are
the assets that were recorded, or all of it if none were. -/
lemma record_of_served_pass {s : Stack} {content : Source → Bytes} {a : Activation}
    (ha : s.activation = .ok a) {σ : Type} {world : Program.World Effect.Answer σ}
    (hworld : world.Admits (Effect.Served content)) {t : σ} {status : StackStatus}
    (hrun : (s.reconcileActiveVersions.run world t).1 = .ok status) {r : Reference}
    {found : List Asset} (hfound : ∀ name, assetsIn content r name (a.contextFor r) = .ok found)
    (hasked : ∃ v ∈ s.spec.versions, v.isActive ∧ ∃ p ∈ v.pipelines, Reference.ofSpec p = r)
    {v : VersionStatus} (hv : v ∈ status.versions) {q : PipelineStatus} (hq : q ∈ v.pipelines)
    (hr : Reference.ofStatus q = r) :
    q.activeAssets.map AssetStatus.identity =
      if assetsAt s.recorded.versions r = [] then found.map Asset.identity
      else (assetsAt s.recorded.versions r).map AssetStatus.identity := by
  have hkeys := keys_of_served_pass ha (fun e t => (hworld e t).servedAt r.source) hrun hfound
    hasked hv hq hr
  rw [AssetStatus.map_identity _ a.target, hkeys]
  split
  · rw [Asset.map_identity]
  · rw [AssetStatus.map_identity]

/-- After any passes, whatever failed in them, a pass in which every fetch succeeds records for
every pipeline of an active version assets of its archive in their order, and it records all of them
exactly if the list was not torn. -/
theorem assets_complete_iff_not_torn {s : Stack} {content : Source → Bytes}
    {past : List StackStatus} (hpast : History s content past) {a : Activation}
    (ha : s.activation = .ok a) {σ : Type} {world : Program.World Effect.Answer σ}
    (hworld : world.Admits (Effect.Served content)) (t : σ) {versions : List VersionSpec}
    {v : VersionSpec} (hv : v ∈ versions) (hactive : v.isActive) {p : PipelineSpec}
    (hp : p ∈ v.pipelines) {found : List Asset} {t' : σ}
    (hfound : ((getManifests (.ofSpec p) p.id (a.contextFor (.ofSpec p))
      p.skipCertVerification).run world t').1 = .ok found) :
    ∃ status,
      ((s.revised versions (past.headD {})).reconcileActiveVersions.run world t).1 = .ok status ∧
      (∃ v' ∈ status.versions, v'.version = v.version ∧
        ∃ q ∈ v'.pipelines, Reference.ofStatus q = .ofSpec p) ∧
      ∀ v' ∈ status.versions, ∀ q ∈ v'.pipelines, Reference.ofStatus q = .ofSpec p →
        (q.activeAssets.map AssetStatus.identity).Sublist (found.map Asset.identity) ∧
          (q.activeAssets.map AssetStatus.identity = found.map Asset.identity ↔
            ¬ Torn (.ofSpec p) past) := by
  have hin : ∀ name, assetsIn content (.ofSpec p) name (a.contextFor (.ofSpec p)) = .ok found := by
    have hserved : .ok found = assetsIn content (.ofSpec p) p.id (a.contextFor (.ofSpec p)) := by
      rw [← hfound]
      exact getManifests_always_served.run hworld t'
    exact fun name => assetsIn_congr_name hserved.symm name
  obtain ⟨hsub, hshort, hfull⟩ := assetsAt_of_history ha hin hpast
  obtain ⟨m, hm, -⟩ := build_eq_ok (past.headD {}).versions versions
  have hrun := congrArg Prod.fst
    (reconcileActiveVersions_run (s := s.revised versions (past.headD {})) ha world t hm)
  have hasked : ∃ w ∈ (s.revised versions (past.headD {})).spec.versions, w.isActive ∧
      ∃ p' ∈ w.pipelines, Reference.ofSpec p' = .ofSpec p := ⟨v, hv, hactive, p, hp, rfl⟩
  refine ⟨_, hrun, ?_, ?_⟩
  · obtain ⟨v', hv', hname, hq⟩ := StackStatus.record_iff.mpr (Or.inl
      (show ∃ w ∈ (s.revised versions (past.headD {})).spec.versions, _ from
        ⟨v, hv, rfl, hactive, p, hp, rfl⟩))
    exact ⟨v', hv', hname, _, hq, ofStatus_freshStatus p p⟩
  · intro v' hv' q hq hr
    have hids := record_of_served_pass (s := s.revised versions (past.headD {})) ha hworld hrun hin
      hasked hv' hq hr
    change _ = if assetsAt (past.headD {}).versions (.ofSpec p) = [] then _
      else (assetsAt (past.headD {}).versions (.ofSpec p)).map _ at hids
    by_cases hempty : assetsAt (past.headD {}).versions (.ofSpec p) = []
    · rw [hids, if_pos hempty]
      exact ⟨.refl _, fun _ htorn => htorn.ne_nil hempty, fun _ => rfl⟩
    · rw [hids, if_neg hempty]
      refine ⟨hsub, fun hall htorn => ?_, fun hnot => (hfull hnot).resolve_left hempty⟩
      have hlength := congrArg List.length hall
      rw [List.length_map, List.length_map] at hlength
      exact (hshort htorn).ne hlength

/-! ## An archive of two tasks -/

/-- The archive. -/
def twoTasks : String :=
  document "Task" "a" ++ "---\n" ++ document "Task" "b"

/-- The kind of the tasks. -/
def taskKind : Kind :=
  ⟨"tekton.dev", "v1beta1", "Task"⟩

/-- The world that serves the archive and fails to delete some tasks. -/
def tasksWorld (undeletable : List String) : Program.World Effect.Answer (Objects × Unit) :=
  (Surroundings.serving twoTasks fun
    | .delete _ _ name => undeletable.contains name
    | _ => false).world

/-- That world serves nothing but the archive. -/
lemma faithful_tasksWorld (undeletable : List String) :
    (tasksWorld undeletable).Admits (Effect.Faithful fun _ => Utf8.encodeString twoTasks) :=
  Surroundings.faithful_serving twoTasks _

/-- The store that holds some tasks and nothing else. -/
def tasksStore (names : List String) : Objects := fun key =>
  if key.kind = taskKind ∧ key.inNamespace = "kabanero" ∧ key.name ∈ names then
    some { metadata := { name := some key.name, namespaceName := some "kabanero" } }
  else none

/-- The status in which some of the tasks are recorded under the version. -/
def tasksStatus (tasks : List (String × Option String)) (state : DesiredState)
    (message : Option String) (summary : String) : StackStatus where
  versions := [{
    version := "1"
    pipelines := [{
      name := "default"
      url := some "https://e.com/p.yaml"
      digest := "00"
      activeAssets := tasks.map fun task => {
        name := task.1
        namespaceName := "kabanero"
        group := taskKind.group
        version := taskKind.version
        kind := taskKind.name
        digest := "a1effedb595168f220f474936806e6a57973098aa13b0b657faeee33b09edc47"
        state := .active
        message := task.2 } }]
    state := some state
    message := message }]
  summary := some summary

/-- What is recorded after both tasks were created. -/
def bothRecorded : StackStatus :=
  tasksStatus [("a", none), ("b", none)] .active none "1 active versions, 0 failed assets"

/-- What is recorded after the version was removed and neither task could be deleted. -/
def bothLeft : StackStatus :=
  tasksStatus [("a", some "Unable to delete asset: timeout"),
    ("b", some "Unable to delete asset: timeout")] .inactive (some StackStatus.removedMessage)
    "0 active versions, 0 failed assets"

/-- What is recorded after the version was removed and one task could not be deleted. -/
def oneLeft : StackStatus :=
  tasksStatus [("b", some "Unable to delete asset: timeout")] .inactive
    (some StackStatus.removedMessage) "0 active versions, 0 failed assets"

/-- What is recorded after the version was asked for again. -/
def oneRecorded : StackStatus :=
  tasksStatus [("b", none)] .active none "1 active versions, 0 failed assets"

/-- What a pass of the small stack loads for the archive. -/
def loadTasks : Pass (Except PipelineError (List Asset)) :=
  let p := PipelineSpec.ofUrl "default" "https://e.com/p.yaml"
  getManifests (.ofSpec p) p.id (askingActivation.contextFor (.ofSpec p)) p.skipCertVerification

set_option maxRecDepth 100000 in
/-- Both tasks are loaded. -/
lemma loadTasks_run : (loadTasks.run (tasksWorld []) (tasksStore [], ())).1.map
    (·.map Asset.identity) = .ok [("a", taskKind), ("b", taskKind)] := by
  decide +kernel

set_option maxRecDepth 100000 in
/-- A first pass without failures records both tasks. -/
lemma history_bothRecorded :
    History (asking [] []) (fun _ => Utf8.encodeString twoTasks) [bothRecorded] :=
  History.start.pass (faithful_tasksWorld []) (tasksStore [], ()) [.ofUrl "https://e.com/p.yaml"]
    (by decide +kernel)

set_option maxRecDepth 100000 in
/-- The version is recorded with both tasks; then it is removed and neither can be deleted; then it
is asked for again.  The pass that follows records both. -/
theorem both_tasks_recorded_after_failed_removal :
    History (asking [] []) (fun _ => Utf8.encodeString twoTasks) [bothLeft, bothRecorded] ∧
    ¬ Torn (.ofUrl "https://e.com/p.yaml") [bothLeft, bothRecorded] ∧
    ∃ status,
      (((asking [] []).revised [.ofUrl "https://e.com/p.yaml"] bothLeft).reconcileActiveVersions.run
        (tasksWorld []) (tasksStore ["a", "b"], ())).1 = .ok status ∧
      (∃ v ∈ status.versions, v.version = "1" ∧
        ∃ q ∈ v.pipelines, Reference.ofStatus q = .ofUrl "https://e.com/p.yaml") ∧
      ∀ v ∈ status.versions, ∀ q ∈ v.pipelines,
        Reference.ofStatus q = .ofUrl "https://e.com/p.yaml" →
        q.activeAssets.map AssetStatus.identity = [("a", taskKind), ("b", taskKind)] := by
  have hpast : History (asking [] []) (fun _ => Utf8.encodeString twoTasks)
      [bothLeft, bothRecorded] :=
    history_bothRecorded.pass (faithful_tasksWorld ["a", "b"]) (tasksStore ["a", "b"], ()) []
      (by decide +kernel)
  have hwhole : ¬ Torn (.ofUrl "https://e.com/p.yaml") [bothLeft, bothRecorded] := by
    decide +kernel
  have hload := loadTasks_run
  cases hfound : (loadTasks.run (tasksWorld []) (tasksStore [], ())).1 with
  | error e =>
    rw [hfound] at hload
    cases hload
  | ok found =>
    rw [hfound] at hload
    obtain ⟨status, hrun, hrecorded, hall⟩ := assets_complete_iff_not_torn hpast
      (activation_asking [] []) (Surroundings.served_serving twoTasks fun _ _ => rfl)
      (tasksStore ["a", "b"], ()) (List.mem_singleton_self (.ofUrl "https://e.com/p.yaml")) rfl
      (List.mem_singleton_self _) hfound
    refine ⟨hpast, hwhole, status, hrun, hrecorded, fun v hv q hq hr => ?_⟩
    rw [(hall v hv q hq hr).2.mpr hwhole]
    exact Except.ok.inj hload

set_option maxRecDepth 100000 in
/-- The version is recorded with both tasks; then it is removed and only one of them can be deleted;
then it is asked for again.  The pass that follows records the task that was left and nothing else,
though both are loaded. -/
theorem torn_archive_stays_incomplete :
    ∃ past status, History (asking [] []) (fun _ => Utf8.encodeString twoTasks) past ∧
      (((asking [] []).revised [.ofUrl "https://e.com/p.yaml"]
        (past.headD {})).reconcileActiveVersions.run (tasksWorld []) (tasksStore ["b"], ())).1 =
          .ok status ∧
      (status.versions.map fun v => v.pipelines.map fun q =>
        (Reference.ofStatus q, q.activeAssets.map AssetStatus.identity)) =
          [[(.ofUrl "https://e.com/p.yaml", [("b", taskKind)])]] ∧
      (loadTasks.run (tasksWorld []) (tasksStore [], ())).1.map (·.map Asset.identity) =
        .ok [("a", taskKind), ("b", taskKind)] := by
  have hpast : History (asking [] []) (fun _ => Utf8.encodeString twoTasks)
      [oneLeft, bothRecorded] :=
    history_bothRecorded.pass (faithful_tasksWorld ["b"]) (tasksStore ["a", "b"], ()) []
      (by decide +kernel)
  refine ⟨_, oneRecorded, hpast, ?_, ?_, loadTasks_run⟩
  · decide +kernel
  · decide +kernel

end Stack

end PipelineStacks
