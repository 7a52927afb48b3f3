import Mathlib.Data.List.TakeWhile
import PipelineStacks.Controller.Outside
import PipelineStacks.Json.MergePatch
import PipelineStacks.Proofs.Conduct
import PipelineStacks.Proofs.StatusText

/-!
# Writing the status by a merge

A status is written as a patch that is merged into the stack.  A merge never removes a field that
the patch leaves out (`get?_mergeFields`), and options that are absent are left out.  That does no
harm: below the versions, which are a list, everything is replaced, and beside them the only option
is the summary (`StackStatus.ofJson?_mergePatch_toJson`), which every status that a pass makes does
have.  What is stored after the write is the status that was made, and nothing else of the stack is
changed: `stored_after_write`, which also says when the patch is sent.
-/

namespace PipelineStacks

/-! ## What a merge does to a field -/

namespace Fields

/-- Puts a value in a field, or takes the field away. -/
def put {α : Type} (name : String) (o : Option α) (fields : List (String × α)) :
    List (String × α) :=
  match o with
  | some v => set name v fields
  | none => erase name fields

lemma get?_put {α : Type} (name name' : String) (o : Option α) (fields : List (String × α)) :
    get? name' (put name o fields) = if name' = name then o else get? name' fields := by
  cases o with
  | some v => exact get?_set name name' v fields
  | none => exact get?_erase name name' fields

lemma get?_of_not_mem {α : Type} {name : String} {fields : List (String × α)}
    (h : name ∉ fields.map Prod.fst) : get? name fields = none := by
  induction fields with
  | nil => rfl
  | cons f fields ih =>
    rw [List.map_cons, List.mem_cons, not_or] at h
    rw [get?, if_neg h.1, ih h.2]

end Fields

namespace Json

/-- What a change makes of a field: no change keeps it, null removes it, and anything else is merged
into it. -/
def mergeField : Option Json → Option Json → Option Json
  | none, old => old
  | some .null, _ => none
  | some change, old => some (mergePatch change (old.getD .null))

lemma mergeFields_cons (name : String) (change : Json) (changes fields : List (String × Json)) :
    mergeFields ((name, change) :: changes) fields =
      mergeFields changes
        (Fields.put name (mergeField (some change) (Fields.get? name fields)) fields) := by
  cases change <;> rfl

/-- A field of a merge is what the change of its name makes of it. -/
theorem get?_mergeFields {changes : List (String × Json)} (h : (changes.map Prod.fst).Nodup)
    (fields : List (String × Json)) (name : String) :
    Fields.get? name (mergeFields changes fields) =
      mergeField (Fields.get? name changes) (Fields.get? name fields) := by
  induction changes generalizing fields with
  | nil => rfl
  | cons c changes ih =>
    obtain ⟨k, change⟩ := c
    rw [List.map_cons, List.nodup_cons] at h
    rw [mergeFields_cons, ih h.2, Fields.get?_put]
    by_cases hk : name = k
    · subst hk
      rw [Fields.get?_of_not_mem h.1, if_pos rfl, Fields.get?, if_pos rfl]
      rfl
    · rw [if_neg hk, Fields.get?, if_neg hk]

/-- The fields of an object are merged into those of the target, if it has any. -/
lemma mergePatch_obj (changes : List (String × Json)) (target : Json) :
    mergePatch (.obj changes) target =
      .obj (mergeFields changes (target.object?.getD [])) := by
  cases target <;> rfl

end Json

/-! ## The stored status -/

/-- To read a status is to read its two fields. -/
lemma StackStatus.ofJson?_obj {fields : List (String × Json)} {status : StackStatus} :
    ofJson? (.obj fields) = some status ↔
      Json.defaulted [] (Json.list? VersionStatus.ofJson?) (Fields.get? "versions" fields) =
        some status.versions ∧
      Json.optional Json.string? (Fields.get? "summary" fields) = some status.summary := by
  obtain ⟨versions, summary⟩ := status
  simp [ofJson?, Json.row?, Option.bind_eq_some_iff]

/-- A status that is merged into anything leaves its own versions there, and a summary that is its
own or the one that was there. -/
lemma StackStatus.ofJson?_mergePatch_iff {status : StackStatus} {old : Json}
    {summary : Option String} :
    ofJson? (Json.mergePatch status.toJson old) = some { status with summary } ↔
      Json.optional Json.string? (Json.mergeField (status.summary.map Json.str)
        (Fields.get? "summary" (old.object?.getD []))) = some summary := by
  have hnames : ((Json.fieldOf "summary" Json.str status.summary ++
      [("versions", Json.arr (status.versions.map VersionStatus.toJson))]).map Prod.fst).Nodup := by
    cases status.summary <;> simp [Json.fieldOf]
  have hversions := Json.list?_map VersionStatus.ofJson?_toJson status.versions
  -- further fields of what was there stay where they are, and are not read
  rw [toJson, Json.mergePatch_obj, ofJson?_obj, Json.get?_mergeFields hnames,
    Json.get?_mergeFields hnames]
  simp [Fields.get?_append, Json.get?_fieldOf, Fields.get?, Json.mergeField, Json.mergePatch,
    Json.defaulted, hversions]

/-- A status that has a summary is read back after it was merged into whatever was there. -/
lemma StackStatus.ofJson?_mergePatch {status : StackStatus} (h : status.summary.isSome)
    (old : Json) : ofJson? (Json.mergePatch status.toJson old) = some status := by
  obtain ⟨summary, hsummary⟩ := Option.isSome_iff_exists.mp h
  refine ofJson?_mergePatch_iff.mpr ?_
  rw [hsummary]
  rfl

/-- Without a summary of its own a status would take over the old one. -/
theorem StackStatus.ofJson?_mergePatch_toJson (status old : StackStatus) :
    ofJson? (Json.mergePatch status.toJson old.toJson) =
      some { status with summary := status.summary.or old.summary } := by
  refine ofJson?_mergePatch_iff.mpr ?_
  cases status.summary with
  | some summary => rfl
  | none => cases hold : old.summary <;> simp [toJson, hold, Json.object?, Json.fieldOf,
      Json.mergeField, Fields.get?, Json.optional, Json.string?]

namespace Stack

variable {fields : List (String × Json)} {s : Stack}

/-- To read a stack is to read its three fields. -/
lemma ofJson?_obj :
    ofJson? (.obj fields) = some s ↔
      Json.required Metadata.ofJson? (Fields.get? "metadata" fields) = some s.metadata ∧
      Json.required StackSpec.ofJson? (Fields.get? "spec" fields) = some s.spec ∧
      Json.optional StackStatus.ofJson? (Fields.get? "status" fields) = some s.status := by
  obtain ⟨metadata, spec, status⟩ := s
  simp [ofJson?, Json.row?, Option.bind_eq_some_iff]

/-- The patch changes the status of a stack and nothing else. -/
lemma ofJson?_mergePatch_statusPatch (hs : ofJson? (.obj fields) = some s) {status : StackStatus}
    (h : status.summary.isSome) :
    ofJson? (Json.mergePatch (statusPatch status) (.obj fields)) =
      some { s with status := some status } := by
  obtain ⟨hmetadata, hspec, -⟩ := ofJson?_obj.mp hs
  have hpatch : statusPatch status = .obj [("status", status.toJson)] := rfl
  have hnames : ([("status", status.toJson)].map Prod.fst).Nodup := by simp
  rw [hpatch, Json.mergePatch_obj, ofJson?_obj, Json.get?_mergeFields hnames,
    Json.get?_mergeFields hnames, Json.get?_mergeFields hnames]
  refine ⟨hmetadata, hspec, ?_⟩
  obtain ⟨merged, hmerged⟩ : ∃ merged, Json.mergePatch status.toJson
      ((Fields.get? "status" fields).getD .null) = .obj merged := ⟨_, Json.mergePatch_obj ..⟩
  have hread : StackStatus.ofJson? (.obj merged) = some status := by
    rw [← hmerged, StackStatus.ofJson?_mergePatch h]
  change Json.optional _ (some (Json.mergePatch status.toJson _)) = _
  calc Json.optional StackStatus.ofJson? (some (Json.mergePatch status.toJson
        ((Fields.get? "status" fields).getD .null)))
      = (StackStatus.ofJson? (.obj merged)).map some := by rw [hmerged]; rfl
    _ = some (some status) := by rw [hread]; rfl

end Stack

/-! ## The patch that is sent -/

namespace Program

variable {ι κ : Type} {Answer : ι → Type} {Answer' : κ → Type} {α β : Type}

/-- What stands for permitted questions asks what is permitted in their stead. -/
lemma guarded_expand {G : ι → Prop} {G' : κ → Prop} {p : Program Answer α}
    {last : Option (Exchange Answer)} (h : p.Guarded (fun _ => G) last)
    {f : (q : ι) → Program Answer' (Answer q)}
    (hf : ∀ q, G q → ∀ last', (f q).Guarded (fun _ => G') last')
    (last' : Option (Exchange Answer')) : (p.expand f).Guarded (fun _ => G') last' := by
  induction p generalizing last last' with
  | done a => trivial
  | ask q next ih =>
    exact guarded_bind (hf q h.1 last') fun answer last'' => ih answer (h.2 answer) last''

/-- Every question of a run is permitted. -/
lemma Guarded.of_mem {G : ι → Prop} {p : Program Answer α} {last : Option (Exchange Answer)}
    (h : p.Guarded (fun _ => G) last) {σ : Type} {world : World Answer σ} {t : σ}
    {x : Exchange Answer} (hx : x ∈ p.log world t) : G x.1 := by
  obtain ⟨before, rest, hlog⟩ := List.mem_iff_append.mp hx
  exact h.of_log hlog

/-- The program asks this question and then is done, whatever is answered. -/
def AsksOnce (q : ι) : Program Answer α → Prop
  | .done _ => False
  | .ask q' next => q' = q ∧ ∀ answer, ∃ a, next answer = .done a

lemma asksOnce_question (q : ι) : (question q : Program Answer (Answer q)).AsksOnce q :=
  ⟨rfl, fun answer => ⟨answer, rfl⟩⟩

/-- Something may be made of the result. -/
lemma AsksOnce.bind {q : ι} {p : Program Answer α} (h : p.AsksOnce q)
    {k : α → Program Answer β} (hk : ∀ a, ∃ b, k a = .done b) : (p >>= k).AsksOnce q := by
  cases p with
  | done a => exact h.elim
  | ask q' next =>
    refine ⟨h.1, fun answer => ?_⟩
    obtain ⟨a, ha⟩ := h.2 answer
    obtain ⟨b, hb⟩ := hk a
    refine ⟨b, ?_⟩
    change (next answer).bind k = .done b
    rw [ha]
    exact hb

/-- Another question may be asked in its stead. -/
lemma AsksOnce.expand {q : ι} {p : Program Answer α} (h : p.AsksOnce q)
    {f : (q : ι) → Program Answer' (Answer q)} {q' : κ} (hf : (f q).AsksOnce q') :
    (p.expand f).AsksOnce q' := by
  cases p with
  | done a => exact h.elim
  | ask q'' next =>
    obtain ⟨rfl, hnext⟩ := h
    refine AsksOnce.bind hf fun answer => ?_
    obtain ⟨a, ha⟩ := hnext answer
    refine ⟨a, ?_⟩
    rw [ha]
    rfl

/-- If the question is permitted, so is all that is asked. -/
lemma AsksOnce.guarded {G : ι → Prop} {q : ι} {p : Program Answer α} (h : p.AsksOnce q) (hq : G q)
    (last : Option (Exchange Answer)) : p.Guarded (fun _ => G) last := by
  cases p with
  | done a => exact h.elim
  | ask q' next =>
    obtain ⟨rfl, hnext⟩ := h
    refine ⟨hq, fun answer => ?_⟩
    obtain ⟨a, ha⟩ := hnext answer
    rw [ha]
    trivial

/-- The question is all that is asked. -/
lemma AsksOnce.log {q : ι} {p : Program Answer α} (h : p.AsksOnce q) {σ : Type}
    (world : World Answer σ) (t : σ) : (p.log world t).map (·.1) = [q] := by
  cases p with
  | done a => exact h.elim
  | ask q' next =>
    obtain ⟨rfl, hnext⟩ := h
    obtain ⟨a, ha⟩ := hnext (world q' t).1
    rw [Program.log, ha]
    rfl

end Program

namespace Api

/-- A path and a query are what a target is made of. -/
lemma splitTarget?_of_chars {path query : List Char} (hpath : ∀ c ∈ path, isPathChar c)
    (hquery : ∀ c ∈ query, isQueryChar c) :
    splitTarget? (String.ofList (path ++ '?' :: query)) =
      some (String.ofList path, String.ofList query) := by
  have hmark : ∀ c ∈ path, c ≠ '#' ∧ c ≠ '?' := by
    intro c hc
    have h := hpath c hc
    simp only [isPathChar, Bool.and_eq_true, Bool.not_eq_true', Bool.or_eq_false_iff,
      decide_eq_false_iff_not] at h
    exact h.2
  have hnumber : ∀ c ∈ path ++ '?' :: query, c ≠ '#' := by
    intro c hc
    rcases List.mem_append.mp hc with hc | hc
    · exact (hmark c hc).1
    · rcases List.mem_cons.mp hc with rfl | hc
      · decide
      · have h := hquery c hc
        simp only [isQueryChar, Bool.and_eq_true, decide_eq_true_eq] at h
        exact h.2
  have hwhole : (path ++ '?' :: query).takeWhile (· ≠ '#') = path ++ '?' :: query :=
    List.takeWhile_eq_self_iff.mpr fun c hc => decide_eq_true (hnumber c hc)
  have htake : (path ++ '?' :: query).takeWhile (· ≠ '?') = path := by
    rw [List.takeWhile_append_of_pos fun c hc => decide_eq_true (hmark c hc).2,
      List.takeWhile_cons_of_neg (by simp), List.append_nil]
  have hdrop : (path ++ '?' :: query).drop (path.length + 1) = query := by
    simp [List.drop_append]
  simp only [splitTarget?, String.toList_ofList]
  rw [hwhole, htake, hdrop, if_pos]
  simpa using ⟨hpath, hquery⟩

end Api

namespace Stack

/-- One request is sent, whatever is made of its answer. -/
lemma send_asksOnce {α : Type} (r : Api.Request) (read : Json → Option α) :
    (Api.send r read).AsksOnce r := by
  refine (Program.asksOnce_question r).bind fun answer => ?_
  cases answer with
  | error e => exact ⟨_, rfl⟩
  | ok answer =>
    simp only
    split
    · exact ⟨_, rfl⟩
    · split <;> exact ⟨_, rfl⟩

/-- The request that writes a status: a merge of the patch into the status of the stack. -/
def IsStatusPatch (inNamespace name : String) (status : StackStatus) (r : Api.Request) : Prop :=
  ∃ path query,
    Api.splitTarget? (collection (some inNamespace) ++ "/" ++ name ++
      ("/status?&fieldManager=" ++ fieldManager)) = some (path, query) ∧
    r = ⟨.patch, path, query, some Api.mergeType, some (statusPatch status)⟩

lemma writeStatus_guarded (inNamespace name : String) (status : StackStatus)
    (last : Option (Program.Exchange fun _ : Api.Request => Except Failure Api.Response)) :
    (writeStatus inNamespace name status).Guarded
      (fun _ => IsStatusPatch inNamespace name status) last := by
  refine Program.guarded_bind ?_ fun result last' => ?_
  · unfold Api.merge Api.named
    split
    · trivial
    · simp only [Api.sendTo]
      split
      · trivial
      · next path query htarget => exact (send_asksOnce _ _).guarded ⟨path, query, htarget, rfl⟩ _
  · cases result <;> trivial

/-- All that is sent when the status is updated is the patch. -/
lemma carryOut_updateStatus_guarded (s : Stack) (status : StackStatus) (token : Option String) :
    (Pass.carryOut token (s.updateStatus status)).Guarded
      (fun _ q => ∃ ns r, s.metadata.namespaceName = some ns ∧
        IsStatusPatch ns s.name status r ∧ q = .request r) none := by
  refine Program.guarded_expand (s.updateStatus_guarded status none) ?_ none
  rintro _ ⟨ns, hns, rfl⟩ last
  refine Program.guarded_expand (writeStatus_guarded ns s.name status none) ?_ last
  exact fun r hr last' => Program.guarded_question ⟨ns, r, hns, hr, rfl⟩

/-- To write a status is to send the patch, if the stack has a name. -/
lemma writeStatus_asksOnce {ns name : String} {status : StackStatus} {r : Api.Request}
    (hname : name ≠ "") (hr : IsStatusPatch ns name status r) :
    (writeStatus ns name status).AsksOnce r := by
  obtain ⟨path, query, htarget, rfl⟩ := hr
  refine Program.AsksOnce.bind ?_ fun result => ?_
  · rw [Api.merge, Api.named, if_neg hname]
    simp only [Api.sendTo, htarget]
    exact send_asksOnce _ _
  · cases result <;> exact ⟨_, rfl⟩

/-- The patch is sent if the status has changed and the stack has a namespace and a name. -/
lemma carryOut_updateStatus_asksOnce {s : Stack} {status : StackStatus} {ns : String}
    (hchanged : s.statusChanged status) (hns : s.metadata.namespaceName = some ns)
    (hname : s.name ≠ "") {r : Api.Request} (hr : IsStatusPatch ns s.name status r)
    (token : Option String) :
    (Pass.carryOut token (s.updateStatus status)).AsksOnce (.request r) := by
  have hrecord : (s.updateStatus status).AsksOnce (.record ns s.name status) := by
    unfold updateStatus
    rw [if_pos hchanged, hns]
    refine (Program.asksOnce_question _).bind fun answer => ?_
    cases answer <;> exact ⟨_, rfl⟩
  have hwrite : (Effect.carryOut token (.record ns s.name status)).AsksOnce (.request r) :=
    (writeStatus_asksOnce hname hr).expand (Program.asksOnce_question _)
  exact hrecord.expand hwrite

/-- There is a patch for a namespace and a name whose characters a path may hold. -/
lemma exists_isStatusPatch {ns name : String} (hns : ∀ c ∈ ns.toList, Api.isPathChar c)
    (hname : ∀ c ∈ name.toList, Api.isPathChar c) (status : StackStatus) :
    ∃ r, IsStatusPatch ns name status r := by
  have hcollection : collection (some ns) =
      "/apis/" ++ "kabanero.io/v1alpha2" ++ "/" ++ ("namespaces/" ++ ns ++ "/") ++ "stacks" := by
    have hkind : resourceKind.collection = "stacks" := by decide +kernel
    rw [← hkind]
    rfl
  obtain ⟨path, query, hpath, hquery, htarget⟩ : ∃ path query : List Char,
      (∀ c ∈ path, Api.isPathChar c) ∧ (∀ c ∈ query, Api.isQueryChar c) ∧
      collection (some ns) ++ "/" ++ name ++ ("/status?&fieldManager=" ++ fieldManager) =
        String.ofList (path ++ '?' :: query) := by
    refine ⟨"/apis/kabanero.io/v1alpha2/namespaces/".toList ++ ns.toList ++ "/stacks/".toList ++
      name.toList ++ "/status".toList, "&fieldManager=stack-controller".toList, ?_, ?_, ?_⟩
    · have hfixed : ∀ text ∈ ["/apis/kabanero.io/v1alpha2/namespaces/", "/stacks/", "/status"],
          text.toList.all Api.isPathChar := by decide +kernel
      simp only [List.forall_mem_cons, List.all_eq_true] at hfixed
      obtain ⟨hroot, hstacks, hstatus, -⟩ := hfixed
      simp only [List.forall_mem_append]
      exact ⟨⟨⟨⟨hroot, hns⟩, hstacks⟩, hname⟩, hstatus⟩
    · exact List.all_eq_true.mp (by decide +kernel)
    · rw [hcollection, ← String.toList_inj]
      simp [fieldManager]
  exact ⟨_, _, _, htarget ▸ Api.splitTarget?_of_chars hpath hquery, rfl⟩

end Stack

/-- Whatever status is stored with a stack, if any, after the status that a pass made is merged into
it that status is stored, exactly; what the stack asks for and its metadata are as before, and there
is nothing left to be written.  The merge of this patch is all that is sent when the status is
updated. -/
theorem stored_after_write {fields : List (String × Json)} {s : Stack}
    (hs : Stack.ofJson? (.obj fields) = some s) {spec : StackSpec} {current : StackStatus}
    {m : UseMap} {status : StackStatus} (hstatus : StackStatus.build spec current m = status) :
    (∃ s', Stack.ofJson? (Json.mergePatch (Stack.statusPatch status) (.obj fields)) = some s' ∧
      s'.status = some status ∧ s'.spec = s.spec ∧ s'.metadata = s.metadata ∧
        s'.statusChanged status = false) ∧
    (∀ (token : Option String) (σ : Type) (world : Program.World Outside.Answer σ) (t : σ),
      ∀ x ∈ (Pass.carryOut token (s.updateStatus status)).log world t,
        ∃ ns r, s.metadata.namespaceName = some ns ∧ x.1 = .request r ∧
          Stack.IsStatusPatch ns s.name status r) ∧
    ∀ ns, s.metadata.namespaceName = some ns → s.name ≠ "" →
      (∀ c ∈ ns.toList, Api.isPathChar c) → (∀ c ∈ s.name.toList, Api.isPathChar c) →
      s.statusChanged status → ∃ r, Stack.IsStatusPatch ns s.name status r ∧
        ∀ (token : Option String) (σ : Type) (world : Program.World Outside.Answer σ) (t : σ),
          ((Pass.carryOut token (s.updateStatus status)).log world t).map (·.1) =
            [.request r] := by
  have hsummary : status.summary.isSome := by
    rw [← hstatus]
    rfl
  refine ⟨?_, ?_, ?_⟩
  · refine ⟨{ s with status := some status }, ?_, rfl, rfl, rfl, ?_⟩
    · exact Stack.ofJson?_mergePatch_statusPatch hs hsummary
    · simp [Stack.statusChanged]
  · intro token σ world t x hx
    obtain ⟨ns, r, hns, hr, hx⟩ := (s.carryOut_updateStatus_guarded status token).of_mem hx
    exact ⟨ns, r, hns, hx, hr⟩
  · intro ns hns hname hnsChars hnameChars hchanged
    obtain ⟨r, hr⟩ := Stack.exists_isStatusPatch hnsChars hnameChars status
    refine ⟨r, hr, fun token σ world t => ?_⟩
    exact (Stack.carryOut_updateStatus_asksOnce hchanged hns hname hr token).log world t

/-- A stack as it is stored, with a version recorded that has a location and a message. -/
def storedJava : List (String × Json) :=
  [("metadata", .obj [("name", .str "java"), ("namespace", .str "kabanero")]),
    ("spec", .obj [("versions", .arr [])]),
    ("status", .obj [("summary", .str "1 active versions, 0 failed assets"),
      ("versions", .arr [.obj [("location", .str "https://e.com"),
        ("statusMessage", .str "Pipeline default: timeout"), ("version", .str "1")]])])]

/-- The version that is no longer asked for is gone from the status after the write, which is one
request. -/
theorem storedJava_after_write :
    ∃ s s' status r, Stack.ofJson? (.obj storedJava) = some s ∧
      StackStatus.build s.spec s.recorded {} = status ∧
      Stack.ofJson? (Json.mergePatch (Stack.statusPatch status) (.obj storedJava)) = some s' ∧
      s'.status = some status ∧ s.recorded.versions ≠ [] ∧ status.versions = [] ∧
      Stack.IsStatusPatch "kabanero" "java" status r ∧
      ∀ (token : Option String) (σ : Type) (world : Program.World Outside.Answer σ) (t : σ),
        ((Pass.carryOut token (s.updateStatus status)).log world t).map (·.1) = [.request r] := by
  obtain ⟨s, hs⟩ : ∃ s, Stack.ofJson? (.obj storedJava) = some s := ⟨_, rfl⟩
  obtain ⟨status, hstatus⟩ : ∃ status, StackStatus.build s.spec s.recorded {} = status := ⟨_, rfl⟩
  obtain ⟨⟨s', hs', hstored, -⟩, -, hsent⟩ := stored_after_write hs hstatus
  have hwritten : s.metadata.namespaceName = some "kabanero" ∧ s.name = "java" ∧
      s.statusChanged status ∧ s.recorded.versions ≠ [] ∧ status.versions = [] := by
    cases hs
    subst hstatus
    exact ⟨rfl, rfl, by decide, by decide, by decide⟩
  obtain ⟨hns, hname, hchanged, hbefore, hafter⟩ := hwritten
  have hnsChars : "kabanero".toList.all Api.isPathChar := by decide +kernel
  have hnameChars : s.name.toList.all Api.isPathChar := by
    rw [hname]
    decide +kernel
  obtain ⟨r, hr, hlog⟩ := hsent "kabanero" hns (by simp [hname]) (List.all_eq_true.mp hnsChars)
    (List.all_eq_true.mp hnameChars) hchanged
  exact ⟨s, s', status, r, hs, hstatus, hs', hstored, hbefore, hafter, hname ▸ hr, hlog⟩

end PipelineStacks
