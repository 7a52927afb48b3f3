import Mathlib.Data.Set.Insert
import PipelineStacks.Effect
import PipelineStacks.Proofs.Answers
import PipelineStacks.Stack.Resource

/-!
# Worlds with a store of objects

A world for passes to run in: a store that keeps objects under their keys, and surroundings that
answer whatever else is asked and may let any request fail.  The store serves a look-up with what it
holds, creates an object under a free key only, and replaces and deletes objects.

When no request to the store fails (`Surroundings.StoreFaultless`), the lemmas `run_get`,
`run_create_free` and `run_create_taken` say what look-ups and creations come to; an update takes no
key that was free, whatever fails (`taken_run_update`).
-/

namespace PipelineStacks

/-! ## Stores -/

/-- What an object is kept under. -/
structure ObjectKey where
  kind : Kind
  inNamespace : String
  name : String
deriving DecidableEq, Repr, Inhabited

/-- What a store holds under each key. -/
abbrev Objects := ObjectKey → Option Object

namespace Objects

/-- The store with an object, or none, under a key. -/
def set (objects : Objects) (key : ObjectKey) (o : Option Object) : Objects :=
  fun key' => if key' = key then o else objects key'

/-- The keys that are taken. -/
def taken (objects : Objects) : Set ObjectKey :=
  {key | (objects key).isSome}

lemma mem_taken {objects : Objects} {key : ObjectKey} :
    key ∈ objects.taken ↔ (objects key).isSome := Iff.rfl

/-- An object that is put into the store takes its key. -/
lemma taken_set_some (objects : Objects) (key : ObjectKey) (o : Object) :
    (objects.set key (some o)).taken = insert key objects.taken := by
  ext key'
  by_cases h : key' = key
  · simp [mem_taken, set, h]
  · simp [mem_taken, set, h]

end Objects

/-! ## Surroundings -/

/-- The answer of a request that fails.  To count a metric does not fail. -/
def Effect.failed (f : Failure) : (e : Effect) → Effect.Answer e
  | .get .. => (.error f : Except Failure (Option Object))
  | .create .. | .update .. | .delete .. | .record .. => (.error f : Except Failure Unit)
  | .fetch .. => (.error f : Except Failure Bytes)
  | .count _ => ()

/-- The request goes to the store. -/
def Effect.isForStore : Effect → Bool
  | .get .. | .create .. | .update .. | .delete .. => true
  | .fetch .. | .record .. | .count _ => false

/-- The request looks an object up. -/
def Effect.isLook : Effect → Bool
  | .get .. => true
  | _ => false

/-- What surrounds a store; it changes with every request. -/
structure Surroundings (τ : Type) where
  /-- The failure that a request meets. -/
  fault : Effect → τ → Option Failure
  /-- The failure of a request that the store refuses. -/
  refusal : Effect → τ → Failure
  /-- What a fetch yields. -/
  bytes : Source → Bool → τ → Bytes
  next : Effect → τ → τ

namespace Surroundings

variable {τ : Type} (c : Surroundings τ)

/-- The answer to a request that meets no failure, and what the store holds after it. -/
def respond (objects : Objects) (t : τ) : (e : Effect) → Effect.Answer e × Objects
  | .get kind ns name =>
    ((.ok (objects ⟨kind, ns, name⟩) : Except Failure (Option Object)), objects)
  | .create kind ns o =>
    match objects ⟨kind, ns, o.nameText⟩ with
    | none => ((.ok () : Except Failure Unit), objects.set ⟨kind, ns, o.nameText⟩ (some o))
    | some _ => ((.error (c.refusal (.create kind ns o) t) : Except Failure Unit), objects)
  | .update kind ns o =>
    match objects ⟨kind, ns, o.nameText⟩ with
    | none => ((.error (c.refusal (.update kind ns o) t) : Except Failure Unit), objects)
    | some _ => ((.ok () : Except Failure Unit), objects.set ⟨kind, ns, o.nameText⟩ (some o))
  | .delete kind ns name => ((.ok () : Except Failure Unit), objects.set ⟨kind, ns, name⟩ none)
  | .fetch source skip => ((.ok (c.bytes source skip t) : Except Failure Bytes), objects)
  | .record .. => ((.ok () : Except Failure Unit), objects)
  | .count _ => ((), objects)

/-- The world of the store and its surroundings. -/
def world : Program.World Effect.Answer (Objects × τ) := fun e s =>
  match c.fault e s.2 with
  | some f => (e.failed f, (s.1, c.next e s.2))
  | none => ((c.respond s.1 s.2 e).1, ((c.respond s.1 s.2 e).2, c.next e s.2))

/-- No request to the store fails but those that the store refuses. -/
def StoreFaultless : Prop :=
  ∀ e t, e.isForStore → c.fault e t = none

/-- No request to the store fails but look-ups, and those that the store refuses. -/
def OnlyLooksFail : Prop :=
  ∀ e t, e.isForStore → e.isLook = false → c.fault e t = none

variable {c}

lemma StoreFaultless.onlyLooksFail (hc : c.StoreFaultless) : c.OnlyLooksFail :=
  fun e t he _ => hc e t he

/-- A look-up finds what the store holds. -/
lemma run_get (hc : c.StoreFaultless) (kind : Kind) (ns name : String) (objects : Objects) (t : τ) :
    ∃ t', (Pass.get kind ns name).run c.world (objects, t) =
      (.ok (objects ⟨kind, ns, name⟩), (objects, t')) := by
  refine ⟨c.next (.get kind ns name) t, ?_⟩
  simp only [Pass.get, Program.question, Program.run, world, hc (.get kind ns name) t rfl, respond]

/-- Under a free key an object is created. -/
lemma run_create_free (hc : c.StoreFaultless) {kind : Kind} {ns : String} {o : Object}
    {objects : Objects} (h : objects ⟨kind, ns, o.nameText⟩ = none) (t : τ) :
    ∃ t', (Pass.create kind ns o).run c.world (objects, t) =
      (.ok (), (objects.set ⟨kind, ns, o.nameText⟩ (some o), t')) := by
  refine ⟨c.next (.create kind ns o) t, ?_⟩
  simp only [Pass.create, Program.question, Program.run, world, hc (.create kind ns o) t rfl,
    respond, h]

/-- Under a key that is taken no object is created. -/
lemma run_create_taken (hc : c.StoreFaultless) {kind : Kind} {ns : String} {o : Object}
    {objects : Objects} (h : objects ⟨kind, ns, o.nameText⟩ ≠ none) (t : τ) :
    ∃ f t', (Pass.create kind ns o).run c.world (objects, t) = (.error f, (objects, t')) := by
  obtain ⟨o', ho'⟩ := Option.ne_none_iff_exists'.mp h
  refine ⟨c.refusal (.create kind ns o) t, c.next (.create kind ns o) t, ?_⟩
  simp only [Pass.create, Program.question, Program.run, world, hc (.create kind ns o) t rfl,
    respond, ho']

/-- An update takes no key that was free. -/
lemma taken_run_update (kind : Kind) (ns : String) (o : Object) (objects : Objects) (t : τ) :
    ((Pass.update kind ns o).run c.world (objects, t)).2.1.taken = objects.taken := by
  simp only [Pass.update, Program.question, Program.run, world]
  cases c.fault (.update kind ns o) t with
  | some f => rfl
  | none =>
    simp only [respond]
    cases h : objects ⟨kind, ns, o.nameText⟩ with
    | none => rfl
    | some o' =>
      rw [Objects.taken_set_some]
      exact Set.insert_eq_of_mem (by simp [Objects.mem_taken, h])

/-- To count a metric leaves the store alone. -/
lemma run_count (metric : Metric) (objects : Objects) (t : τ) :
    ∃ t', (Pass.count metric).run c.world (objects, t) = ((), (objects, t')) := by
  refine ⟨c.next (.count metric) t, ?_⟩
  simp only [Pass.count, Program.question, Program.run, world]
  cases c.fault (.count metric) t <;> rfl

/-- A fetch leaves the store alone. -/
lemma run_fetch (source : Source) (skip : Bool) (objects : Objects) (t : τ) :
    ∃ answer t', (Pass.fetch source skip).run c.world (objects, t) = (answer, (objects, t')) := by
  simp only [Pass.fetch, Program.question, Program.run, world]
  cases c.fault (.fetch source skip) t with
  | some f => exact ⟨_, _, rfl⟩
  | none => exact ⟨_, _, rfl⟩

end Surroundings

/-! ## What is found and what is written -/

namespace Effect

/-- A look-up that has found an object. -/
abbrev found (key : ObjectKey) (o : Object) : Program.Exchange Effect.Answer :=
  ⟨.get key.kind key.inNamespace key.name, (.ok (some o) : Except Failure (Option Object))⟩

/-- The key that a request with this answer has written, and what it has put there: an object, or
none if it has deleted. -/
def written? : (e : Effect) → Effect.Answer e → Option (ObjectKey × Option Object)
  | .create kind ns o, answer => match (answer : Except Failure Unit) with
    | .ok () => some (⟨kind, ns, o.nameText⟩, some o)
    | .error _ => none
  | .update kind ns o, answer => match (answer : Except Failure Unit) with
    | .ok () => some (⟨kind, ns, o.nameText⟩, some o)
    | .error _ => none
  | .delete kind ns name, answer => match (answer : Except Failure Unit) with
    | .ok () => some (⟨kind, ns, name⟩, none)
    | .error _ => none
  | _, _ => none

end Effect

namespace Surroundings

variable {τ : Type} (c : Surroundings τ)

/-- The store after a request is the one before with what the request has written. -/
lemma store_world (e : Effect) (s : Objects × τ) :
    (c.world e s).2.1 =
      match e.written? (c.world e s).1 with
      | some (key, o) => s.1.set key o
      | none => s.1 := by
  unfold world
  cases c.fault e s.2 with
  | some f => cases e <;> rfl
  | none =>
    cases e with
    | create kind ns o =>
      simp only [respond]
      cases s.1 ⟨kind, ns, o.nameText⟩ <;> rfl
    | update kind ns o =>
      simp only [respond]
      cases s.1 ⟨kind, ns, o.nameText⟩ <;> rfl
    | _ => rfl

/-- What is found is in the store, and to find it leaves the store as it is. -/
lemma get_world {key : ObjectKey} {o : Object} {s : Objects × τ}
    (h : (c.world (.get key.kind key.inNamespace key.name) s).1 =
      (.ok (some o) : Except Failure (Option Object))) :
    s.1 key = some o ∧ (c.world (.get key.kind key.inNamespace key.name) s).2.1 = s.1 := by
  refine ⟨?_, c.store_world _ s⟩
  unfold world at h
  cases hfault : c.fault (.get key.kind key.inNamespace key.name) s.2 with
  | some f =>
    rw [hfault] at h
    cases h
  | none =>
    rw [hfault] at h
    exact Except.ok.inj h

end Surroundings

/-! ## What may be answered -/

namespace Effect

/-- A fetch that succeeds yields the bytes at its source. -/
def Faithful (content : Source → Bytes) : (e : Effect) → Effect.Answer e → Prop
  | .fetch source _, answer => ∀ raw, (answer : Except Failure Bytes) = .ok raw →
      raw = content source
  | _, _ => True

/-- Every fetch yields the bytes at its source. -/
def Served (content : Source → Bytes) : (e : Effect) → Effect.Answer e → Prop
  | .fetch source _, answer => (answer : Except Failure Bytes) = .ok (content source)
  | _, _ => True

/-- A fetch that succeeds yields bytes that are served at its source. -/
def Among (served : Source → Set Bytes) : (e : Effect) → Effect.Answer e → Prop
  | .fetch source _, answer => ∀ raw, (answer : Except Failure Bytes) = .ok raw →
      raw ∈ served source
  | _, _ => True

/-- Every fetch from one source yields the bytes there. -/
def ServedAt (source : Source) (raw : Bytes) : (e : Effect) → Effect.Answer e → Prop
  | .fetch source' _, answer => source' = source → (answer : Except Failure Bytes) = .ok raw
  | _, _ => True

lemma Faithful.among {content : Source → Bytes} {e : Effect} {answer : Effect.Answer e}
    (h : Faithful content e answer) : Among (fun source => {content source}) e answer := by
  cases e with
  | fetch source skip => exact h
  | _ => trivial

lemma Served.servedAt {content : Source → Bytes} {e : Effect} {answer : Effect.Answer e}
    (h : Served content e answer) (source : Source) :
    ServedAt source (content source) e answer := by
  cases e with
  | fetch source' skip =>
    rintro rfl
    exact h
  | _ => trivial

/-- Every answer may be given. -/
def Anything : (e : Effect) → Effect.Answer e → Prop :=
  fun _ _ => True

end Effect

/-- Any world gives such answers. -/
lemma Program.World.Admits.anything {σ : Type} {world : Program.World Effect.Answer σ} :
    world.Admits Effect.Anything :=
  fun _ _ => trivial

/-! ## A small stack and its world -/

/-- A pipeline that names a single file by its web address. -/
def PipelineSpec.ofUrl (id url : String) : PipelineSpec where
  id := id
  sha256 := "00"
  https := some { url }

/-- The archive that such a pipeline refers to. -/
def Reference.ofUrl (url : String) : Reference :=
  ⟨.https url, "00"⟩

/-- A version that lists one such pipeline. -/
def VersionSpec.ofUrl (url : String) : VersionSpec where
  version := "1"
  pipelines := [.ofUrl "default" url]

/-- A stack that can own objects, asks for some versions and has some recorded. -/
def Stack.asking (versions : List VersionSpec) (recorded : List VersionStatus) : Stack where
  metadata := { name := some "java", namespaceName := some "kabanero", uid := some "uid-java" }
  spec := { versions }
  status := some { versions := recorded }

/-- The world in which every request fails. -/
def outage : Program.World Effect.Answer Unit :=
  fun e t => (e.failed (Failure.root "timeout"), t)

/-- A document that asks for an object. -/
def document (kind name : String) : String :=
  "apiVersion: tekton.dev/v1beta1\nkind: " ++ kind ++ "\nmetadata:\n  name: " ++ name ++ "\n"

namespace Surroundings

/-- Surroundings in which one text is served from everywhere and some requests fail. -/
def serving (text : String) (fails : Effect → Bool) : Surroundings Unit where
  fault e _ := if fails e then some (Failure.root "timeout") else none
  refusal _ _ := Failure.root "already exists"
  bytes _ _ _ := Utf8.encodeString text
  next _ _ := ()

lemma faithful_serving (text : String) (fails : Effect → Bool) :
    (serving text fails).world.Admits (Effect.Faithful fun _ => Utf8.encodeString text) := by
  intro e s
  cases e with
  | fetch source skip =>
    intro raw hraw
    simp only [world, serving] at hraw
    by_cases h : fails (.fetch source skip)
    · simp only [h, if_true, Effect.failed] at hraw
      cases hraw
    · simp only [h, respond] at hraw
      cases hraw
      rfl
  | _ => trivial

lemma served_serving (text : String) {fails : Effect → Bool}
    (h : ∀ source skip, fails (.fetch source skip) = false) :
    (serving text fails).world.Admits (Effect.Served fun _ => Utf8.encodeString text) := by
  intro e s
  cases e with
  | fetch source skip =>
    simp only [Effect.Served, world, serving, h]
    rfl
  | _ => trivial

lemma among_serving (text : String) {fails : Effect → Bool}
    (h : ∀ source skip, fails (.fetch source skip) = true) :
    (serving text fails).world.Admits (Effect.Among fun _ => ∅) := by
  intro e s
  cases e with
  | fetch source skip =>
    intro raw hraw
    simp only [world, serving, h, if_true, Effect.failed] at hraw
    cases hraw
  | _ => trivial

lemma storeFaultless_serving (text : String) {fails : Effect → Bool}
    (h : ∀ e, e.isForStore → fails e = false) : (serving text fails).StoreFaultless := by
  intro e t he
  simp only [serving, h e he]
  rfl

end Surroundings

end PipelineStacks
