import PipelineStacks.Proofs.Presence

/-!
# Passes in a steady world

In a world in which no request to the store fails, and which fetches and refuses in the same way at
all times (`Surroundings.Steady`), what a program comes to depends on the store alone.
`Surroundings.Yields` says what that is: its value and the store after it, whenever it runs.  The
rules follow the requests and the sequence of programs, and `yields_traverse` visits a map.
-/

namespace PipelineStacks

/-! ## Stores under names -/

namespace Objects

/-- Every object is kept under its own name. -/
def WellKeyed (objects : Objects) : Prop :=
  ∀ key o, objects key = some o → o.nameText = key.name

variable {objects : Objects}

@[simp] lemma set_same (objects : Objects) (key : ObjectKey) (o : Option Object) :
    objects.set key o key = o :=
  if_pos rfl

lemma set_of_ne (objects : Objects) {key key' : ObjectKey} (o : Option Object) (h : key' ≠ key) :
    objects.set key o key' = objects key' :=
  if_neg h

/-- To put back what is there changes nothing. -/
lemma set_eq_self {key : ObjectKey} {o : Option Object} (h : objects key = o) :
    objects.set key o = objects := by
  funext key'
  by_cases hkey : key' = key
  · rw [hkey, set_same, h]
  · rw [set_of_ne _ _ hkey]

/-- Of two objects that are put under one key the second one stays. -/
@[simp] lemma set_set (objects : Objects) (key : ObjectKey) (o o' : Option Object) :
    (objects.set key o).set key o' = objects.set key o' := by
  funext key'
  by_cases hkey : key' = key
  · rw [hkey, set_same, set_same]
  · rw [set_of_ne _ _ hkey, set_of_ne _ _ hkey, set_of_ne _ _ hkey]

/-- An object may be put under its own name. -/
lemma WellKeyed.set_some (h : objects.WellKeyed) {key : ObjectKey} {o : Object}
    (hname : o.nameText = key.name) : (objects.set key (some o)).WellKeyed := by
  intro key' o' ho'
  by_cases hkey : key' = key
  · rw [hkey, set_same] at ho'
    rw [hkey, ← Option.some.inj ho', hname]
  · rw [set_of_ne _ _ hkey] at ho'
    exact h key' o' ho'

/-- An object may be taken away. -/
lemma WellKeyed.set_none (h : objects.WellKeyed) (key : ObjectKey) :
    (objects.set key none).WellKeyed := by
  intro key' o' ho'
  by_cases hkey : key' = key
  · rw [hkey, set_same] at ho'
    cases ho'
  · rw [set_of_ne _ _ hkey] at ho'
    exact h key' o' ho'

end Objects

/-! ## Steady surroundings -/

namespace Surroundings

variable {τ : Type}

/-- No request to the store fails but those that it refuses; a request is refused in the same words
at all times, and a fetch has the same answer, bytes or a failure, at all times. -/
structure Steady (c : Surroundings τ) (transport : Source → Bool → Except Failure Bytes)
    (refusal : Effect → Failure) : Prop where
  faultless : c.StoreFaultless
  refused : ∀ e t, c.refusal e t = refusal e
  fetched : ∀ source skip t, transport source skip =
    match c.fault (.fetch source skip) t with
    | some f => .error f
    | none => .ok (c.bytes source skip t)

/-- The surroundings that serve one text are steady if no request to the store fails. -/
lemma steady_serving (text : String) {fails : Effect → Bool}
    (h : ∀ e, e.isForStore → fails e = false) : (serving text fails).Steady
      (fun source skip => if fails (.fetch source skip) then .error (Failure.root "timeout")
        else .ok (Utf8.encodeString text)) (fun _ => Failure.root "already exists") where
  faultless := storeFaultless_serving text h
  refused _ _ := rfl
  fetched source skip t := by
    simp only [serving]
    split <;> rfl

/-- Whenever the program runs on a store, it comes to the value and leaves the other store. -/
def Yields {α : Type} (c : Surroundings τ) (p : Pass α) (objects : Objects) (value : α)
    (objects' : Objects) : Prop :=
  ∀ t, ∃ t', p.run c.world (objects, t) = (value, (objects', t'))

variable {c : Surroundings τ} {α β : Type} {objects objects' objects'' : Objects}

lemma yields_done (value : α) : c.Yields (.done value) objects value objects :=
  fun t => ⟨t, rfl⟩

/-- A sequence comes to what its second part comes to after the first. -/
theorem Yields.bind {p : Pass α} {k : α → Pass β} {value : α} {result : β}
    (hp : c.Yields p objects value objects')
    (hk : c.Yields (k value) objects' result objects'') :
    c.Yields (p >>= k) objects result objects'' := by
  intro t
  obtain ⟨t', ht'⟩ := hp t
  obtain ⟨t'', ht''⟩ := hk t'
  exact ⟨t'', by rw [Program.run_bind, ht', ht'']⟩

lemma yields_count (metric : Metric) : c.Yields (Pass.count metric) objects () objects :=
  fun t => run_count metric objects t

/-! ### Requests -/

section Store

variable (hc : c.StoreFaultless)
include hc

lemma yields_get (kind : Kind) (ns name : String) :
    c.Yields (Pass.get kind ns name) objects (.ok (objects ⟨kind, ns, name⟩)) objects :=
  fun t => run_get hc kind ns name objects t

lemma yields_create_free {kind : Kind} {ns : String} {o : Object}
    (h : objects ⟨kind, ns, o.nameText⟩ = none) : c.Yields (Pass.create kind ns o) objects (.ok ())
      (objects.set ⟨kind, ns, o.nameText⟩ (some o)) :=
  fun t => run_create_free hc h t

end Store

section Writes

variable (hc : c.OnlyLooksFail)
include hc

/-- An object that is there is replaced. -/
lemma yields_update {kind : Kind} {ns : String} {o : Object}
    (h : objects ⟨kind, ns, o.nameText⟩ ≠ none) : c.Yields (Pass.update kind ns o) objects (.ok ())
      (objects.set ⟨kind, ns, o.nameText⟩ (some o)) := by
  obtain ⟨o', ho'⟩ := Option.ne_none_iff_exists'.mp h
  refine fun t => ⟨c.next (.update kind ns o) t, ?_⟩
  simp only [Pass.update, Program.question, Program.run, world,
    hc (.update kind ns o) t rfl rfl, respond, ho']

lemma yields_delete (kind : Kind) (ns name : String) :
    c.Yields (Pass.delete kind ns name) objects (.ok ()) (objects.set ⟨kind, ns, name⟩ none) := by
  refine fun t => ⟨c.next (.delete kind ns name) t, ?_⟩
  simp only [Pass.delete, Program.question, Program.run, world,
    hc (.delete kind ns name) t rfl rfl, respond]

end Writes

section Steady

variable {transport : Source → Bool → Except Failure Bytes} {refusal : Effect → Failure}
  (hc : c.Steady transport refusal)
include hc

lemma yields_create_taken {kind : Kind} {ns : String} {o : Object}
    (h : objects ⟨kind, ns, o.nameText⟩ ≠ none) : c.Yields (Pass.create kind ns o) objects
      (.error (refusal (.create kind ns o))) objects := by
  obtain ⟨o', ho'⟩ := Option.ne_none_iff_exists'.mp h
  refine fun t => ⟨c.next (.create kind ns o) t, ?_⟩
  simp only [Pass.create, Program.question, Program.run, world,
    hc.faultless (.create kind ns o) t rfl, respond, ho', hc.refused]

lemma yields_fetch (source : Source) (skip : Bool) :
    c.Yields (Pass.fetch source skip) objects (transport source skip) objects := by
  refine fun t => ⟨c.next (.fetch source skip) t, ?_⟩
  have hanswer := hc.fetched source skip t
  simp only [Pass.fetch, Program.question, Program.run, world]
  cases hfault : c.fault (.fetch source skip) t with
  | some f =>
    rw [hfault] at hanswer
    simp only [hanswer, Effect.failed]
  | none =>
    rw [hfault] at hanswer
    simp only [hanswer, respond]

end Steady

/-! ### Visiting a map -/

section Visit

variable {κ ν μ : Type} {f : κ → ν → Pass μ} {Inv : Objects → Prop}
  {R : Objects → Objects → Prop} {Q : κ → ν → μ → Objects → Prop}

/-- What is said of a visit of entries: an invariant of the store is kept, the store moves along a
preorder, and of each value that is left something can be said that stays true along it. -/
lemma runEntries_of_step (hrefl : ∀ S, R S S) (htrans : ∀ {S S' S''}, R S S' → R S' S'' → R S S'')
    (hstable : ∀ {k v v' S S'}, R S S' → Q k v v' S → Q k v v' S') {es : List (κ × ν)}
    (hstep : ∀ e ∈ es, ∀ S, Inv S → ∃ v' S', c.Yields (f e.1 e.2) S v' S' ∧ Inv S' ∧ R S S' ∧
      Q e.1 e.2 v' S') (hobjects : Inv objects) :
    ∃ es' objects',
      (∀ t, ∃ t', SortedMap.runEntries c.world f es (objects, t) = (es', (objects', t'))) ∧
      Inv objects' ∧ R objects objects' ∧
      List.Forall₂ (fun e e' => e.1 = e'.1 ∧ Q e.1 e.2 e'.2 objects') es es' := by
  induction es generalizing objects with
  | nil => exact ⟨[], objects, fun t => ⟨t, rfl⟩, hobjects, hrefl objects, .nil⟩
  | cons e es ih =>
    obtain ⟨hhead, htail⟩ := List.forall_mem_cons.mp hstep
    obtain ⟨v', S, hyields, hS, hmove, hv'⟩ := hhead objects hobjects
    obtain ⟨es', S', hrun, hS', hmove', hes'⟩ := ih htail hS
    refine ⟨(e.1, v') :: es', S', fun t => ?_, hS', htrans hmove hmove',
      .cons ⟨rfl, hstable hmove' hv'⟩ hes'⟩
    obtain ⟨t', ht'⟩ := hyields t
    obtain ⟨t'', ht''⟩ := hrun t'
    exact ⟨t'', by simp only [SortedMap.runEntries, ht', ht'']⟩

variable [Ranked κ] [DecidableEq κ] {m : SortedMap κ ν}

/-- The same of a visit of a map. -/
theorem yields_traverse (hrefl : ∀ S, R S S)
    (htrans : ∀ {S S' S''}, R S S' → R S' S'' → R S S'')
    (hstable : ∀ {k v v' S S'}, R S S' → Q k v v' S → Q k v v' S')
    (hstep : ∀ k v, m.get? k = some v → ∀ S, Inv S → ∃ v' S', c.Yields (f k v) S v' S' ∧
      Inv S' ∧ R S S' ∧ Q k v v' S') (hobjects : Inv objects) :
    ∃ m' objects', c.Yields (m.traverse f) objects m' objects' ∧ Inv objects' ∧
      R objects objects' ∧
      m.Pointwise (fun k v v' => Q k v v' objects') m' := by
  obtain ⟨es', objects', hrun, hinv, hmove, hes'⟩ := runEntries_of_step (Q := Q) hrefl htrans
    hstable (fun e he => hstep e.1 e.2 (SortedMap.mem_entries_iff.mp he)) hobjects
  have hkeys : m.entries.map Prod.fst = es'.map Prod.fst := by
    rw [← List.forall₂_eq_eq_eq, List.forall₂_map_left_iff, List.forall₂_map_right_iff]
    exact hes'.imp fun _ _ h => h.1
  refine ⟨⟨es', hkeys ▸ m.sorted⟩, objects', fun t => ?_, hinv, hmove,
    SortedMap.pointwise_of_entries hes'⟩
  obtain ⟨t', ht'⟩ := hrun t
  rw [← SortedMap.run_traverse] at ht'
  obtain ⟨hentries, hworld⟩ := Prod.mk.inj ht'
  exact ⟨t', Prod.ext (SortedMap.ext hentries) hworld⟩

/-- The same if what is said of the values does not hang on the store. -/
lemma yields_traverse_values {P : κ → ν → μ → Prop}
    (hstep : ∀ k v, m.get? k = some v → ∀ S, Inv S → ∃ v' S', c.Yields (f k v) S v' S' ∧
      Inv S' ∧ P k v v') (hobjects : Inv objects) :
    ∃ m' objects', c.Yields (m.traverse f) objects m' objects' ∧ Inv objects' ∧
      m.Pointwise P m' := by
  have hmoves : ∀ k v, m.get? k = some v → ∀ S, Inv S → ∃ v' S', c.Yields (f k v) S v' S' ∧
      Inv S' ∧ True ∧ P k v v' := by
    intro k v hv S hS
    obtain ⟨v', S', hyields, hS', hP⟩ := hstep k v hv S hS
    exact ⟨v', S', hyields, hS', trivial, hP⟩
  obtain ⟨m', objects', hrun, hinv, -, hrel⟩ :=
    yields_traverse (R := fun _ _ => True) (Q := fun k v v' _ => P k v v') (fun _ => trivial)
      (fun _ _ => trivial) (fun _ => id) hmoves hobjects
  exact ⟨m', objects', hrun, hinv, hrel⟩

omit [DecidableEq κ] in
/-- If what a visit does with each entry is known, so is what it does in all. -/
theorem yields_traverse_map {g : κ → ν → μ} {h : Objects → κ × ν → Objects}
    (hstep : ∀ e ∈ m.entries, ∀ S, Inv S →
      c.Yields (f e.1 e.2) S (g e.1 e.2) (h S e) ∧ Inv (h S e)) (hobjects : Inv objects) :
    c.Yields (m.traverse f) objects (m.map g) (m.entries.foldl h objects) := by
  have hrun : ∀ t, ∃ t', SortedMap.runEntries c.world f m.entries (objects, t) =
      (m.entries.map fun e => (e.1, g e.1 e.2), (m.entries.foldl h objects, t')) := by
    generalize m.entries = es at hstep
    induction es generalizing objects with
    | nil => exact fun t => ⟨t, rfl⟩
    | cons e es ih =>
      obtain ⟨hhead, htail⟩ := List.forall_mem_cons.mp hstep
      obtain ⟨hyields, hinv⟩ := hhead objects hobjects
      intro t
      obtain ⟨t', ht'⟩ := hyields t
      obtain ⟨t'', ht''⟩ := ih hinv htail t'
      exact ⟨t'', by simp only [SortedMap.runEntries, ht', ht'', List.map_cons, List.foldl_cons]⟩
  intro t
  obtain ⟨t', ht'⟩ := hrun t
  rw [← SortedMap.run_traverse] at ht'
  obtain ⟨hentries, hworld⟩ := Prod.mk.inj ht'
  exact ⟨t', Prod.ext (SortedMap.ext hentries) hworld⟩

end Visit

end Surroundings

/-! ## What is loaded -/

/-- The assets of an archive when the answer to each fetch is known. -/
def transported (transport : Source → Bool → Except Failure Bytes) (r : Reference) (name : String)
    (context : RenderContext) (skip : Bool) : Except PipelineError (List Asset) :=
  if r.source = .https "" then .error .noSource
  else
    match r.source.fileType with
    | .error e => .error e
    | .ok type =>
      match transport r.source skip with
      | .error e => .error (.transport e)
      | .ok raw => decodeFetched r name context type raw

/-- How a pipeline is called has no part in which assets are loaded, though errors may name it. -/
lemma toOption_transported (transport : Source → Bool → Except Failure Bytes) (r : Reference)
    (name name' : String) (context : RenderContext) (skip : Bool) :
    (transported transport r name context skip).toOption =
      (transported transport r name' context skip).toOption := by
  have hdecode : ∀ type raw, (decodeFetched r name context type raw).toOption =
      (decodeFetched r name' context type raw).toOption := by
    intro type raw
    cases type with
    | tarGz => rfl
    | yaml =>
      unfold decodeFetched Documents.decode
      cases Template.renderManifest context raw with
      | error fault => rfl
      | ok rendered => simp only; split <;> rfl
  unfold transported
  split
  · rfl
  · split
    · rfl
    · split
      · rfl
      · exact hdecode _ _

namespace Surroundings

variable {τ : Type} {c : Surroundings τ} {objects : Objects}
  {transport : Source → Bool → Except Failure Bytes} {refusal : Effect → Failure}

/-- In a steady world the same assets are loaded at all times, and the store stays as it is. -/
theorem yields_getManifests (hc : c.Steady transport refusal) (r : Reference) (name : String)
    (context : RenderContext) (skip : Bool) :
    c.Yields (getManifests r name context skip) objects (transported transport r name context skip)
      objects := by
  have hfetch : c.Yields (fetchAssets r name context skip) objects
      (transported transport r name context skip) objects := by
    unfold fetchAssets fetchArchive transported
    split
    · exact yields_done _
    · cases r.source.fileType with
      | error e => exact yields_done _
      | ok type =>
        have hanswer : c.Yields (Pass.fetch r.source skip) objects (transport r.source skip)
            objects := yields_fetch hc r.source skip
        cases hraw : transport r.source skip with
        | error e =>
          rw [hraw] at hanswer
          exact (hanswer.bind (yields_done _)).bind (yields_done _)
        | ok raw =>
          rw [hraw] at hanswer
          exact (hanswer.bind (yields_done _)).bind (yields_done _)
  refine (yields_count _).bind (hfetch.bind ((yields_count _).bind ?_))
  cases transported transport r name context skip with
  | error e => exact (yields_count _).bind (yields_done _)
  | ok found => exact yields_done _

end Surroundings

end PipelineStacks
