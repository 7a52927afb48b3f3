import Mathlib.Data.List.Forall2
import Mathlib.Data.List.Induction
import Mathlib.Tactic.Common
import PipelineStacks.Program
import PipelineStacks.SortedMap

/-!
# Looking into sorted maps

The entries of a sorted map are where its look-ups succeed (`mem_entries_iff`), and a map made from
a list holds the last value of each key (`get?_ofList`).  `get?_run_traverse` says what is found
after a program has visited all entries: under each key the answer for the value that was there,
given in some state of the world.  If the program leaves some entries alone, its run is the sequence
of its visits to the others (`exists_visits_traverse`).  Maps of the same keys are compared by
`Pointwise`.
-/

namespace PipelineStacks

namespace SortedMap

section Lookup

variable {κ ν : Type} [Ranked κ] [DecidableEq κ]

omit [Ranked κ] in
/-- With distinct keys a look-up finds exactly the entries. -/
lemma lookup_eq_some_iff {k : κ} {v : ν} {es : List (κ × ν)} (h : (es.map Prod.fst).Nodup) :
    lookup k es = some v ↔ (k, v) ∈ es := by
  induction es with
  | nil => simp [lookup]
  | cons e es ih =>
    obtain ⟨k', v'⟩ := e
    rw [List.map_cons, List.nodup_cons] at h
    have ih := ih h.2
    by_cases hk : k = k'
    · subst hk
      have hnot : (k, v) ∉ es := fun hmem => h.1 (List.mem_map.mpr ⟨(k, v), hmem, rfl⟩)
      simp [lookup, hnot, eq_comm]
    · simp [lookup, hk, ih]

/-- The entries are where a look-up succeeds. -/
theorem mem_entries_iff {s : SortedMap κ ν} {k : κ} {v : ν} :
    (k, v) ∈ s.entries ↔ s.get? k = some v :=
  (lookup_eq_some_iff s.keys_nodup).symm

/-- A map is grown from a list one entry at a time. -/
lemma ofList_concat (es : List (κ × ν)) (e : κ × ν) :
    ofList (es ++ [e]) = (ofList es).insert e.1 e.2 := by
  simp [ofList]

/-- Of equal keys in a list the last one counts. -/
theorem get?_ofList (es : List (κ × ν)) (k : κ) : (ofList es).get? k = lookup k es.reverse := by
  induction es using List.reverseRecOn with
  | nil => rfl
  | append_singleton es e ih =>
    rw [ofList_concat, get?_insert, ih, List.reverse_concat]
    rfl

omit [Ranked κ] in
/-- A look-up finds the first entry of its key. -/
lemma lookup_eq_some_iff_first {k : κ} {v : ν} {es : List (κ × ν)} : lookup k es = some v ↔
    ∃ before after, es = before ++ (k, v) :: after ∧ k ∉ before.map Prod.fst := by
  induction es with
  | nil => simp [lookup]
  | cons e es ih =>
    obtain ⟨k', v'⟩ := e
    by_cases hk : k = k'
    · subst hk
      rw [lookup, if_pos rfl, Option.some.injEq]
      constructor
      · rintro rfl
        exact ⟨[], es, rfl, List.not_mem_nil⟩
      · rintro ⟨before, after, heq, hnot⟩
        cases before with
        | nil =>
          cases heq
          rfl
        | cons e before =>
          cases heq
          exact (hnot List.mem_cons_self).elim
    · rw [lookup, if_neg hk, ih]
      constructor
      · rintro ⟨before, after, rfl, hnot⟩
        exact ⟨(k', v') :: before, after, rfl, fun hmem => (List.mem_cons.mp hmem).elim hk hnot⟩
      · rintro ⟨before, after, heq, hnot⟩
        cases before with
        | nil =>
          cases heq
          exact (hk rfl).elim
        | cons e before =>
          cases heq
          exact ⟨before, after, rfl, fun hmem => hnot (List.mem_cons_of_mem _ hmem)⟩

/-- In a map that was made from a list the last entry of each key is found. -/
theorem get?_ofList_eq_some_iff {es : List (κ × ν)} {k : κ} {v : ν} :
    (ofList es).get? k = some v ↔
      ∃ before after, es = before ++ (k, v) :: after ∧ k ∉ after.map Prod.fst := by
  rw [get?_ofList, lookup_eq_some_iff_first]
  constructor
  · rintro ⟨before, after, heq, hnot⟩
    refine ⟨after.reverse, before.reverse, ?_, ?_⟩
    · rw [← List.reverse_reverse es, heq]
      simp
    · rwa [List.map_reverse, List.mem_reverse]
  · rintro ⟨before, after, rfl, hnot⟩
    refine ⟨after.reverse, before.reverse, by simp, ?_⟩
    rwa [List.map_reverse, List.mem_reverse]

/-- Maps are told apart by what is found in them. -/
theorem ext_get? {s t : SortedMap κ ν} (h : ∀ k, s.get? k = t.get? k) : s = t := by
  have hnodup : ∀ u : SortedMap κ ν, u.entries.Nodup := fun u =>
    (List.pairwise_map.mp u.keys_nodup).imp fun hne heq => hne (congrArg Prod.fst heq)
  have hperm : s.entries.Perm t.entries := by
    refine (List.perm_ext_iff_of_nodup (hnodup s) (hnodup t)).mpr fun e => ?_
    rw [mem_entries_iff (s := s), mem_entries_iff (s := t), h]
  refine SortedMap.ext (hperm.eq_of_pairwise (fun e e' _ _ hlt hgt => ?_)
    (List.pairwise_map.mp s.sorted) (List.pairwise_map.mp t.sorted))
  exact (Precedes.irrefl _ (Precedes.trans hlt hgt)).elim

lemma erase_insert (s : SortedMap κ ν) (k : κ) (v : ν) : (s.insert k v).erase k = s.erase k := by
  refine ext_get? fun k' => ?_
  rw [get?_erase, get?_erase, get?_insert]
  split <;> rfl

lemma erase_erase (s : SortedMap κ ν) (k : κ) : (s.erase k).erase k = s.erase k := by
  refine ext_get? fun k' => ?_
  rw [get?_erase, get?_erase]
  split <;> rfl

lemma contains_iff_mem_keys {s : SortedMap κ ν} {k : κ} : s.contains k = true ↔ k ∈ s.keys :=
  mem_keys_iff.symm

/-- A map made from a list has the keys of the list. -/
theorem contains_ofList {es : List (κ × ν)} {k : κ} :
    (ofList es).contains k = true ↔ k ∈ es.map Prod.fst := by
  unfold contains
  rw [get?_ofList, Option.isSome_iff_ne_none, ne_eq, lookup_eq_none_iff, not_not]
  simp

end Lookup

/-! ## Visiting all entries -/

section Visit

variable {κ ν μ ι σ : Type} [Ranked κ] {Answer : ι → Type}

/-- The entries after a program has visited them in order, with the state of the world after it. -/
def runEntries (world : Program.World Answer σ) (f : κ → ν → Program Answer μ) :
    List (κ × ν) → σ → List (κ × μ) × σ
  | [], t => ([], t)
  | (k, v) :: es, t =>
    let rest := runEntries world f es ((f k v).run world t).2
    ((k, ((f k v).run world t).1) :: rest.1, rest.2)

omit [Ranked κ] in
lemma run_traverseEntries (world : Program.World Answer σ) (f : κ → ν → Program Answer μ)
    (es : List (κ × ν)) (t : σ) :
    (((traverseEntries f es).run world t).1.val, ((traverseEntries f es).run world t).2) =
      runEntries world f es t := by
  induction es generalizing t with
  | nil => rfl
  | cons e es ih =>
    obtain ⟨k, v⟩ := e
    have hrest := ih ((f k v).run world t).2
    simp only [traverseEntries, Program.run_bind, Program.pure_eq, Program.run_done, runEntries,
      ← hrest]

/-- Running a traversal visits the entries in order. -/
theorem run_traverse (world : Program.World Answer σ) (s : SortedMap κ ν)
    (f : κ → ν → Program Answer μ) (t : σ) :
    (((s.traverse f).run world t).1.entries, ((s.traverse f).run world t).2) =
      runEntries world f s.entries t := by
  rw [← run_traverseEntries]
  simp only [traverse, Program.run_bind, Program.pure_eq, Program.run_done]

omit [Ranked κ] in
/-- What stands under a key after a visit is the answer for what stood there before. -/
theorem lookup_runEntries [DecidableEq κ] (world : Program.World Answer σ)
    (f : κ → ν → Program Answer μ) (es : List (κ × ν)) (t : σ) (k : κ) :
    ∃ t', lookup k (runEntries world f es t).1 =
      (lookup k es).map fun v => ((f k v).run world t').1 := by
  induction es generalizing t with
  | nil => exact ⟨t, rfl⟩
  | cons e es ih =>
    obtain ⟨k', v⟩ := e
    by_cases hk : k = k'
    · subst hk
      exact ⟨t, by simp [runEntries, lookup]⟩
    · obtain ⟨t', ht'⟩ := ih ((f k' v).run world t).2
      exact ⟨t', by simp [runEntries, lookup, hk, ht']⟩

/-- A traversal that asks nothing and changes nothing leaves the map and the world alone. -/
lemma run_traverse_done (world : Program.World Answer σ) {s : SortedMap κ ν}
    {f : κ → ν → Program Answer ν} (h : ∀ e ∈ s.entries, f e.1 e.2 = .done e.2) (t : σ) :
    (s.traverse f).run world t = (s, t) := by
  have hentries : runEntries world f s.entries t = (s.entries, t) := by
    generalize s.entries = es at h
    induction es generalizing t with
    | nil => rfl
    | cons e es ih =>
      obtain ⟨hhead, htail⟩ := List.forall_mem_cons.mp h
      simp only [runEntries, hhead, Program.run_done, ih t htail]
  rw [← run_traverse] at hentries
  obtain ⟨hsame, hworld⟩ := Prod.mk.inj hentries
  exact Prod.ext (SortedMap.ext hsame) hworld

/-- A look-up after a traversal finds the answer for what it would have found before. -/
theorem get?_run_traverse [DecidableEq κ] (world : Program.World Answer σ) (s : SortedMap κ ν)
    (f : κ → ν → Program Answer μ) (t : σ) (k : κ) :
    ∃ t', ((s.traverse f).run world t).1.get? k =
      (s.get? k).map fun v => ((f k v).run world t').1 := by
  obtain ⟨t', ht'⟩ := lookup_runEntries world f s.entries t k
  refine ⟨t', ?_⟩
  rw [← run_traverse] at ht'
  exact ht'

omit [Ranked κ] in
/-- The exchanges of a traversal are those for its first entry, and then the others. -/
lemma log_traverseEntries_cons (world : Program.World Answer σ) (f : κ → ν → Program Answer μ)
    (e : κ × ν) (es : List (κ × ν)) (t : σ) :
    (traverseEntries f (e :: es)).log world t = (f e.1 e.2).log world t ++
      (traverseEntries f es).log world ((f e.1 e.2).run world t).2 := by
  rw [traverseEntries, Program.log_bind, Program.log_bind]
  simp

omit [Ranked κ] in
/-- What `exists_visits_traverse` says of a map is so of every list of entries. -/
lemma exists_visits_entries (world : Program.World Answer σ) {f g : κ → ν → Program Answer ν}
    {p : κ × ν → Bool} (hvisit : ∀ k v, f k v = if p (k, v) then g k v else .done v)
    (hkeep : ∀ k v t, p (k, v) = true → p (k, ((g k v).run world t).1) = true)
    (es : List (κ × ν)) (t : σ) :
    ∃ visits : List ((κ × ν) × σ),
      visits.map Prod.fst = es.filter p ∧
      (traverseEntries f es).log world t =
        visits.flatMap (fun x => (g x.1.1 x.1.2).log world x.2) ∧
      (runEntries world f es t).1.filter p =
        visits.map (fun x => (x.1.1, ((g x.1.1 x.1.2).run world x.2).1)) ∧
      (runEntries world f es t).1.filter (fun e => !p e) = es.filter fun e => !p e := by
  induction es generalizing t with
  | nil => exact ⟨[], rfl, rfl, rfl, rfl⟩
  | cons e es ih =>
    obtain ⟨k, v⟩ := e
    obtain ⟨visits, hkeys, hlog, hmade, hleft⟩ := ih ((f k v).run world t).2
    rw [log_traverseEntries_cons, hlog, runEntries]
    cases hp : p (k, v) with
    | false =>
      -- the entry is left alone, and no visit is made
      have hidle : f k v = .done v := by rw [hvisit, hp, if_neg Bool.false_ne_true]
      rw [hidle] at hmade hleft ⊢
      refine ⟨visits, ?_, rfl, ?_, ?_⟩
      · rw [List.filter_cons_of_neg (by simp [hp]), hkeys]
      · rw [Program.run_done, List.filter_cons_of_neg (by simp [hp])]
        exact hmade
      · rw [Program.run_done, List.filter_cons_of_pos (by simp [hp]),
          List.filter_cons_of_pos (by simp [hp])]
        exact congrArg _ hleft
    | true =>
      have hbusy : f k v = g k v := by rw [hvisit, hp, if_pos rfl]
      have hkept := hkeep k v t hp
      rw [hbusy] at hmade hleft ⊢
      refine ⟨((k, v), t) :: visits, ?_, rfl, ?_, ?_⟩
      · rw [List.map_cons, List.filter_cons_of_pos hp, hkeys]
      · rw [List.filter_cons_of_pos hkept, hmade, List.map_cons]
      · rw [List.filter_cons_of_neg (by simp [hkept]), List.filter_cons_of_neg (by simp [hp]),
          hleft]

/-- A traversal that leaves some entries alone visits the others one after the other, each in some
state of the world.  Its exchanges are those of the visits, and it leaves what these come to. -/
theorem exists_visits_traverse (world : Program.World Answer σ) (s : SortedMap κ ν)
    {f g : κ → ν → Program Answer ν} {p : κ × ν → Bool}
    (hvisit : ∀ k v, f k v = if p (k, v) then g k v else .done v)
    (hkeep : ∀ k v t, p (k, v) = true → p (k, ((g k v).run world t).1) = true) (t : σ) :
    ∃ visits : List ((κ × ν) × σ),
      visits.map Prod.fst = s.entries.filter p ∧
      (s.traverse f).log world t = visits.flatMap (fun x => (g x.1.1 x.1.2).log world x.2) ∧
      ((s.traverse f).run world t).1.entries.filter p =
        visits.map (fun x => (x.1.1, ((g x.1.1 x.1.2).run world x.2).1)) ∧
      ((s.traverse f).run world t).1.entries.filter (fun e => !p e) =
        s.entries.filter fun e => !p e := by
  obtain ⟨visits, hkeys, hlog, hmade, hleft⟩ := exists_visits_entries world hvisit hkeep s.entries t
  rw [← run_traverse] at hmade hleft
  refine ⟨visits, hkeys, ?_, hmade, hleft⟩
  rw [traverse, Program.log_bind, hlog]
  simp

end Visit

/-! ## Maps with the same keys -/

/-- The maps have the same keys, with values that are related. -/
structure Pointwise {κ ν μ : Type} [Ranked κ] [DecidableEq κ] (P : κ → ν → μ → Prop)
    (m : SortedMap κ ν) (m' : SortedMap κ μ) : Prop where
  of_some : ∀ {k v}, m.get? k = some v → ∃ v', m'.get? k = some v' ∧ P k v v'
  of_none : ∀ {k}, m.get? k = none → m'.get? k = none

section Pointwise

variable {κ ν μ : Type} [Ranked κ] [DecidableEq κ] {P : κ → ν → μ → Prop}

/-- A value of the second map is related to one of the first. -/
lemma Pointwise.exists_of_some {m : SortedMap κ ν} {m' : SortedMap κ μ} (h : Pointwise P m m')
    {k : κ} {v' : μ} (hv' : m'.get? k = some v') : ∃ v, m.get? k = some v ∧ P k v v' := by
  cases hv : m.get? k with
  | none =>
    rw [h.of_none hv] at hv'
    cases hv'
  | some v =>
    obtain ⟨v'', hv'', hP⟩ := h.of_some hv
    obtain rfl := Option.some.inj (hv''.symm.trans hv')
    exact ⟨v, rfl, hP⟩

omit [Ranked κ] in
/-- Entries under the same keys are found together. -/
lemma lookup_of_forall₂ {es : List (κ × ν)} {es' : List (κ × μ)}
    (h : List.Forall₂ (fun e e' => e.1 = e'.1 ∧ P e.1 e.2 e'.2) es es') (k : κ) :
    (∀ v, lookup k es = some v → ∃ v', lookup k es' = some v' ∧ P k v v') ∧
      (lookup k es = none → lookup k es' = none) := by
  induction h with
  | nil =>
    refine ⟨fun v hv => ?_, fun _ => rfl⟩
    cases hv
  | @cons e e' es es' hhead htail ih =>
    obtain ⟨k₁, v₁⟩ := e
    obtain ⟨k₂, v₂⟩ := e'
    obtain ⟨rfl, hP⟩ : k₁ = k₂ ∧ P k₁ v₁ v₂ := hhead
    unfold lookup
    by_cases hk : k = k₁
    · subst hk
      simp only [if_true]
      refine ⟨fun v hv => ⟨v₂, rfl, Option.some.inj hv ▸ hP⟩, fun hnone => ?_⟩
      cases hnone
    · simp only [hk, if_false]
      exact ih

/-- Lists of entries with the same keys give such maps. -/
lemma pointwise_of_entries {m : SortedMap κ ν} {m' : SortedMap κ μ}
    (h : List.Forall₂ (fun e e' => e.1 = e'.1 ∧ P e.1 e.2 e'.2) m.entries m'.entries) :
    Pointwise P m m' :=
  ⟨fun {k v} hv => (lookup_of_forall₂ h k).1 v hv, fun {k} hnone => (lookup_of_forall₂ h k).2 hnone⟩

/-- A map and the map with other values. -/
lemma pointwise_map (m : SortedMap κ ν) (f : κ → ν → μ) :
    Pointwise (fun k v v' => v' = f k v) m (m.map f) := by
  refine pointwise_of_entries (List.forall₂_map_right_iff.mpr ?_)
  exact List.forall₂_same.mpr fun e _ => ⟨rfl, rfl⟩

end Pointwise

end SortedMap

end PipelineStacks
