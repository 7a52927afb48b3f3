import PipelineStacks.Text.Order

/-!
# Sorted maps

Finite maps that list their entries in the order of the keys.  The order is part of the contract
wherever a pass walks over a map, so it is part of the type: a key is ranked by a list of strings,
and the entries are strictly increasing in the lexicographic order of the ranks.

Main statements: `get?_insert` and `get?_erase` (what the operations do to a look-up),
`mem_keys_iff` (the keys are where a look-up succeeds) and `keys_nodup`.
-/

namespace PipelineStacks

/-- Keys with an order that is read off a list of strings. -/
class Ranked (κ : Type) where
  rank : κ → List String
  rank_injective : ∀ {a b : κ}, rank a = rank b → a = b

export Ranked (rank rank_injective)

/-- `a` comes before `b`. -/
def Precedes {κ : Type} [Ranked κ] (a b : κ) : Prop :=
  Order.ofStrings (rank a) (rank b) = true

instance {κ : Type} [Ranked κ] (a b : κ) : Decidable (Precedes a b) :=
  inferInstanceAs (Decidable (Order.ofStrings (rank a) (rank b) = true))

instance : Ranked String where
  rank s := [s]
  rank_injective h := by simpa using h

section Order

variable {κ : Type} [Ranked κ]

theorem Precedes.irrefl (a : κ) : ¬ Precedes a a := by
  simp [Precedes, Order.ofStrings_isStrictOrder.irrefl]

theorem Precedes.ne {a b : κ} (h : Precedes a b) : a ≠ b := by
  rintro rfl
  exact Precedes.irrefl _ h

theorem Precedes.trans {a b c : κ} (hab : Precedes a b) (hbc : Precedes b c) : Precedes a c :=
  Order.ofStrings_isStrictOrder.trans hab hbc

theorem Precedes.of_not {a b : κ} (hne : a ≠ b) (h : ¬ Precedes a b) : Precedes b a := by
  refine Decidable.byContradiction fun hba => ?_
  exact hne (rank_injective (Order.ofStrings_isStrictOrder.connected
    (Bool.not_eq_true _ ▸ h) (Bool.not_eq_true _ ▸ hba)))

end Order

/-- A finite map whose entries are strictly sorted by key. -/
structure SortedMap (κ : Type) [Ranked κ] (ν : Type) where
  entries : List (κ × ν)
  sorted : (entries.map Prod.fst).Pairwise Precedes := by exact List.Pairwise.nil

namespace SortedMap

variable {κ : Type} [Ranked κ] {ν : Type}

@[ext] theorem ext {s t : SortedMap κ ν} (h : s.entries = t.entries) : s = t := by
  cases s; cases t; cases h; rfl

instance [DecidableEq κ] [DecidableEq ν] : DecidableEq (SortedMap κ ν) := fun s t =>
  decidable_of_iff (s.entries = t.entries) ⟨ext, fun h => h ▸ rfl⟩

/-- The map without entries. -/
def empty : SortedMap κ ν where
  entries := []

instance : EmptyCollection (SortedMap κ ν) := ⟨empty⟩
instance : Inhabited (SortedMap κ ν) := ⟨empty⟩

/-- The keys in order. -/
def keys (s : SortedMap κ ν) : List κ :=
  s.entries.map Prod.fst

/-- The values in the order of their keys. -/
def values (s : SortedMap κ ν) : List ν :=
  s.entries.map Prod.snd

/-- The number of entries. -/
def size (s : SortedMap κ ν) : Nat :=
  s.entries.length

/-- There are no entries. -/
def isEmpty (s : SortedMap κ ν) : Bool :=
  s.entries.isEmpty

/-! ## Looking up -/

/-- The value of the first entry with a key. -/
def lookup [DecidableEq κ] (k : κ) : List (κ × ν) → Option ν
  | [] => none
  | (k', v) :: es => if k = k' then some v else lookup k es

/-- The value under a key. -/
def get? [DecidableEq κ] (s : SortedMap κ ν) (k : κ) : Option ν :=
  lookup k s.entries

/-- There is an entry under the key. -/
def contains [DecidableEq κ] (s : SortedMap κ ν) (k : κ) : Bool :=
  (s.get? k).isSome

omit [Ranked κ] in
theorem lookup_eq_none_iff [DecidableEq κ] {k : κ} {es : List (κ × ν)} :
    lookup k es = none ↔ k ∉ es.map Prod.fst := by
  induction es with
  | nil => simp [lookup]
  | cons e es ih =>
    obtain ⟨k', v⟩ := e
    by_cases h : k = k' <;> simp [lookup, h, ih]

/-- The keys are where a look-up succeeds. -/
theorem mem_keys_iff [DecidableEq κ] {s : SortedMap κ ν} {k : κ} :
    k ∈ s.keys ↔ (s.get? k).isSome := by
  have h : lookup k s.entries = none ↔ k ∉ s.entries.map Prod.fst := lookup_eq_none_iff
  cases hl : lookup k s.entries with
  | none => simp [get?, hl, keys, h.1 hl]
  | some v =>
    simp only [get?, hl, Option.isSome_some, iff_true, keys]
    refine Decidable.byContradiction fun hk => ?_
    simp [h.2 hk] at hl

/-- No key occurs twice. -/
theorem keys_nodup (s : SortedMap κ ν) : s.keys.Nodup :=
  s.sorted.imp Precedes.ne

/-! ## Inserting -/

/-- Puts an entry in its place, replacing the one with the same key. -/
def insertEntry [DecidableEq κ] (k : κ) (v : ν) : List (κ × ν) → List (κ × ν)
  | [] => [(k, v)]
  | (k', v') :: es =>
    if k = k' then (k, v) :: es
    else if Precedes k k' then (k, v) :: (k', v') :: es
    else (k', v') :: insertEntry k v es

theorem mem_keys_insertEntry [DecidableEq κ] {k k' : κ} {v : ν} {es : List (κ × ν)} :
    k' ∈ (insertEntry k v es).map Prod.fst ↔ k' = k ∨ k' ∈ es.map Prod.fst := by
  induction es with
  | nil => simp [insertEntry]
  | cons e es ih =>
    obtain ⟨k₀, v₀⟩ := e
    unfold insertEntry
    split
    · next h => subst h; simp
    · split
      · simp
      · rw [List.map_cons, List.mem_cons, List.map_cons, List.mem_cons, ih]
        exact or_left_comm

theorem insertEntry_sorted [DecidableEq κ] (k : κ) (v : ν) {es : List (κ × ν)}
    (h : (es.map Prod.fst).Pairwise Precedes) :
    ((insertEntry k v es).map Prod.fst).Pairwise Precedes := by
  induction es with
  | nil => simp [insertEntry]
  | cons e es ih =>
    obtain ⟨k', v'⟩ := e
    rw [List.map_cons, List.pairwise_cons] at h
    unfold insertEntry
    split
    · next hk =>
      subst hk
      rw [List.map_cons, List.pairwise_cons]
      exact h
    · next hk =>
      split
      · next hlt =>
        rw [List.map_cons, List.pairwise_cons]
        refine ⟨?_, by rw [List.map_cons, List.pairwise_cons]; exact h⟩
        intro a ha
        rw [List.map_cons, List.mem_cons] at ha
        rcases ha with rfl | ha
        · exact hlt
        · exact hlt.trans (h.1 a ha)
      · next hlt =>
        rw [List.map_cons, List.pairwise_cons]
        refine ⟨?_, ih h.2⟩
        intro a ha
        rcases mem_keys_insertEntry.1 ha with rfl | ha
        · exact Precedes.of_not hk hlt
        · exact h.1 a ha

/-- The map with the value under the key, whatever was there. -/
def insert [DecidableEq κ] (s : SortedMap κ ν) (k : κ) (v : ν) : SortedMap κ ν where
  entries := insertEntry k v s.entries
  sorted := insertEntry_sorted k v s.sorted

theorem lookup_insertEntry [DecidableEq κ] (k k' : κ) (v : ν) (es : List (κ × ν)) :
    lookup k' (insertEntry k v es) = if k' = k then some v else lookup k' es := by
  induction es with
  | nil => simp [insertEntry, lookup]
  | cons e es ih =>
    obtain ⟨k₀, v₀⟩ := e
    unfold insertEntry
    split
    · next h =>
      subst h
      by_cases h' : k' = k <;> simp [lookup, h']
    · next h =>
      split
      · by_cases h' : k' = k <;> simp [lookup, h']
      · by_cases h' : k' = k₀
        · subst h'
          simp [lookup, Ne.symm h]
        · simp [lookup, h', ih]

/-- A look-up after an insertion. -/
theorem get?_insert [DecidableEq κ] (s : SortedMap κ ν) (k k' : κ) (v : ν) :
    (s.insert k v).get? k' = if k' = k then some v else s.get? k' :=
  lookup_insertEntry k k' v s.entries

/-- The entries put in one after the other; of equal keys the last one stays. -/
def ofList [DecidableEq κ] (es : List (κ × ν)) : SortedMap κ ν :=
  es.foldl (fun s e => s.insert e.1 e.2) empty

/-! ## Erasing, filtering and mapping -/

theorem filter_sorted (p : κ × ν → Bool) {es : List (κ × ν)}
    (h : (es.map Prod.fst).Pairwise Precedes) :
    ((es.filter p).map Prod.fst).Pairwise Precedes :=
  h.sublist (List.filter_sublist.map _)

/-- The entries that satisfy `p`. -/
def filter (s : SortedMap κ ν) (p : κ → ν → Bool) : SortedMap κ ν where
  entries := s.entries.filter fun e => p e.1 e.2
  sorted := filter_sorted _ s.sorted

omit [Ranked κ] in
theorem lookup_filter [DecidableEq κ] (p : κ → ν → Bool) (k : κ) {es : List (κ × ν)}
    (h : (es.map Prod.fst).Nodup) :
    lookup k (es.filter fun e => p e.1 e.2) = (lookup k es).filter (p k) := by
  induction es with
  | nil => rfl
  | cons e es ih =>
    obtain ⟨k', v⟩ := e
    rw [List.map_cons, List.nodup_cons] at h
    have ih := ih h.2
    by_cases hk : k = k'
    · subst hk
      have hnone : lookup k es = none := lookup_eq_none_iff.2 h.1
      rw [hnone] at ih
      cases hv : p k v <;> simp_all [lookup, Option.filter]
    · cases hv : p k' v <;> simp_all [lookup]

/-- A look-up among the entries that satisfy `p`. -/
theorem get?_filter [DecidableEq κ] (s : SortedMap κ ν) (p : κ → ν → Bool) (k : κ) :
    (s.filter p).get? k = (s.get? k).filter (p k) :=
  lookup_filter p k s.keys_nodup

/-- The map without the key. -/
def erase [DecidableEq κ] (s : SortedMap κ ν) (k : κ) : SortedMap κ ν :=
  s.filter fun k' _ => k' ≠ k

/-- A look-up after an erasure. -/
theorem get?_erase [DecidableEq κ] (s : SortedMap κ ν) (k k' : κ) :
    (s.erase k).get? k' = if k' = k then none else s.get? k' := by
  have : ∀ es : List (κ × ν),
      lookup k' (es.filter fun e => decide (e.1 ≠ k)) = if k' = k then none else lookup k' es := by
    intro es
    induction es with
    | nil => simp [lookup]
    | cons e es ih =>
      obtain ⟨k₀, v₀⟩ := e
      by_cases h₀ : k₀ = k
      · subst h₀
        by_cases h' : k' = k₀
        · simpa [lookup, h'] using ih
        · simpa [lookup, h'] using ih
      · by_cases h' : k' = k₀
        · subst h'
          simp [lookup, h₀]
        · simp only [List.filter_cons, lookup, h', if_false]
          simp only [h₀, ne_eq, not_false_eq_true, decide_true, if_true, lookup, h', if_false]
          exact ih
  exact this s.entries

/-- The same keys with other values. -/
def map {μ : Type} (s : SortedMap κ ν) (f : κ → ν → μ) : SortedMap κ μ where
  entries := s.entries.map fun e => (e.1, f e.1 e.2)
  sorted := by
    have : (s.entries.map fun e => (e.1, f e.1 e.2)).map Prod.fst = s.entries.map Prod.fst := by
      simp
    rw [this]
    exact s.sorted

/-- Visits the entries in order and replaces each value by the answer. -/
def traverseEntries {m : Type → Type} [Monad m] {μ : Type} (f : κ → ν → m μ) :
    (es : List (κ × ν)) → m { es' : List (κ × μ) // es'.map Prod.fst = es.map Prod.fst }
  | [] => pure ⟨[], rfl⟩
  | (k, v) :: es => do
    let v' ← f k v
    let rest ← traverseEntries f es
    pure ⟨(k, v') :: rest.val, by simp [rest.property]⟩

/-- Visits the entries in the order of the keys and replaces each value by the answer. -/
def traverse {m : Type → Type} [Monad m] {μ : Type} (s : SortedMap κ ν) (f : κ → ν → m μ) :
    m (SortedMap κ μ) := do
  let es ← traverseEntries f s.entries
  pure ⟨es.val, by rw [es.property]; exact s.sorted⟩

end SortedMap

end PipelineStacks
