import PipelineStacks.Text.Blank

/-!
# Lists of characters

Splitting, joining, affixes and replacement on `List Char`, the form in which texts are taken
apart.  Each operation is pinned down by a short lemma: splitting loses nothing but the
separators, a stripped prefix was there, replacing an absent pattern changes nothing.
-/

namespace PipelineStacks.Text

/-! ## Affixes -/

/-- The rest of `cs` after the prefix `p`, if `cs` starts with it. -/
def dropPrefix? : List Char → List Char → Option (List Char)
  | [], cs => some cs
  | _ :: _, [] => none
  | p :: ps, c :: cs => if p = c then dropPrefix? ps cs else none

theorem dropPrefix?_eq_some_iff {p cs rest : List Char} :
    dropPrefix? p cs = some rest ↔ cs = p ++ rest := by
  induction p generalizing cs with
  | nil => simp [dropPrefix?, eq_comm]
  | cons a p ih =>
    cases cs with
    | nil => simp [dropPrefix?]
    | cons c cs =>
      by_cases h : a = c
      · subst h; simp [dropPrefix?, ih]
      · simp [dropPrefix?, h]
        intro h'; exact absurd h'.symm h

/-- `cs` starts with `p`. -/
def startsWith (p cs : List Char) : Bool :=
  (dropPrefix? p cs).isSome

/-- `cs` ends with `p`. -/
def endsWith (p cs : List Char) : Bool :=
  startsWith p.reverse cs.reverse

/-- Drops the prefix `p` as often as it is there; an empty `p` drops nothing. -/
def dropPrefixes (p : List Char) (cs : List Char) : List Char :=
  match h : dropPrefix? p cs with
  | none => cs
  | some rest =>
    if hp : p = [] then cs
    else
      have : rest.length < cs.length := by
        rw [dropPrefix?_eq_some_iff] at h
        have : 0 < p.length := List.length_pos_iff.mpr hp
        rw [h, List.length_append]
        omega
      dropPrefixes p rest
termination_by cs.length

/-- `p` occurs somewhere in `cs`. -/
def occursIn (p : List Char) : List Char → Bool
  | [] => p.isEmpty
  | c :: cs => startsWith p (c :: cs) || occursIn p cs

/-! ## Splitting and joining -/

/-- The parts of `cs` between the characters of the class `sep`; there is always a first part. -/
def splitWhere (sep : Char → Bool) : List Char → List (List Char)
  | [] => [[]]
  | c :: cs =>
    if sep c then [] :: splitWhere sep cs
    else
      match splitWhere sep cs with
      | [] => [[c]]
      | part :: parts => (c :: part) :: parts

/-- Splitting always yields a first part. -/
theorem splitWhere_ne_nil (sep : Char → Bool) (cs : List Char) : splitWhere sep cs ≠ [] := by
  cases cs with
  | nil => simp [splitWhere]
  | cons c cs =>
    unfold splitWhere
    split
    · simp
    · split <;> simp

/-- The two sides of the first `c`, if there is one. -/
def splitOnce? (c : Char) : List Char → Option (List Char × List Char)
  | [] => none
  | d :: cs =>
    if d = c then some ([], cs)
    else (splitOnce? c cs).map fun (before, after) => (d :: before, after)

/-- The two sides of the last `c`, if there is one. -/
def splitLast? (c : Char) (cs : List Char) : Option (List Char × List Char) :=
  (splitOnce? c cs.reverse).map fun (after, before) => (before.reverse, after.reverse)

/-- The parts joined by a separator. -/
def joinWith (sep : List Char) : List (List Char) → List Char
  | [] => []
  | [part] => part
  | part :: parts => part ++ sep ++ joinWith sep parts

/-- Splitting and joining with the same single separator is the identity. -/
theorem joinWith_splitWhere (c : Char) (cs : List Char) :
    joinWith [c] (splitWhere (· == c) cs) = cs := by
  induction cs with
  | nil => rfl
  | cons d cs ih =>
    unfold splitWhere
    by_cases h : d = c
    · subst h
      simp only [beq_self_eq_true, if_true]
      cases hs : splitWhere (· == d) cs with
      | nil => exact absurd hs (splitWhere_ne_nil _ _)
      | cons part parts =>
        rw [hs] at ih
        simp [joinWith, ih]
    · simp only [beq_iff_eq, h, if_false]
      cases hs : splitWhere (· == c) cs with
      | nil => exact absurd hs (splitWhere_ne_nil _ _)
      | cons part parts =>
        rw [hs] at ih
        cases parts <;> simp_all [joinWith]

/-- The two sides of a split make up the text. -/
theorem eq_of_splitOnce? {c : Char} {cs before after : List Char}
    (h : splitOnce? c cs = some (before, after)) : cs = before ++ c :: after := by
  induction cs generalizing before with
  | nil => simp [splitOnce?] at h
  | cons d cs ih =>
    unfold splitOnce? at h
    by_cases hd : d = c
    · simp [hd] at h
      obtain ⟨rfl, rfl⟩ := h
      simp [hd]
    · simp only [hd, if_false, Option.map_eq_some_iff, Prod.mk.injEq] at h
      obtain ⟨⟨b, a⟩, hb, rfl, rfl⟩ := h
      simp [ih hb]

/-! ## Replacement -/

/-- Replaces the occurrences of `pattern`, from the left and without overlap.  An empty pattern
replaces nothing. -/
def replaceAll (pattern value : List Char) (cs : List Char) : List Char :=
  match pattern with
  | [] => cs
  | p :: ps => go (p :: ps) value cs cs.length
where
  /-- Works through at most `fuel` characters of the text. -/
  go (pattern value : List Char) : List Char → Nat → List Char
    | cs, 0 => cs
    | [], _ + 1 => []
    | c :: cs, fuel + 1 =>
      match dropPrefix? pattern (c :: cs) with
      | some rest => value ++ go pattern value rest fuel
      | none => c :: go pattern value cs fuel

/-- Replacing a pattern that does not occur changes nothing. -/
theorem replaceAll_of_not_occursIn {pattern value cs : List Char}
    (h : occursIn pattern cs = false) : replaceAll pattern value cs = cs := by
  cases pattern with
  | nil => rfl
  | cons p ps =>
    suffices ∀ (fuel : Nat) (cs : List Char), occursIn (p :: ps) cs = false →
        replaceAll.go (p :: ps) value cs fuel = cs from this cs.length cs h
    intro fuel
    induction fuel with
    | zero => intro cs _; simp [replaceAll.go]
    | succ fuel ih =>
      intro cs hcs
      cases cs with
      | nil => simp [replaceAll.go]
      | cons c cs =>
        simp only [occursIn, startsWith, Bool.or_eq_false_iff, Option.isSome_eq_false_iff,
          Option.isNone_iff_eq_none] at hcs
        simp [replaceAll.go, hcs.1, ih cs hcs.2]

/-! ## Letters -/

/-- The text with the capital letters of ASCII made small. -/
def lowerAscii (cs : List Char) : List Char :=
  cs.map Char.toLower

/-- Two strings that differ at most in the case of ASCII letters. -/
def eqIgnoringCase (s t : String) : Bool :=
  lowerAscii s.toList == lowerAscii t.toList

end PipelineStacks.Text
