import Mathlib.Data.List.DropRight
import PipelineStacks.Logging.TraceSpec
import PipelineStacks.Proofs.DirectiveGrammar
import PipelineStacks.Proofs.Owners

/-!
# Trace specifications, part by part

A trace specification is translated part by part.  `TraceSpec.Translates` says which directive a
part asks for; parts that ask for none leave no trace.  So the filter of two specifications with a
separator between them is that of the one followed by that of the other
(`directives_append`).

What comes out is in normal form (`TraceSpec.Normal`): directives between commas, each of them a
level, or the name of a target with a level.  A directive of this form is a part that asks for
itself (`translates_self`), hence the texts in normal form are those that are translated to
themselves, and to translate twice is to translate once (`toFilter_part_by_part`).
-/

namespace PipelineStacks

namespace Text

variable {p : Char → Bool} {c : Char}

/-! ## Trimming around a character -/

/-- Nothing behind a character that is kept is dropped at the start. -/
lemma dropWhile_append_cons (hc : p c = false) (before after : List Char) :
    (before ++ c :: after).dropWhile p = before.dropWhile p ++ c :: after := by
  rw [List.dropWhile_append, List.dropWhile_cons_of_neg (Bool.not_eq_true _ ▸ hc)]
  split
  · next hnil => rw [List.isEmpty_iff.mp hnil, List.nil_append]
  · rfl

/-- Nothing in front of a character that is kept is dropped at the end. -/
lemma dropEndWhile_append_cons (hc : p c = false) (before after : List Char) :
    dropEndWhile p (before ++ c :: after) = before ++ c :: dropEndWhile p after := by
  have hreverse : (before ++ c :: after).reverse = after.reverse ++ c :: before.reverse := by simp
  rw [dropEndWhile, hreverse, dropWhile_append_cons hc, dropEndWhile]
  simp

/-- It makes no difference which end is trimmed first. -/
lemma dropWhile_dropEndWhile (p : Char → Bool) (cs : List Char) :
    (dropEndWhile p cs).dropWhile p = dropEndWhile p (cs.dropWhile p) := by
  by_cases hall : ∀ c ∈ cs, p c = true
  · have hstart : cs.dropWhile p = [] := List.dropWhile_eq_nil_iff.mpr hall
    have hend : dropEndWhile p cs = [] := by
      rw [dropEndWhile, List.dropWhile_eq_nil_iff.mpr (by simpa using hall), List.reverse_nil]
    rw [hstart, hend]
    rfl
  · -- around a character that is kept the ends have nothing to do with one another
    obtain ⟨c, hmem, hc⟩ : ∃ c ∈ cs, p c = false := by simpa using hall
    obtain ⟨before, after, rfl⟩ := List.append_of_mem hmem
    rw [dropEndWhile_append_cons hc, dropWhile_append_cons hc, dropWhile_append_cons hc,
      dropEndWhile_append_cons hc]

/-- A text around a character that is kept is trimmed on the outer sides of its halves. -/
lemma trim_append_cons (hc : isBlank c = false) (before after : List Char) :
    trim (before ++ c :: after) = trimStart before ++ c :: dropEndWhile isBlank after := by
  rw [trim, trimWhile, dropWhile_append_cons hc, dropEndWhile_append_cons hc]
  rfl

lemma trim_trimStart (cs : List Char) : trim (trimStart cs) = trim cs := by
  rw [trim, trimWhile, trimStart, List.dropWhile_idempotent]
  rfl

lemma trim_dropEndWhile (cs : List Char) : trim (dropEndWhile isBlank cs) = trim cs := by
  rw [trim, trimWhile, dropWhile_dropEndWhile, dropEndWhile, dropEndWhile, List.reverse_reverse,
    List.dropWhile_idempotent]
  rfl

/-- A renaming of characters that keeps apart the blanks commutes with trimming. -/
lemma trim_map {f : Char → Char} (hf : ∀ c, isBlank (f c) = isBlank c) (cs : List Char) :
    trim (cs.map f) = (trim cs).map f := by
  have hcomp : isBlank ∘ f = isBlank := funext hf
  rw [trim, trimWhile, dropEndWhile, List.dropWhile_map, ← List.map_reverse, List.dropWhile_map,
    ← List.map_reverse, hcomp]
  rfl

/-! ## Splitting and joining -/

/-- A text without the character, and no other, is not cut at it. -/
lemma splitOnce?_eq_none_iff {cs : List Char} : splitOnce? c cs = none ↔ c ∉ cs := by
  constructor
  · intro h hmem
    obtain ⟨before, after, rfl, hbefore⟩ := List.eq_append_cons_of_mem hmem
    rw [splitOnce?_append hbefore] at h
    cases h
  · intro h
    rw [Option.eq_none_iff_forall_ne_some]
    rintro ⟨before, after⟩ hsplit
    obtain ⟨rfl, -⟩ := splitOnce?_eq_some_iff.mp hsplit
    simp at h

/-- The parts of a text are those on either side of a separator. -/
lemma splitWhere_append {sep : Char → Bool} (hc : sep c = true) (cs rest : List Char) :
    splitWhere sep (cs ++ c :: rest) = splitWhere sep cs ++ splitWhere sep rest := by
  induction cs with
  | nil => exact splitWhere_append_cons (by simp) hc
  | cons d cs ih =>
    rw [List.cons_append, splitWhere, splitWhere, ih]
    by_cases hd : sep d
    · rw [if_pos hd, if_pos hd, List.cons_append]
    · rw [if_neg hd, if_neg hd]
      cases hparts : splitWhere sep cs with
      | nil => exact absurd hparts (splitWhere_ne_nil sep cs)
      | cons part parts => rfl

lemma joinWith_eq_intercalate (sep : List Char) (parts : List (List Char)) :
    joinWith sep parts = sep.intercalate parts := by
  induction parts with
  | nil => rfl
  | cons part parts ih =>
    cases parts with
    | nil => exact List.intercalate_singleton.symm
    | cons next parts =>
      rw [List.intercalate_cons_cons, ← ih]
      rfl

lemma intercalate_append {sep : List Char} {xs ys : List (List Char)} (hxs : xs ≠ [])
    (hys : ys ≠ []) :
    sep.intercalate (xs ++ ys) = sep.intercalate xs ++ sep ++ sep.intercalate ys := by
  induction xs with
  | nil => exact absurd rfl hxs
  | cons x xs ih =>
    cases xs with
    | nil => rw [List.singleton_append, List.intercalate_cons_of_ne_nil hys,
        List.intercalate_singleton]
    | cons next xs =>
      rw [List.cons_append, List.intercalate_cons_of_ne_nil (by simp),
        ih (List.cons_ne_nil _ _), List.intercalate_cons_cons]
      simp only [List.append_assoc]

/-- Parts that are not empty leave a join that is not empty. -/
lemma intercalate_eq_nil_iff {sep : List Char} {parts : List (List Char)}
    (h : ∀ part ∈ parts, part ≠ []) : sep.intercalate parts = [] ↔ parts = [] := by
  cases parts with
  | nil => simp
  | cons part parts =>
    have hpart : part ≠ [] := h part List.mem_cons_self
    cases parts with
    | nil => simp [hpart]
    | cons next parts => simp [List.intercalate_cons_cons, hpart]

/-- The parts of two lists are joined by joining the joins of both, where there are any. -/
lemma intercalate_append_eq_filter {sep : List Char} {xs ys : List (List Char)}
    (hxs : ∀ x ∈ xs, x ≠ []) (hys : ∀ y ∈ ys, y ≠ []) :
    sep.intercalate (xs ++ ys) =
      sep.intercalate ([sep.intercalate xs, sep.intercalate ys].filter (· ≠ [])) := by
  by_cases hx : xs = []
  · subst hx
    by_cases hy : sep.intercalate ys = [] <;> simp [hy]
  · have hxjoin : sep.intercalate xs ≠ [] := mt (intercalate_eq_nil_iff hxs).mp hx
    by_cases hy : ys = []
    · subst hy
      simp [hxjoin]
    · have hyjoin : sep.intercalate ys ≠ [] := mt (intercalate_eq_nil_iff hys).mp hy
      simp [hxjoin, hyjoin, intercalate_append hx hy, List.intercalate_cons_cons]

end Text

namespace TraceSpec

open Text

/-! ## What a part asks for -/

/-- Parts stand between colons or commas. -/
def isSeparator (c : Char) : Bool :=
  c == ':' || c == ','

/-- Nothing that would end a part. -/
def IsPart (part : List Char) : Prop :=
  ∀ c ∈ part, isSeparator c = false

instance (part : List Char) : Decidable (IsPart part) :=
  decidable_of_iff (part.all (!isSeparator ·) = true) (by simp [IsPart])

/-- No component in particular. -/
def Unnamed (component : List Char) : Prop :=
  trim component = [] ∨ trim component = ['*']

instance (component : List Char) : Decidable (Unnamed component) :=
  inferInstanceAs (Decidable (_ ∨ _))

/-- The directive that a part of a specification asks for. -/
inductive Translates : List Char → List Char → Prop
  /-- A level by itself is that of everything else. -/
  | bare {word : List Char} {l : String} : '=' ∉ word → level? (trim word) = some l →
      Translates word l.toList
  /-- So is the level of a star, or of nothing. -/
  | unnamed {component word : List Char} {l : String} : '=' ∉ component → Unnamed component →
      level? (trim word) = some l → Translates (component ++ '=' :: word) l.toList
  /-- The level of a component is that of the target of its name. -/
  | target {component word : List Char} {l : String} : '=' ∉ component → ¬ Unnamed component →
      level? (trim word) = some l → Translates (component ++ '=' :: word)
        ((trim component).map targetChar ++ '=' :: l.toList)

/-- A part without a component is a level. -/
lemma directive?_trim_of_not_mem {word : List Char} (h : '=' ∉ word) :
    directive? (trim word) = (level? (trim word)).map String.toList := by
  have hsplit : splitOnce? '=' (trim word) = none :=
    splitOnce?_eq_none_iff.mpr fun hmem => h ((trim_sublist word).subset hmem)
  simp [directive?, hsplit]

/-- A part with a component is trimmed around it and around its level. -/
lemma directive?_trim_append {component : List Char} (h : '=' ∉ component) (word : List Char) :
    directive? (trim (component ++ '=' :: word)) = (level? (trim word)).map fun l =>
      if Unnamed component then l.toList
      else (trim component).map targetChar ++ '=' :: l.toList := by
  have hstart : '=' ∉ trimStart component :=
    fun hmem => h ((List.dropWhile_sublist _).subset hmem)
  rw [trim_append_cons (by decide), directive?, splitOnce?_append hstart]
  simp only [trim_trimStart, trim_dropEndWhile]
  rfl

/-- A part is translated to what it asks for. -/
theorem directive?_trim_eq_some_iff {part d : List Char} :
    directive? (trim part) = some d ↔ Translates part d := by
  constructor
  · intro h
    cases hsplit : splitOnce? '=' part with
    | none =>
      have hnot : '=' ∉ part := splitOnce?_eq_none_iff.mp hsplit
      rw [directive?_trim_of_not_mem hnot, Option.map_eq_some_iff] at h
      obtain ⟨l, hl, rfl⟩ := h
      exact .bare hnot hl
    | some halves =>
      obtain ⟨component, word⟩ := halves
      obtain ⟨rfl, hnot⟩ := splitOnce?_eq_some_iff.mp hsplit
      rw [directive?_trim_append hnot, Option.map_eq_some_iff] at h
      obtain ⟨l, hl, rfl⟩ := h
      split
      · next hunnamed => exact .unnamed hnot hunnamed hl
      · next hnamed => exact .target hnot hnamed hl
  · intro h
    cases h with
    | bare hnot hl => rw [directive?_trim_of_not_mem hnot, hl]; rfl
    | unnamed hnot hunnamed hl =>
      rw [directive?_trim_append hnot, hl, Option.map_some, if_pos hunnamed]
    | target hnot hnamed hl =>
      rw [directive?_trim_append hnot, hl, Option.map_some, if_neg hnamed]

/-! ## The parts of a specification -/

/-- Blank parts need not be left out, as they ask for nothing. -/
lemma directives_eq_filterMap (spec : List Char) :
    directives spec = (splitWhere isSeparator spec).filterMap (directive? ∘ trim) := by
  have hskip : ∀ part : List Char,
      (if (!part.isEmpty) = true then directive? part else none) = directive? part := by
    rintro (- | ⟨c, part⟩) <;> rfl
  rw [directives, List.filterMap_filter, List.filterMap_map]
  refine List.filterMap_congr fun part _ => ?_
  exact hskip (trim part)

lemma mem_directives_iff {spec d : List Char} :
    d ∈ directives spec ↔ ∃ part ∈ splitWhere isSeparator spec, Translates part d := by
  simp only [directives_eq_filterMap, List.mem_filterMap, Function.comp_apply,
    directive?_trim_eq_some_iff]

/-- The directives of two specifications stand one behind the other. -/
lemma directives_append {c : Char} (hc : isSeparator c = true) (s t : List Char) :
    directives (s ++ c :: t) = directives s ++ directives t := by
  simp only [directives_eq_filterMap, splitWhere_append hc, List.filterMap_append]

/-! ## The normal form -/

/-- The levels of a filter. -/
def levels : List String :=
  ["off", "error", "warn", "info", "debug", "trace"]

/-- The name of a target: there is one, it has no blanks at its ends, and it has none of the
characters that are renamed or that end a name. -/
structure IsTarget (name : List Char) : Prop where
  named : ¬ Unnamed name
  trimmed : trim name = name
  plain : ∀ c ∈ name, c ∉ [':', ',', '=', '.', '-']

/-- A directive of a filter: a level, or the level of a target. -/
inductive IsDirective : List Char → Prop
  | level {l : String} : l ∈ levels → IsDirective l.toList
  | target {name : List Char} {l : String} : IsTarget name → l ∈ levels →
      IsDirective (name ++ '=' :: l.toList)

/-- Directives between commas. -/
def Normal (filter : String) : Prop :=
  ∃ ds : List String, (∀ d ∈ ds, IsDirective d.toList) ∧ filter = ",".intercalate ds

/-- A word has one of the levels, if it has any. -/
lemma mem_levels_of_level? {word : List Char} {l : String} (h : level? word = some l) :
    l ∈ levels := by
  simp only [level?] at h
  split_ifs at h <;> cases h <;> decide

/-- A level is a word without blanks and signs, and it means itself. -/
lemma level_self : ∀ l ∈ levels, l ≠ "" ∧ trim l.toList = l.toList ∧ level? l.toList = some l ∧
    IsPart l.toList ∧ '=' ∉ l.toList := by
  decide +kernel

lemma isBlank_targetChar (c : Char) : isBlank (targetChar c) = isBlank c := by
  unfold targetChar
  split
  · next h => rcases h with rfl | rfl <;> decide
  · rfl

/-- Names are not changed into signs. -/
lemma targetChar_not_mem {c : Char} (h : c ∉ [':', ',', '=']) :
    targetChar c ∉ [':', ',', '=', '.', '-'] := by
  unfold targetChar
  split
  · decide
  · next hc =>
    simp only [List.mem_cons, not_or] at h hc ⊢
    exact ⟨h.1, h.2.1, h.2.2.1, hc.1, hc.2, List.not_mem_nil⟩

lemma targetChar_eq_star_iff {c : Char} : targetChar c = '*' ↔ c = '*' := by
  unfold targetChar
  split
  · next h => rcases h with rfl | rfl <;> decide
  · rfl

/-- What a component is renamed to is the name of a target. -/
lemma isTarget_map_targetChar {component : List Char} (hnamed : ¬ Unnamed component)
    (hequals : '=' ∉ component) (hpart : IsPart component) :
    IsTarget ((trim component).map targetChar) := by
  have htrim : trim ((trim component).map targetChar) = (trim component).map targetChar := by
    rw [trim_map isBlank_targetChar, trim_trim]
  refine ⟨?_, htrim, ?_⟩
  · rw [Unnamed, htrim]
    rintro (hnil | hstar)
    · exact hnamed (.inl (List.map_eq_nil_iff.mp hnil))
    · obtain ⟨c, hc, hstar⟩ := List.map_eq_singleton_iff.mp hstar
      rw [targetChar_eq_star_iff.mp hstar] at hc
      exact hnamed (.inr hc)
  · intro c hc
    obtain ⟨d, hd, rfl⟩ := List.mem_map.mp hc
    have hmem : d ∈ component := (trim_sublist component).subset hd
    have hsep : isSeparator d = false := hpart d hmem
    have hne : d ≠ '=' := fun h => hequals (h ▸ hmem)
    exact targetChar_not_mem (by simpa [isSeparator, hne] using hsep)

/-- Every part asks for a directive in normal form. -/
lemma isDirective_of_translates {part d : List Char} (h : Translates part d)
    (hpart : IsPart part) : IsDirective d := by
  cases h with
  | bare _ hl | unnamed _ _ hl => exact .level (mem_levels_of_level? hl)
  | target hequals hnamed hl =>
    refine .target (isTarget_map_targetChar hnamed hequals fun c hc => ?_) (mem_levels_of_level? hl)
    exact hpart c (List.mem_append_left _ hc)

/-- A directive is a part that asks for itself. -/
lemma translates_self {d : List Char} (h : IsDirective d) : Translates d d := by
  cases h with
  | level hl =>
    obtain ⟨-, htrim, hself, -, hequals⟩ := level_self _ hl
    exact .bare hequals (by rw [htrim, hself])
  | @target name l hname hl =>
    obtain ⟨-, htrim, hself, -⟩ := level_self _ hl
    have hequals : '=' ∉ name := fun h => hname.plain _ h (by simp)
    have hsame : ∀ c ∈ name, targetChar c = c := fun c hc => by
      have hplain := hname.plain c hc
      simp only [List.mem_cons, not_or] at hplain
      simp [targetChar, hplain]
    have hkeep : name.map targetChar = name := by
      rw [List.map_congr_left hsame, List.map_id']
    have htarget := Translates.target hequals hname.named (by rw [htrim, hself])
    rwa [hname.trimmed, hkeep] at htarget

/-- There is no empty directive. -/
lemma IsDirective.ne_nil {d : List Char} (h : IsDirective d) : d ≠ [] := by
  cases h with
  | level hl =>
    obtain ⟨hne, -⟩ := level_self _ hl
    simpa using hne
  | target _ _ => simp

/-- A directive is a single part. -/
lemma IsDirective.isPart {d : List Char} (h : IsDirective d) : IsPart d := by
  cases h with
  | level hl =>
    obtain ⟨-, -, -, hpart, -⟩ := level_self _ hl
    exact hpart
  | @target name l hname hl =>
    obtain ⟨-, -, -, hpart, -⟩ := level_self l hl
    intro c hc
    rcases List.mem_append.mp hc with hc | hc
    · have hplain := hname.plain c hc
      simp only [List.mem_cons, not_or] at hplain
      simp [isSeparator, hplain]
    · rcases List.mem_cons.mp hc with rfl | hc
      · decide
      · exact hpart c hc

lemma isDirective_of_mem_directives {spec d : List Char} (h : d ∈ directives spec) :
    IsDirective d := by
  obtain ⟨part, hpart, htranslates⟩ := mem_directives_iff.mp h
  exact isDirective_of_translates htranslates (not_sep_of_mem_splitWhere hpart)

/-- Directives that are joined are found again, and kept. -/
lemma directives_intercalate {ds : List (List Char)} (h : ∀ d ∈ ds, IsDirective d) :
    directives ([','].intercalate ds) = ds := by
  by_cases hne : ds = []
  · subst hne
    rfl
  · have hkeep : ∀ d ∈ ds, (directive? ∘ trim) d = some d :=
      fun d hd => directive?_trim_eq_some_iff.mpr (translates_self (h d hd))
    rw [directives_eq_filterMap,
      splitWhere_intercalate (by decide) hne fun d hd => (h d hd).isPart,
      List.filterMap_congr hkeep, List.filterMap_some]

/-! ## The filter -/

lemma toList_toFilter (s : String) :
    (toFilter s).toList = [','].intercalate (directives s.toList) := by
  rw [toFilter, String.toList_ofList, joinWith_eq_intercalate]

/-- The filter of any specification is in normal form. -/
lemma normal_toFilter (s : String) : Normal (toFilter s) := by
  refine ⟨(directives s.toList).map String.ofList, ?_, ?_⟩
  · intro d hd
    obtain ⟨cs, hcs, rfl⟩ := List.mem_map.mp hd
    rw [String.toList_ofList]
    exact isDirective_of_mem_directives hcs
  · refine String.toList_injective ?_
    have hmap : ((directives s.toList).map String.ofList).map String.toList =
        directives s.toList := by
      simp [Function.comp_def]
    rw [toList_toFilter, String.toList_intercalate, hmap]
    rfl

/-- The specifications that are filters already are those in normal form. -/
lemma toFilter_eq_self_iff {s : String} : toFilter s = s ↔ Normal s := by
  refine ⟨fun h => h ▸ normal_toFilter s, ?_⟩
  rintro ⟨ds, hds, rfl⟩
  refine String.toList_injective ?_
  have hds' : ∀ d ∈ ds.map String.toList, IsDirective d := by simpa using hds
  rw [toList_toFilter, String.toList_intercalate]
  exact congrArg _ (directives_intercalate hds')

/-- What stands on either side of a separator is translated by itself. -/
lemma toFilter_append {sep : String} (hsep : sep ∈ [":", ","]) (s t : String) :
    toFilter (s ++ sep ++ t) =
      ",".intercalate ([toFilter s, toFilter t].filter (· ≠ "")) := by
  obtain ⟨c, hc, hsplit⟩ : ∃ c, isSeparator c = true ∧
      (s ++ sep ++ t).toList = s.toList ++ c :: t.toList := by
    rcases List.mem_pair.mp hsep with rfl | rfl
    · exact ⟨':', by decide, by simp⟩
    · exact ⟨',', by decide, by simp⟩
  have hne : ∀ spec, ∀ d ∈ directives spec, d ≠ [] :=
    fun spec d hd => (isDirective_of_mem_directives hd).ne_nil
  have hfilter : [(toFilter s).toList, (toFilter t).toList].filter (· ≠ []) =
      ([toFilter s, toFilter t].filter (· ≠ "")).map String.toList := by
    have hempty : ∀ u : String, u.toList = [] ↔ u = "" := fun u => String.toList_eq_nil_iff
    by_cases hs : toFilter s = "" <;> by_cases ht : toFilter t = "" <;> simp [hempty, hs, ht]
  refine String.toList_injective ?_
  rw [toList_toFilter, hsplit, directives_append hc, intercalate_append_eq_filter (hne _) (hne _),
    ← toList_toFilter, ← toList_toFilter, hfilter, String.toList_intercalate]
  rfl

/-- The filter of a single part is the directive that it asks for, if there is one. -/
lemma toFilter_part {part : String} (hpart : IsPart part.toList) {d : String} :
    toFilter part = d ∧ d ≠ "" ↔ Translates part.toList d.toList := by
  have hdirectives : directives part.toList = (directive? (trim part.toList)).toList := by
    rw [directives_eq_filterMap, splitWhere_eq_singleton hpart]
    cases h : directive? (trim part.toList) <;> simp [h]
  have hjoin := toList_toFilter part
  rw [← directive?_trim_eq_some_iff]
  cases h : directive? (trim part.toList) with
  | none =>
    rw [hdirectives, h] at hjoin
    have hempty : toFilter part = "" := String.toList_injective hjoin
    simp [hempty, eq_comm]
  | some cs =>
    rw [hdirectives, h, Option.toList_some, List.intercalate_singleton] at hjoin
    have hne : cs ≠ [] :=
      (isDirective_of_translates (directive?_trim_eq_some_iff.mp h) hpart).ne_nil
    rw [← String.toList_inj, hjoin, Option.some.injEq, and_iff_left_iff_imp]
    rintro rfl rfl
    exact hne rfl

/-- A part that asks for nothing may be left out. -/
lemma toFilter_without {part sep sep' : String} (hsep : sep ∈ [":", ","])
    (hsep' : sep' ∈ [":", ","]) (hpart : toFilter part = "") (s t : String) :
    toFilter (s ++ sep ++ part ++ sep' ++ t) = toFilter (s ++ sep ++ t) := by
  have hfront : toFilter (s ++ sep ++ part) = toFilter s := by
    rw [toFilter_append hsep, hpart]
    by_cases hs : toFilter s = "" <;> simp [hs]
  rw [toFilter_append hsep', hfront, toFilter_append hsep]

/-- A specification is translated part by part, into a normal form.  The texts in normal form are
those that are translated to themselves, so that to translate twice is to translate once.  Two
specifications with a separator between them have the filter of the one followed by the filter of
the other, and a comma between them if neither is empty.  A single part has the filter that it
asks for; if it asks for none, the other parts are translated as if it were not there. -/
theorem toFilter_part_by_part :
    (∀ s, toFilter (toFilter s) = toFilter s) ∧
    (∀ s, toFilter s = s ↔ Normal s) ∧
    (∀ s t, ∀ sep ∈ [":", ","], toFilter (s ++ sep ++ t) =
      ",".intercalate ([toFilter s, toFilter t].filter (· ≠ ""))) ∧
    (∀ part : String, IsPart part.toList →
      (∀ d, toFilter part = d ∧ d ≠ "" ↔ Translates part.toList d.toList) ∧
      ((∀ d, ¬ Translates part.toList d) → ∀ s t, ∀ sep ∈ [":", ","], ∀ sep' ∈ [":", ","],
        toFilter (s ++ sep ++ part ++ sep' ++ t) = toFilter (s ++ sep ++ t))) := by
  refine ⟨fun s => toFilter_eq_self_iff.mpr (normal_toFilter s), fun s => toFilter_eq_self_iff,
    fun s t sep hsep => toFilter_append hsep s t, fun part hpart => ⟨fun d => ?_, ?_⟩⟩
  · exact toFilter_part hpart
  · intro hnone s t sep hsep sep' hsep'
    have hempty : toFilter part = "" := by
      by_contra hne
      exact hnone _ ((toFilter_part hpart).mp ⟨rfl, hne⟩)
    exact toFilter_without hsep hsep' hempty s t

/-- A part with an unknown level does not disturb the parts on either side of it. -/
theorem loud_part_is_left_out :
    IsPart "kube = loud".toList ∧ (∀ d, ¬ Translates "kube = loud".toList d) ∧
      toFilter (" Kube-API.server = FINEST " ++ "," ++ "kube = loud" ++ ":" ++ "*=warning") =
        "Kube_API_server=trace,warn" := by
  have hpart : IsPart "kube = loud".toList := by decide +kernel
  have hnone : ∀ d, ¬ Translates "kube = loud".toList d := by
    intro d hd
    have hno : directive? (trim "kube = loud".toList) = none := by decide +kernel
    rw [directive?_trim_eq_some_iff.mpr hd] at hno
    cases hno
  obtain ⟨-, -, -, hparts⟩ := toFilter_part_by_part
  refine ⟨hpart, hnone, ?_⟩
  rw [(hparts _ hpart).2 hnone _ _ "," (by simp) ":" (by simp)]
  decide +kernel

end TraceSpec

end PipelineStacks
