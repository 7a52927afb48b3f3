import Mathlib.Data.List.TakeWhile
import PipelineStacks.Pipeline.Template

/-!
# Lines and directives as a grammar

What the readers of a template accept, said without reading.  `Template.Cut` says how a text falls
into lines, `Template.Spells` writes out a directive as its words with blanks between them, and
`Template.Marked` says what a comment with the marker of directives is.  Each reader decides its
rule: `Template.lines_eq_iff`, `Template.directive?_eq_some_iff`,
`Template.looksLikeDirective_iff`.
-/

namespace PipelineStacks

namespace Text

/-! ## Blanks -/

/-- Nothing but blanks. -/
def Blank (cs : List Char) : Prop :=
  ∀ c ∈ cs, isBlank c = true

/-- At least one blank and nothing else. -/
def Gap (cs : List Char) : Prop :=
  cs ≠ [] ∧ Blank cs

/-- The text does not start with a blank. -/
def Flush (cs : List Char) : Prop :=
  ∀ c, cs.head? = some c → isBlank c = false

theorem flush_cons {c : Char} {cs : List Char} (h : isBlank c = false) : Flush (c :: cs) := by
  intro d hd
  cases hd
  exact h

theorem trimStart_append {gap rest : List Char} (hgap : Blank gap) (hrest : Flush rest) :
    trimStart (gap ++ rest) = rest := by
  unfold trimStart
  rw [List.dropWhile_append_of_pos hgap]
  exact dropWhile_eq_self_of_head hrest

/-- What is left behind the blanks at the start. -/
theorem trimStart_eq_iff {cs rest : List Char} :
    trimStart cs = rest ↔ ∃ gap, Blank gap ∧ Flush rest ∧ cs = gap ++ rest := by
  constructor
  · rintro rfl
    refine ⟨cs.takeWhile isBlank, ?_, ?_, List.takeWhile_append_dropWhile.symm⟩
    · intro c hc
      exact List.mem_takeWhile_imp hc
    · intro c hc
      exact head_dropWhile_not hc
  · rintro ⟨gap, hgap, hrest, rfl⟩
    exact trimStart_append hgap hrest

theorem trimStart_of_blank {cs : List Char} (h : Blank cs) : trimStart cs = [] :=
  List.dropWhile_eq_nil_iff.mpr h

theorem blank_of_trimStart_eq_nil {cs : List Char} (h : trimStart cs = []) : Blank cs :=
  List.dropWhile_eq_nil_iff.mp h

theorem splitOnce?_append {c : Char} {before : List Char} (h : c ∉ before) (after : List Char) :
    splitOnce? c (before ++ c :: after) = some (before, after) := by
  induction before with
  | nil => simp [splitOnce?]
  | cons d before ih =>
    have hd : d ≠ c := fun hd => h (by simp [hd])
    have hbefore : c ∉ before := fun hmem => h (List.mem_cons_of_mem d hmem)
    rw [List.cons_append, splitOnce?, if_neg hd, ih hbefore]
    rfl

/-- A text is cut at the first of the characters sought. -/
theorem splitOnce?_eq_some_iff {c : Char} {cs before after : List Char} :
    splitOnce? c cs = some (before, after) ↔ cs = before ++ c :: after ∧ c ∉ before := by
  constructor
  · intro h
    have hcs : cs = before ++ c :: after := eq_of_splitOnce? h
    have hmem : c ∈ cs := by simp [hcs]
    obtain ⟨first, rest, hfirst, hnot⟩ := List.eq_append_cons_of_mem hmem
    rw [hfirst, splitOnce?_append hnot] at h
    obtain ⟨rfl, rfl⟩ := Prod.mk.inj (Option.some.inj h)
    exact ⟨hfirst, hnot⟩
  · rintro ⟨rfl, h⟩
    exact splitOnce?_append h after

theorem startsWith_iff {p cs : List Char} : startsWith p cs = true ↔ p <+: cs := by
  unfold startsWith
  rw [Option.isSome_iff_exists]
  constructor
  · rintro ⟨rest, hrest⟩
    exact ⟨rest, (dropPrefix?_eq_some_iff.mp hrest).symm⟩
  · rintro ⟨rest, hrest⟩
    exact ⟨rest, dropPrefix?_eq_some_iff.mpr hrest.symm⟩

theorem occursIn_iff {p cs : List Char} : occursIn p cs = true ↔ p <:+: cs := by
  induction cs with
  | nil => simp [occursIn, List.isEmpty_iff]
  | cons c cs ih =>
    rw [occursIn, Bool.or_eq_true, startsWith_iff, ih, List.infix_cons_iff]

end Text

namespace Template

open Text

/-! ## Lines -/

/-- A text falls into lines: each ends with its line feed, the last one may lack it. -/
inductive Cut : List Char → List (List Char) → Prop
  | nil : Cut [] []
  | last {line : List Char} : line ≠ [] → '\n' ∉ line → Cut line [line]
  | cons {line text : List Char} {ls : List (List Char)} : '\n' ∉ line → Cut text ls →
      Cut (line ++ '\n' :: text) ((line ++ ['\n']) :: ls)

theorem lines_append_newline {line : List Char} (h : '\n' ∉ line) (text : List Char) :
    lines (line ++ '\n' :: text) = (line ++ ['\n']) :: lines text := by
  induction line with
  | nil => simp [lines]
  | cons c line ih =>
    have hc : c ≠ '\n' := fun hc => h (by simp [hc])
    have hline : '\n' ∉ line := fun hmem => h (List.mem_cons_of_mem _ hmem)
    rw [List.cons_append, lines, if_neg hc, ih hline]
    rfl

theorem lines_of_no_newline {line : List Char} (hne : line ≠ []) (h : '\n' ∉ line) :
    lines line = [line] := by
  induction line with
  | nil => exact absurd rfl hne
  | cons c line ih =>
    have hc : c ≠ '\n' := fun hc => h (by simp [hc])
    have hline : '\n' ∉ line := fun hmem => h (List.mem_cons_of_mem _ hmem)
    rw [lines, if_neg hc]
    cases line with
    | nil => rfl
    | cons d line => rw [ih (List.cons_ne_nil d line) hline]

/-- Reading a text line by line cuts it so. -/
theorem lines_cut (text : List Char) : Cut text (lines text) := by
  induction text with
  | nil => exact .nil
  | cons c text ih =>
    by_cases hc : c = '\n'
    · have hempty : '\n' ∉ ([] : List Char) := List.not_mem_nil
      rw [hc, lines, if_pos rfl]
      exact .cons hempty ih
    · have hmem : ∀ line, '\n' ∉ line → '\n' ∉ c :: line := by
        intro line hline
        simp [Ne.symm hc, hline]
      rw [lines, if_neg hc]
      -- the character joins the first line of the rest, if there is one
      generalize lines text = ls at ih ⊢
      cases ih with
      | nil => exact .last (List.cons_ne_nil c []) (hmem [] List.not_mem_nil)
      | last _ hline => exact .last (List.cons_ne_nil c text) (hmem text hline)
      | cons hline hrest => exact .cons (hmem _ hline) hrest

/-- A text falls into lines in one way. -/
theorem lines_eq_iff {text : List Char} {ls : List (List Char)} :
    lines text = ls ↔ Cut text ls := by
  constructor
  · rintro rfl
    exact lines_cut text
  · intro h
    induction h with
    | nil => rfl
    | last hne hline => exact lines_of_no_newline hne hline
    | cons hline _ ih => rw [lines_append_newline hline, ih]

/-- Behind a line feed the lines begin anew. -/
theorem Cut.append {front text : List Char} {ls ls' : List (List Char)} (hfront : Cut front ls)
    (hlast : front.getLast? = some '\n') (htext : Cut text ls') :
    Cut (front ++ text) (ls ++ ls') := by
  induction hfront with
  | nil => cases hlast
  | last _ hline => exact absurd (List.mem_of_getLast? hlast) hline
  | @cons line rest ls hline hrest ih =>
    rw [List.append_assoc, List.cons_append, List.cons_append]
    refine .cons hline ?_
    cases rest with
    | nil =>
      rw [← lines_eq_iff.mpr hrest]
      exact htext
    | cons c rest =>
      apply ih
      simpa using hlast

theorem lines_append {front : List Char} (h : front.getLast? = some '\n') (text : List Char) :
    lines (front ++ text) = lines front ++ lines text :=
  lines_eq_iff.mpr ((lines_cut front).append h (lines_cut text))

/-! ## Directives -/

/-- The words of a directive, with at least one blank between them.  Blanks may stand before and
behind the comment sign and at the end. -/
inductive Spells : List Char → Directive → Prop
  | intro {b₀ b₁ g₁ g₂ g₃ g₄ g₅ g₆ g₇ b₂ key pattern : List Char} :
      Blank b₀ → Blank b₁ → Gap g₁ → Gap g₂ → Gap g₃ → Gap g₄ → Gap g₅ → Gap g₆ → Gap g₇ →
      Blank b₂ → key ≠ [] → (∀ c ∈ key, isKeyChar c = true) → '\'' ∉ pattern →
      Spells (b₀ ++ "#".toList ++ b₁ ++ "Kabanero!".toList ++ g₁ ++ "on".toList ++
          g₂ ++ "activate".toList ++ g₃ ++ "substitute".toList ++ g₄ ++ key ++
          g₅ ++ "for".toList ++ g₆ ++ "text".toList ++ g₇ ++ "'".toList ++ pattern ++
          "'".toList ++ b₂)
        ⟨String.ofList key, pattern⟩

theorem word?_eq_some_iff {word : String} {cs rest : List Char} :
    word? word cs = some rest ↔ cs = word.toList ++ rest :=
  dropPrefix?_eq_some_iff

theorem spacedWord?_eq_some_iff {word : String} {cs rest : List Char} :
    spacedWord? word cs = some rest ↔
      ∃ gap, Gap gap ∧ Flush (word.toList ++ rest) ∧ cs = gap ++ (word.toList ++ rest) := by
  cases cs with
  | nil =>
    simp only [spacedWord?, reduceCtorEq, false_iff]
    rintro ⟨gap, ⟨hne, -⟩, -, hcs⟩
    exact hne (List.append_eq_nil_iff.mp hcs.symm).1
  | cons c cs =>
    by_cases hc : isBlank c = true
    · rw [spacedWord?, if_pos hc, word?_eq_some_iff, trimStart_eq_iff]
      constructor
      · rintro ⟨gap, hgap, hflush, rfl⟩
        exact ⟨c :: gap, ⟨by simp, by simpa [Blank, hc] using hgap⟩, hflush, rfl⟩
      · rintro ⟨gap, ⟨hne, hgap⟩, hflush, hcs⟩
        cases gap with
        | nil => exact absurd rfl hne
        | cons d gap =>
          obtain ⟨rfl, rfl⟩ := List.cons_eq_cons.mp hcs
          exact ⟨gap, fun e he => hgap e (List.mem_cons_of_mem _ he), hflush, rfl⟩
    · rw [spacedWord?, if_neg hc]
      simp only [reduceCtorEq, false_iff]
      rintro ⟨gap, ⟨hne, hgap⟩, -, hcs⟩
      cases gap with
      | nil => exact hne rfl
      | cons d gap =>
        obtain ⟨rfl, -⟩ := List.cons_eq_cons.mp hcs
        exact hc (hgap c List.mem_cons_self)

theorem flush_word {word : String} {c : Char} (hword : word.toList.head? = some c)
    (hc : isBlank c = false) (rest : List Char) : Flush (word.toList ++ rest) := by
  obtain ⟨cs, hcs⟩ := List.head?_eq_some_iff.mp hword
  rw [hcs]
  exact flush_cons hc

/-- Letters and the other characters of keys are not blank. -/
theorem isBlank_of_isKeyChar {c : Char} (h : isKeyChar c = true) : isBlank c = false := by
  have hrange : 0x2E ≤ c.toNat ∧ c.toNat ≤ 0x7A := by
    simp only [isKeyChar, Bool.or_eq_true, decide_eq_true_eq] at h
    obtain (h | rfl) | rfl := h
    · change ((decide ('A'.val ≤ c.val ∧ c.val ≤ 'Z'.val) ||
        decide ('a'.val ≤ c.val) && decide (c.val ≤ 'z'.val)) ||
        decide ('0'.val ≤ c.val) && decide (c.val ≤ '9'.val)) = true at h
      simp only [Bool.or_eq_true, Bool.and_eq_true, decide_eq_true_eq, UInt32.le_iff_toNat_le,
        Char.reduceVal, UInt32.reduceToNat, Char.toNat_val] at h
      omega
    · decide
    · decide
  simp only [isBlank, Bool.or_eq_false_iff, Bool.and_eq_false_iff, decide_eq_false_iff_not,
    beq_eq_false_iff_ne]
  omega

/-- A key ends where a blank follows. -/
theorem takeWhile_key {key gap : List Char} (hkey : ∀ c ∈ key, isKeyChar c = true)
    (hgap : Gap gap) (rest : List Char) :
    (key ++ (gap ++ rest)).takeWhile isKeyChar = key ∧
      (key ++ (gap ++ rest)).dropWhile isKeyChar = gap ++ rest := by
  obtain ⟨hne, hblank⟩ := hgap
  cases gap with
  | nil => exact absurd rfl hne
  | cons b gap =>
    have hb : isKeyChar b = false := by
      by_contra h
      have hdark := isBlank_of_isKeyChar (by simpa using h)
      rw [hblank b List.mem_cons_self] at hdark
      cases hdark
    rw [List.takeWhile_append_of_pos hkey, List.dropWhile_append_of_pos hkey]
    simp [hb]

/-- What is read as a directive is spelled as one. -/
theorem spells_of_directive? {line : List Char} {d : Directive} (h : directive? line = some d) :
    Spells line d := by
  simp only [directive?, Option.bind_eq_bind, Option.bind_eq_some_iff, word?_eq_some_iff,
    spacedWord?_eq_some_iff, trimStart_eq_iff] at h
  obtain ⟨_, ⟨b₀, hb₀, -, rfl⟩, _, ⟨b₁, hb₁, -, rfl⟩, _, ⟨g₁, hg₁, -, rfl⟩, _,
    ⟨g₂, hg₂, -, rfl⟩, _, ⟨g₃, hg₃, -, rfl⟩, cs, ⟨g₄, hg₄, -, rfl⟩, h⟩ := h
  split at h
  · simp at h
  · next hne =>
    simp only [Option.bind_eq_some_iff, spacedWord?_eq_some_iff] at h
    obtain ⟨_, ⟨g₅, hg₅, -, hcs⟩, _, ⟨g₆, hg₆, -, rfl⟩, _, ⟨g₇, hg₇, -, rfl⟩,
      ⟨pattern, b₂⟩, hsplit, h⟩ := h
    obtain ⟨rfl, hpattern⟩ := splitOnce?_eq_some_iff.mp hsplit
    dsimp only at h
    split at h
    · next hend =>
      have hb₂ : Blank b₂ := blank_of_trimStart_eq_nil hend
      have hkey : ∀ c ∈ cs.takeWhile isKeyChar, isKeyChar c = true := by
        intro c hc
        exact List.mem_takeWhile_imp hc
      have hline := Spells.intro hb₀ hb₁ hg₁ hg₂ hg₃ hg₄ hg₅ hg₆ hg₇ hb₂ hne hkey hpattern
      have hcut : cs.takeWhile isKeyChar ++ cs.dropWhile isKeyChar = cs :=
        List.takeWhile_append_dropWhile
      rw [hcs] at hcut
      rw [← Option.some.inj h]
      generalize cs.takeWhile isKeyChar = key at hline hcut ⊢
      subst hcut
      simpa using hline
    · cases h

/-- What is spelled as a directive is read as this one. -/
theorem directive?_of_spells {line : List Char} {d : Directive} (h : Spells line d) :
    directive? line = some d := by
  obtain @⟨b₀, b₁, g₁, g₂, g₃, g₄, g₅, g₆, g₇, b₂, key, pattern,
    hb₀, hb₁, hg₁, hg₂, hg₃, hg₄, hg₅, hg₆, hg₇, hb₂, hne, hkey, hpattern⟩ := h
  obtain ⟨tail, htail⟩ : ∃ tail, "for".toList ++ (g₆ ++ ("text".toList ++ (g₇ ++
      ("'".toList ++ (pattern ++ ("'".toList ++ b₂)))))) = tail := ⟨_, rfl⟩
  have hflush : Flush (key ++ (g₅ ++ tail)) := by
    cases key with
    | nil => exact absurd rfl hne
    | cons c key => exact flush_cons (isBlank_of_isKeyChar (hkey c List.mem_cons_self))
  obtain ⟨htake, hdrop⟩ := takeWhile_key hkey hg₅ tail
  simp only [directive?, Option.bind_eq_bind, Option.bind_eq_some_iff, word?_eq_some_iff,
    spacedWord?_eq_some_iff, trimStart_eq_iff, List.append_assoc, htail]
  refine ⟨_, ⟨_, hb₀, flush_word rfl (by decide) _, rfl⟩,
    _, ⟨_, hb₁, flush_word rfl (by decide) _, rfl⟩,
    _, ⟨_, hg₁, flush_word rfl (by decide) _, rfl⟩,
    _, ⟨_, hg₂, flush_word rfl (by decide) _, rfl⟩,
    _, ⟨_, hg₃, flush_word rfl (by decide) _, rfl⟩,
    key ++ (g₅ ++ tail), ⟨_, hg₄, hflush, rfl⟩, ?_⟩
  rw [htake, hdrop, if_neg hne]
  subst htail
  simp only [Option.bind_eq_some_iff, spacedWord?_eq_some_iff]
  refine ⟨_, ⟨_, hg₅, flush_word rfl (by decide) _, rfl⟩,
    _, ⟨_, hg₆, flush_word rfl (by decide) _, rfl⟩,
    _, ⟨_, hg₇, flush_word rfl (by decide) _, rfl⟩,
    (pattern, b₂), splitOnce?_eq_some_iff.mpr ⟨rfl, hpattern⟩, ?_⟩
  exact if_pos (trimStart_of_blank hb₂)

/-- A line holds a directive exactly if it spells it. -/
theorem directive?_eq_some_iff {line : List Char} {d : Directive} :
    directive? line = some d ↔ Spells line d :=
  ⟨spells_of_directive?, directive?_of_spells⟩

/-! ## Comments with the marker -/

/-- A comment that mentions the marker of directives. -/
def Marked (line : List Char) : Prop :=
  (∃ indent text, Blank indent ∧ line = indent ++ '#' :: text) ∧ "Kabanero!".toList <:+: line

theorem looksLikeDirective_iff {line : List Char} :
    looksLikeDirective line = true ↔ Marked line := by
  unfold looksLikeDirective Marked
  rw [Bool.and_eq_true, occursIn_iff, beq_iff_eq, List.head?_eq_some_iff]
  simp only [trimStart_eq_iff]
  constructor
  · rintro ⟨⟨text, indent, hindent, -, hline⟩, hmarker⟩
    exact ⟨⟨indent, text, hindent, hline⟩, hmarker⟩
  · rintro ⟨⟨indent, text, hindent, hline⟩, hmarker⟩
    exact ⟨⟨text, indent, hindent, flush_cons (by decide), hline⟩, hmarker⟩

end Template

end PipelineStacks
