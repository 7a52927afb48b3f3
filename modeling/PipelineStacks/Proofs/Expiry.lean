import Mathlib.Data.List.Infix
import PipelineStacks.Proofs.DirectiveGrammar
import PipelineStacks.Watch

/-!
# Watches that have expired

When a watch asks for changes that the cluster does not remember any more, it is told so in a text
with two resource versions (`WatchError.tooOld`).  The text is classed by the parts that occur in
it, and the first part that is looked for, `401`, may occur in a version.  A part of digits occurs
in the whole text exactly if it occurs in one of the versions, since these stand between characters
that are no digits (`Text.infix_append_cons_iff`).  So `expired_tooOld_iff` says which watches are
known to have expired, and `expired_watch_waits` is one that is not.
-/

namespace PipelineStacks

namespace Text

variable {p cs rest : List Char} {c : Char}

/-- A text without the separator starts what stands before it, if it starts the whole. -/
lemma prefix_append_cons_iff (hc : c ∉ p) : p <+: cs ++ c :: rest ↔ p <+: cs := by
  induction p generalizing cs with
  | nil => simp
  | cons d p ih =>
    rw [List.mem_cons, not_or] at hc
    cases cs with
    | nil => simp [List.cons_prefix_cons, Ne.symm hc.1]
    | cons e cs => rw [List.cons_append, List.cons_prefix_cons, List.cons_prefix_cons, ih hc.2]

/-- A text without the separator occurs on one side of it, if it occurs at all. -/
theorem infix_append_cons_iff (hc : c ∉ p) :
    p <:+: cs ++ c :: rest ↔ p <:+: cs ∨ p <:+: rest := by
  induction cs with
  | nil =>
    have hstart : p <+: c :: rest ↔ p <+: [] := @prefix_append_cons_iff _ [] _ _ hc
    rw [List.nil_append, List.infix_cons_iff, hstart, List.prefix_nil, List.infix_nil]
  | cons e cs ih =>
    have hstart : p <+: e :: (cs ++ c :: rest) ↔ p <+: e :: cs :=
      @prefix_append_cons_iff _ (e :: cs) _ _ hc
    rw [List.cons_append, List.infix_cons_iff, ih, hstart, List.infix_cons_iff, or_assoc]

end Text

namespace WatchError

/-- Nothing but decimal digits. -/
def Decimal (s : String) : Prop :=
  ∀ c ∈ s.toList, c.isDigit = true

/-- The part occurs in the text. -/
def Mentions (part text : String) : Prop :=
  part.toList <:+: text.toList

instance (part text : String) : Decidable (Mentions part text) :=
  inferInstanceAs (Decidable (part.toList <:+: text.toList))

instance (s : String) : Decidable (Decimal s) :=
  decidable_of_iff (s.toList.all (·.isDigit) = true) List.all_eq_true

/-- What a watch is told whose resource version is `asked`, when the oldest that is remembered is
`oldest`. -/
def tooOld (asked oldest : String) : String :=
  "too old resource version: " ++ asked ++ " (" ++ oldest ++ ")"

variable {asked oldest : String}

/-- The text of an expired watch, cut at the characters around the versions. -/
lemma toList_tooOld (asked oldest : String) : (tooOld asked oldest).toList =
    "too old resource version:".toList ++ ' ' ::
      (asked.toList ++ ' ' :: ('(' :: (oldest.toList ++ ')' :: []))) := by
  -- said of any words, so that the literals are not compared with one another
  have hcut : ∀ {start opening closing : String} {words : List Char},
      start.toList = words ++ [' '] → opening.toList = [' ', '('] → closing.toList = [')'] →
      (start ++ asked ++ opening ++ oldest ++ closing).toList =
        words ++ ' ' :: (asked.toList ++ ' ' :: ('(' :: (oldest.toList ++ ')' :: []))) := by
    intro start opening closing words hstart hopening hclosing
    simp [hstart, hopening, hclosing]
  exact hcut (by decide +kernel) (by decide) (by decide)

/-- The digits are mentioned to an expired watch only within a version. -/
lemma mentions_401_tooOld :
    Mentions "401" (tooOld asked oldest) ↔ Mentions "401" asked ∨ Mentions "401" oldest := by
  have hspace : ' ' ∉ "401".toList := by decide
  have hclose : ')' ∉ "401".toList := by decide
  have hwords : ¬ "401".toList <:+: "too old resource version:".toList := fun h =>
    absurd (h.subset (a := '4') (by simp)) (by simp)
  have hempty : ¬ "401".toList <:+: [] := by simp
  have hopen : "401".toList <:+: '(' :: (oldest.toList ++ ')' :: []) ↔
      "401".toList <:+: [] ∨ "401".toList <:+: oldest.toList ++ ')' :: [] :=
    @Text.infix_append_cons_iff _ [] _ _ (by decide)
  rw [Mentions, toList_tooOld, Text.infix_append_cons_iff hspace,
    Text.infix_append_cons_iff hspace, hopen, Text.infix_append_cons_iff hclose]
  simp only [hwords, hempty, false_or, or_false]
  rfl

/-- The letter with which the word for missing rights begins is in no such text. -/
lemma not_mentions_unauthorized (hasked : Decimal asked) (holdest : Decimal oldest) :
    ¬ Mentions "Unauthorized" (tooOld asked oldest) := by
  intro h
  have hmem : 'U' ∈ (tooOld asked oldest).toList := h.subset (by decide)
  have hnone : ∀ {s}, Decimal s → 'U' ∉ s.toList := fun hs hU => by
    cases hs 'U' hU
  rw [toList_tooOld] at hmem
  simp [hnone hasked, hnone holdest] at hmem

/-- Every such text mentions what it is about. -/
lemma mentions_tooOld : Mentions "too old resource version" (tooOld asked oldest) := by
  have hwords : "too old resource version".toList <+: "too old resource version:".toList := by
    decide +kernel
  rw [Mentions, toList_tooOld]
  exact (hwords.trans (List.prefix_append _ _)).isInfix

/-- The class of an expired watch by its versions. -/
lemma classify_tooOld (hasked : Decimal asked) (holdest : Decimal oldest) :
    classify (tooOld asked oldest) =
      if Mentions "401" asked ∨ Mentions "401" oldest then .unauthorized else .expired := by
  have hword : Text.occursIn "Unauthorized".toList (tooOld asked oldest).toList = false :=
    Bool.eq_false_iff.mpr fun h =>
      not_mentions_unauthorized hasked holdest (Text.occursIn_iff.mp h)
  have habout : Text.occursIn "too old resource version".toList (tooOld asked oldest).toList =
      true := Text.occursIn_iff.mpr mentions_tooOld
  have hnumber : Text.occursIn "401".toList (tooOld asked oldest).toList = true ↔
      Mentions "401" asked ∨ Mentions "401" oldest :=
    Text.occursIn_iff.trans mentions_401_tooOld
  unfold classify
  simp only [hword, habout, Bool.or_false, Bool.or_true, Bool.true_or, if_true]
  exact if_congr hnumber rfl rfl

/-- A watch is known to have expired, and is started again without waiting, exactly if none of the
two versions in its text holds the digits `401`.  Else it is taken for one without rights, and the
controller waits. -/
theorem expired_tooOld_iff (hasked : Decimal asked) (holdest : Decimal oldest) :
    (classify (tooOld asked oldest) = .expired ↔
      ¬ (Mentions "401" asked ∨ Mentions "401" oldest)) ∧
    ((classify (tooOld asked oldest)).delay = 0 ↔
      ¬ (Mentions "401" asked ∨ Mentions "401" oldest)) ∧
    (Mentions "401" asked ∨ Mentions "401" oldest →
      classify (tooOld asked oldest) = .unauthorized ∧
        (classify (tooOld asked oldest)).delay = restartDelay) := by
  rw [classify_tooOld hasked holdest]
  by_cases h : Mentions "401" asked ∨ Mentions "401" oldest <;> simp [h, delay, restartDelay]

/-- A watch with harmless versions is known to have expired. -/
theorem expired_watch_does_not_wait :
    classify (tooOld "123" "456") = .expired ∧ (classify (tooOld "123" "456")).delay = 0 := by
  have hasked : Decimal "123" := by decide +kernel
  have holdest : Decimal "456" := by decide +kernel
  obtain ⟨hclass, hdelay, -⟩ := expired_tooOld_iff hasked holdest
  exact ⟨hclass.mpr (by decide), hdelay.mpr (by decide)⟩

/-- A version with these digits has an expired watch taken for one without rights. -/
theorem expired_watch_waits : Decimal "14013" ∧ Decimal "14200" ∧
    classify (tooOld "14013" "14200") = .unauthorized ∧
    (classify (tooOld "14013" "14200")).delay = 5 := by
  decide +kernel

end WatchError

end PipelineStacks
