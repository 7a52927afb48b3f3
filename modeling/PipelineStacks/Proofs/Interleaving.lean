import Mathlib.Logic.Function.Basic
import PipelineStacks.Proofs.Requests

/-!
# Interleavings

Several programs run in one world.  A schedule says whose turn it is; at its turn a program asks one
question, which is answered at once, and a program that is done passes its turn.  `turns` lists who
asked what and was answered what.

Nothing but the turns changes the world (`state_after`, `answered_turns`), and what a program may
ask hangs on its own exchanges alone: `guarded_of_turns` passes from `Guarded` programs to the turns
of all of them, and `rest_after` says what is left of a program after its exchanges (`ownOf`).
-/

namespace PipelineStacks

namespace Program

variable {κ ι α σ : Type} {Answer : ι → Type}

/-- Programs side by side, and the state of the world that they run in. -/
structure Concurrent (κ : Type) (Answer : ι → Type) (α σ : Type) where
  threads : κ → Program Answer α
  state : σ

/-- Who had a turn, what it asked and what was answered. -/
abbrev Turn (κ : Type) (Answer : ι → Type) : Type :=
  κ × Exchange Answer

/-- The state of the world after some turns. -/
def settle (world : World Answer σ) (s : σ) (turns : List (Turn κ Answer)) : σ :=
  turns.foldl (fun s x => (world x.2.1 s).2) s

/-- Every turn is answered by the world as the turns before have left it. -/
def Answered (world : World Answer σ) : σ → List (Turn κ Answer) → Prop
  | _, [] => True
  | s, x :: turns => x.2.2 = (world x.2.1 s).1 ∧ Answered world (world x.2.1 s).2 turns

lemma answered_append {world : World Answer σ} {s : σ} {xs ys : List (Turn κ Answer)} :
    Answered world s (xs ++ ys) ↔ Answered world s xs ∧ Answered world (settle world s xs) ys := by
  induction xs generalizing s with
  | nil => exact (and_iff_right trivial).symm
  | cons x xs ih => exact (and_congr_right fun _ => ih).trans and_assoc.symm

lemma settle_append (world : World Answer σ) (s : σ) (xs ys : List (Turn κ Answer)) :
    settle world s (xs ++ ys) = settle world (settle world s xs) ys :=
  List.foldl_append

/-- A program has had some exchanges, and another program is the rest of it. -/
inductive Rest : Program Answer α → List (Exchange Answer) → Program Answer α → Prop
  | whole (p : Program Answer α) : Rest p [] p
  | ask {q : ι} {next : Answer q → Program Answer α} {answer : Answer q}
      {log : List (Exchange Answer)} {p : Program Answer α} (h : Rest (next answer) log p) :
      Rest (.ask q next) (⟨q, answer⟩ :: log) p

/-- A program that is done has no exchanges, and nothing else can be left of it. -/
lemma Rest.of_done {a : α} {log : List (Exchange Answer)} {p : Program Answer α}
    (h : Rest (.done a) log p) : log = [] ∧ p = .done a := by
  cases h
  exact ⟨rfl, rfl⟩

/-- A program that asks is left as it is, or it has had an exchange with its question first. -/
lemma rest_ask {q : ι} {next : Answer q → Program Answer α} {log : List (Exchange Answer)}
    {p : Program Answer α} (h : Rest (.ask q next) log p) :
    (log = [] ∧ p = .ask q next) ∨
      ∃ answer log', log = ⟨q, answer⟩ :: log' ∧ Rest (next answer) log' p := by
  cases h with
  | whole => exact .inl ⟨rfl, rfl⟩
  | ask h => exact .inr ⟨_, _, rfl, h⟩

namespace Concurrent

variable [DecidableEq κ] (world : World Answer σ)

/-- The turn of one program. -/
def turn? (c : Concurrent κ Answer α σ) (i : κ) : Option (Turn κ Answer) :=
  match c.threads i with
  | .done _ => none
  | .ask q _ => some (i, ⟨q, (world q c.state).1⟩)

/-- What the turn of one program leaves. -/
def step (c : Concurrent κ Answer α σ) (i : κ) : Concurrent κ Answer α σ :=
  match c.threads i with
  | .done _ => c
  | .ask q next =>
    ⟨Function.update c.threads i (next (world q c.state).1), (world q c.state).2⟩

/-- The turns of a schedule. -/
def turns (c : Concurrent κ Answer α σ) : List κ → List (Turn κ Answer)
  | [] => []
  | i :: schedule => (c.turn? world i).toList ++ turns (c.step world i) schedule

/-- What a schedule leaves. -/
def after (c : Concurrent κ Answer α σ) (schedule : List κ) : Concurrent κ Answer α σ :=
  schedule.foldl (step world) c

variable {c : Concurrent κ Answer α σ} {i : κ}

/-- A program that is done passes its turn. -/
lemma step_of_done {a : α} (h : c.threads i = .done a) :
    c.turn? world i = none ∧ c.step world i = c := by
  simp only [turn?, step, h, and_self]

/-- A program that asks is answered. -/
lemma step_of_ask {q : ι} {next : Answer q → Program Answer α} (h : c.threads i = .ask q next) :
    c.turn? world i = some (i, ⟨q, (world q c.state).1⟩) ∧
      c.step world i =
        ⟨Function.update c.threads i (next (world q c.state).1), (world q c.state).2⟩ := by
  simp only [turn?, step, h, and_self]

variable {world}

/-- The turns of a schedule in two parts. -/
lemma turns_append (c : Concurrent κ Answer α σ) (schedule schedule' : List κ) :
    c.turns world (schedule ++ schedule') =
      c.turns world schedule ++ (c.after world schedule).turns world schedule' := by
  induction schedule generalizing c with
  | nil => rfl
  | cons i schedule ih =>
    rw [List.cons_append, turns, turns, ih, List.append_assoc]
    rfl

/-- Nothing but the turns changes the world. -/
theorem state_after (c : Concurrent κ Answer α σ) (schedule : List κ) :
    (c.after world schedule).state = settle world c.state (c.turns world schedule) := by
  induction schedule generalizing c with
  | nil => rfl
  | cons i schedule ih =>
    have hstep := ih (c.step world i)
    cases h : c.threads i with
    | done a =>
      obtain ⟨hnone, hsame⟩ := step_of_done world h
      rw [hsame] at hstep
      simpa [after, turns, hnone, hsame] using hstep
    | ask q next =>
      obtain ⟨hsome, hnext⟩ := step_of_ask world h
      rw [hnext] at hstep
      simpa [after, turns, hsome, hnext, settle] using hstep

/-- Every turn is answered by the world as the turns before have left it. -/
theorem answered_turns (c : Concurrent κ Answer α σ) (schedule : List κ) :
    Answered world c.state (c.turns world schedule) := by
  induction schedule generalizing c with
  | nil => trivial
  | cons i schedule ih =>
    have hstep := ih (c.step world i)
    cases h : c.threads i with
    | done a =>
      obtain ⟨hnone, hsame⟩ := step_of_done world h
      rw [hsame] at hstep
      simpa only [turns, hnone, hsame, Option.toList_none, List.nil_append] using hstep
    | ask q next =>
      obtain ⟨hsome, hnext⟩ := step_of_ask world h
      rw [turns, hsome]
      refine ⟨rfl, ?_⟩
      rw [hnext] at hstep ⊢
      exact hstep

/-! ## What each program asked last -/

/-- The last exchange of one program. -/
def lastOf (i : κ) (turns : List (Turn κ Answer)) : Option (Exchange Answer) :=
  (turns.filter (·.1 = i)).getLast?.map (·.2)

lemma lastOf_cons (i : κ) (x : Turn κ Answer) (turns : List (Turn κ Answer)) :
    lastOf i (x :: turns) = (lastOf i turns).or (if x.1 = i then some x.2 else none) := by
  unfold lastOf
  by_cases h : x.1 = i
  · rw [List.filter_cons_of_pos (by simpa using h), List.getLast?_cons, if_pos h]
    cases (turns.filter (·.1 = i)).getLast? <;> rfl
  · rw [List.filter_cons_of_neg (by simpa using h), if_neg h, Option.or_none]

/-- Behind the last exchange of a program the others have their turns. -/
theorem exists_of_lastOf {i : κ} {turns : List (Turn κ Answer)} {e : Exchange Answer}
    (h : lastOf i turns = some e) :
    ∃ earlier between, turns = earlier ++ (i, e) :: between ∧ ∀ y ∈ between, y.1 ≠ i := by
  unfold lastOf at h
  rw [Option.map_eq_some_iff] at h
  obtain ⟨x, hlast, rfl⟩ := h
  obtain ⟨front, hfilter⟩ := List.getLast?_eq_some_iff.mp hlast
  obtain ⟨earlier, rest, rfl, -, hrest⟩ := List.filter_eq_append_iff.mp hfilter
  obtain ⟨skipped, between, rfl, hskipped, hx, hbetween⟩ := List.filter_eq_cons_iff.mp hrest
  have hwho : x.1 = i := by simpa using hx
  refine ⟨earlier ++ skipped, between, ?_, fun y hy => ?_⟩
  · rw [← hwho, List.append_assoc]
  · simpa using List.filter_eq_nil_iff.mp hbetween y hy

/-- If each program asks only what it is permitted, so do all of them side by side: each question is
permitted by the exchange that its program had before it. -/
theorem guarded_of_turns {G : κ → Option (Exchange Answer) → ι → Prop}
    {last : κ → Option (Exchange Answer)} (hc : ∀ i, (c.threads i).Guarded (G i) (last i))
    {schedule : List κ} {before rest : List (Turn κ Answer)} {x : Turn κ Answer}
    (h : c.turns world schedule = before ++ x :: rest) :
    G x.1 ((lastOf x.1 before).or (last x.1)) x.2.1 := by
  induction schedule generalizing c before last with
  | nil => exact (List.append_ne_nil_of_right_ne_nil before (List.cons_ne_nil x rest) h.symm).elim
  | cons i schedule ih =>
    cases hthread : c.threads i with
    | done a =>
      obtain ⟨hnone, hsame⟩ := step_of_done world hthread
      rw [turns, hnone, hsame] at h
      exact ih hc h
    | ask q next =>
      obtain ⟨hsome, hnext⟩ := step_of_ask world hthread
      have hasked := hc i
      rw [hthread] at hasked
      rw [turns, hsome] at h
      cases before with
      | nil =>
        obtain ⟨rfl, -⟩ := List.cons.inj h
        exact hasked.1
      | cons y before =>
        obtain ⟨rfl, hrest⟩ := List.cons.inj h
        let e : Exchange Answer := ⟨q, (world q c.state).1⟩
        have hstep : ∀ j, ((c.step world i).threads j).Guarded (G j)
            (Function.update last i (some e) j) := by
          intro j
          rw [hnext]
          by_cases hj : j = i
          · subst hj
            simp only [Function.update_self]
            exact hasked.2 _
          · simp only [Function.update_of_ne hj]
            exact hc j
        have hguard := ih hstep hrest
        rw [lastOf_cons, Option.or_assoc]
        convert hguard using 2
        by_cases hx : x.1 = i
        · simp [hx, e]
        · simp [hx, Ne.symm hx]

/-! ## All that a program has asked -/

/-- The exchanges of one program. -/
def ownOf (i : κ) (turns : List (Turn κ Answer)) : List (Exchange Answer) :=
  (turns.filter (·.1 = i)).map (·.2)

lemma ownOf_append (i : κ) (xs ys : List (Turn κ Answer)) :
    ownOf i (xs ++ ys) = ownOf i xs ++ ownOf i ys := by
  simp [ownOf]

lemma mem_ownOf {i : κ} {turns : List (Turn κ Answer)} {e : Exchange Answer} :
    e ∈ ownOf i turns ↔ (i, e) ∈ turns := by
  simp [ownOf]

variable (world) in
/-- A turn is an exchange of a program, or leaves that program as it is. -/
lemma turn_cases (c : Concurrent κ Answer α σ) (i j : κ) :
    (∃ q next, j = i ∧ c.threads i = .ask q next ∧
      ownOf i (c.turn? world j).toList = [⟨q, (world q c.state).1⟩] ∧
      (c.step world j).threads i = next (world q c.state).1) ∨
    ((j = i → ∃ a, c.threads i = .done a) ∧ ownOf i (c.turn? world j).toList = [] ∧
      (c.step world j).threads i = c.threads i) := by
  cases h : c.threads j with
  | done a =>
    obtain ⟨hnone, hsame⟩ := step_of_done world h
    refine .inr ⟨fun hj => ⟨a, hj ▸ h⟩, ?_, by rw [hsame]⟩
    rw [hnone]
    rfl
  | ask q next =>
    obtain ⟨hsome, hnext⟩ := step_of_ask world h
    rw [hsome, hnext]
    by_cases hj : j = i
    · subst hj
      exact .inl ⟨q, next, rfl, h, by simp [ownOf], by simp⟩
    · exact .inr ⟨fun h => absurd h hj, by simp [ownOf, hj], by simp [Ne.symm hj]⟩

variable (world) in
/-- What is left of a program hangs on its own exchanges alone. -/
theorem rest_after (c : Concurrent κ Answer α σ) (i : κ) (schedule : List κ) :
    Rest (c.threads i) (ownOf i (c.turns world schedule)) ((c.after world schedule).threads i) := by
  induction schedule generalizing c with
  | nil => exact .whole _
  | cons j schedule ih =>
    have hstep := ih (c.step world j)
    rw [turns, ownOf_append]
    rcases turn_cases world c i j with ⟨q, next, -, hask, hown, hnext⟩ | ⟨-, hown, hsame⟩
    · rw [hnext] at hstep
      rw [hask, hown]
      exact .ask hstep
    · rw [hsame] at hstep
      rw [hown]
      exact hstep

variable (world) in
/-- A program has an exchange at each of its turns until it is done. -/
theorem length_ownOf_or_done (c : Concurrent κ Answer α σ) (i : κ) (schedule : List κ) :
    (ownOf i (c.turns world schedule)).length = schedule.count i ∨
      ∃ a, (c.after world schedule).threads i = .done a := by
  induction schedule generalizing c with
  | nil => exact .inl rfl
  | cons j schedule ih =>
    rw [turns, ownOf_append, List.length_append]
    rcases turn_cases world c i j with ⟨q, next, rfl, -, hown, -⟩ | ⟨hj, hown, -⟩
    · refine (ih (c.step world j)).imp_left fun hlength => ?_
      rw [hown, hlength, List.count_cons_self, Nat.add_comm]
      rfl
    · rw [hown]
      by_cases hi : j = i
      · obtain ⟨a, ha⟩ := hj hi
        have hrest := rest_after world c i (j :: schedule)
        rw [ha] at hrest
        exact .inr ⟨a, hrest.of_done.2⟩
      · rw [List.count_cons_of_ne hi, List.length_nil, Nat.zero_add]
        exact ih (c.step world j)

/-- The exchanges of a program in two parts are its turns in two parts. -/
theorem exists_of_ownOf {i : κ} {turns : List (Turn κ Answer)} (xs : List (Exchange Answer))
    {ys : List (Exchange Answer)} {e : Exchange Answer} (h : ownOf i turns = xs ++ e :: ys) :
    ∃ earlier later, turns = earlier ++ (i, e) :: later ∧ ownOf i earlier = xs ∧
      ownOf i later = ys := by
  obtain ⟨front, back, hfilter, rfl, hback⟩ := List.map_eq_append_iff.mp h
  obtain ⟨x, back, rfl, rfl, rfl⟩ := List.map_eq_cons_iff.mp hback
  obtain ⟨earlier, rest, rfl, rfl, hrest⟩ := List.filter_eq_append_iff.mp hfilter
  obtain ⟨skipped, later, rfl, hskipped, hx, rfl⟩ := List.filter_eq_cons_iff.mp hrest
  have hwho : x.1 = i := by simpa using hx
  refine ⟨earlier ++ skipped, later, ?_, ?_, rfl⟩
  · rw [← hwho, List.append_assoc]
  · have : skipped.filter (·.1 = i) = [] := List.filter_eq_nil_iff.mpr hskipped
    rw [ownOf, List.filter_append, this, List.append_nil]

end Concurrent

end Program

end PipelineStacks
