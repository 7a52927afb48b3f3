/-!
# Programs that ask

A program either is done or asks the outside world a question and goes on with the answer.  What
the world answers is not fixed: a theorem about a program can quantify over all answers, a list
can script them, and a runner in some monad can really ask.

`Program.run` lets a world with a state answer, `Program.log` lists the questions with their
answers in order.  `run_bind` and `log_bind` say that running a sequence is running its parts, and
`run_expand` that a question may stand for a program of other questions.
-/

namespace PipelineStacks

/-- A computation that asks questions of type `ι` and yields an `α`. -/
inductive Program {ι : Type} (Answer : ι → Type) (α : Type) : Type
  | done (value : α)
  | ask (question : ι) (next : Answer question → Program Answer α)

namespace Program

variable {ι : Type} {Answer : ι → Type} {α β : Type}

/-- Goes on with `k` when the first program is done. -/
def bind : Program Answer α → (α → Program Answer β) → Program Answer β
  | .done a, k => k a
  | .ask q next, k => .ask q fun answer => (next answer).bind k

instance : Monad (Program Answer) where
  pure := .done
  bind := bind

/-- Asks one question. -/
def question (q : ι) : Program Answer (Answer q) :=
  .ask q .done

@[simp] theorem pure_eq (a : α) : (pure a : Program Answer α) = .done a := rfl

@[simp] theorem done_bind (a : α) (k : α → Program Answer β) : (.done a >>= k) = k a := rfl

@[simp] theorem ask_bind (q : ι) (next : Answer q → Program Answer α)
    (k : α → Program Answer β) : (.ask q next >>= k) = .ask q fun answer => next answer >>= k := rfl

theorem bind_done (p : Program Answer α) : p.bind .done = p := by
  induction p with
  | done => rfl
  | ask q next ih => simp [bind, ih]

theorem bind_assoc {γ : Type} (p : Program Answer α) (k : α → Program Answer β)
    (l : β → Program Answer γ) : (p.bind k).bind l = p.bind fun a => (k a).bind l := by
  induction p with
  | done => rfl
  | ask q next ih => simp [bind, ih]

instance : LawfulMonad (Program Answer) :=
  LawfulMonad.mk' _ bind_done (fun _ _ => rfl) bind_assoc

/-! ## Running -/

/-- Something that answers questions and changes by it. -/
abbrev World (Answer : ι → Type) (σ : Type) : Type :=
  (q : ι) → σ → Answer q × σ

/-- The value of a program and the state of the world after it. -/
def run {σ : Type} (world : World Answer σ) : Program Answer α → σ → α × σ
  | .done a, s => (a, s)
  | .ask q next, s => (next (world q s).1).run world (world q s).2

/-- A question with its answer. -/
abbrev Exchange (Answer : ι → Type) : Type :=
  (q : ι) × Answer q

/-- The questions a program asks, with their answers, in order. -/
def log {σ : Type} (world : World Answer σ) : Program Answer α → σ → List (Exchange Answer)
  | .done _, _ => []
  | .ask q next, s => ⟨q, (world q s).1⟩ :: (next (world q s).1).log world (world q s).2

@[simp] theorem run_done {σ : Type} (world : World Answer σ) (a : α) (s : σ) :
    (done a : Program Answer α).run world s = (a, s) := rfl

@[simp] theorem log_done {σ : Type} (world : World Answer σ) (a : α) (s : σ) :
    (done a : Program Answer α).log world s = [] := rfl

/-- Running a sequence is running its parts. -/
theorem run_bind {σ : Type} (world : World Answer σ) (p : Program Answer α)
    (k : α → Program Answer β) (s : σ) :
    (p >>= k).run world s = (k (p.run world s).1).run world (p.run world s).2 := by
  induction p generalizing s with
  | done => rfl
  | ask q next ih => exact ih _ _

/-- The questions of a sequence are those of its parts. -/
theorem log_bind {σ : Type} (world : World Answer σ) (p : Program Answer α)
    (k : α → Program Answer β) (s : σ) :
    (p >>= k).log world s =
      p.log world s ++ (k (p.run world s).1).log world (p.run world s).2 := by
  induction p generalizing s with
  | done => rfl
  | ask q next ih => exact congrArg (_ :: ·) (ih _ _)

/-- Asks the questions in another monad. -/
def interpret {m : Type → Type} [Monad m] (answer : (q : ι) → m (Answer q)) :
    Program Answer α → m α
  | .done a => pure a
  | .ask q next => do (next (← answer q)).interpret answer

/-- The program that asks other questions in place of each of its own. -/
def expand {κ : Type} {Answer' : κ → Type} (f : (q : ι) → Program Answer' (Answer q)) :
    Program Answer α → Program Answer' α
  | .done a => .done a
  | .ask q next => (f q).bind fun answer => (next answer).expand f

/-- An expanded program runs like the program itself in a world that runs the expansions. -/
theorem run_expand {κ σ : Type} {Answer' : κ → Type}
    (f : (q : ι) → Program Answer' (Answer q)) (world : World Answer' σ) (p : Program Answer α)
    (s : σ) : (p.expand f).run world s = p.run (fun q s => (f q).run world s) s := by
  induction p generalizing s with
  | done => rfl
  | ask q next ih =>
    have h := run_bind world (f q) (fun answer => (next answer).expand f) s
    exact h.trans (ih _ _)

end Program

end PipelineStacks
