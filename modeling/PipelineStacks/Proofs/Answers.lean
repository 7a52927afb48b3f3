import Mathlib.Tactic.Common
import PipelineStacks.Program

/-!
# Results under all answers

`Program.Always R P` says that a program yields a result with `P` whatever the world answers, as
long as each answer is admitted by `R`.  The rules follow the program: `always_bind` takes a
sequence apart, and `Always.run` passes from programs to worlds.
-/

namespace PipelineStacks

namespace Program

variable {ι : Type} {Answer : ι → Type} {α β : Type}

/-- The result has the property under all answers that are admitted. -/
def Always (R : (q : ι) → Answer q → Prop) (P : α → Prop) : Program Answer α → Prop
  | .done a => P a
  | .ask q next => ∀ answer, R q answer → (next answer).Always R P

/-- Every answer of the world is admitted. -/
def World.Admits {σ : Type} (world : World Answer σ) (R : (q : ι) → Answer q → Prop) : Prop :=
  ∀ q t, R q (world q t).1

variable {R : (q : ι) → Answer q → Prop} {P Q : α → Prop}

/-- A sequence yields what its second part yields on the results of the first. -/
theorem always_bind {p : Program Answer α} {k : α → Program Answer β} {P : β → Prop} :
    (p >>= k).Always R P ↔ p.Always R fun a => (k a).Always R P := by
  induction p with
  | done a => exact Iff.rfl
  | ask q next ih => exact forall_congr' fun answer => forall_congr' fun _ => ih answer

/-- A property of the results may be weakened. -/
theorem Always.imp {p : Program Answer α} (h : p.Always R P) (himp : ∀ a, P a → Q a) :
    p.Always R Q := by
  induction p with
  | done a => exact himp a h
  | ask q next ih => exact fun answer ha => ih answer (h answer ha)

/-- What holds under some answers holds when fewer are admitted. -/
lemma Always.anti {R' : (q : ι) → Answer q → Prop} {p : Program Answer α} (h : p.Always R P)
    (hR : ∀ q answer, R' q answer → R q answer) : p.Always R' P := by
  induction p with
  | done a => exact h
  | ask q next ih => exact fun answer hanswer => ih answer (h answer (hR q answer hanswer))

/-- What holds of everything holds of the results. -/
lemma always_of_forall {p : Program Answer α} (h : ∀ a, P a) : p.Always R P := by
  induction p with
  | done a => exact h a
  | ask q next ih => exact fun answer _ => ih answer

/-- In a world whose answers are admitted the result has the property. -/
theorem Always.run {σ : Type} {p : Program Answer α} (h : p.Always R P)
    {world : World Answer σ} (hworld : world.Admits R) (t : σ) : P (p.run world t).1 := by
  induction p generalizing t with
  | done a => exact h
  | ask q next ih => exact ih _ (h _ (hworld q t)) _

end Program

end PipelineStacks
