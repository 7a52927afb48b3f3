import PipelineStacks.Proofs.Answers
import PipelineStacks.Proofs.SortedMap

/-!
# What programs ask

Whether a question may be asked can hang on what was answered right before it.
`Program.Guarded G last p` says that a program asks only what `G` permits, whatever the world
answers; `last` is the exchange before its first question.  Whether it may be asked can also hang on
what was answered long before, through the results of the parts of a program:
`Program.Conforms R G P last p` says that under answers that `R` admits the program asks only what
`G` permits and yields a result with `P`.

The rules follow the program (`conforms_bind`, `conforms_traverse`).  `Conforms.of_log` passes to
the log of a run, in which each question is permitted by the exchange before it, and `exists_rest`
takes a run up at any of its exchanges.  `Program.AsksFor` is about questions that are asked for
certain, `Program.Tells` about exchanges that the result lets one know of, and `Program.Accounts`
relates all the exchanges of a run to its result.
-/

namespace PipelineStacks

namespace Program

variable {ι : Type} {Answer : ι → Type} {α β : Type}

/-- Every question is permitted after the exchange right before it. -/
def Guarded (G : Option (Exchange Answer) → ι → Prop) :
    Option (Exchange Answer) → Program Answer α → Prop
  | _, .done _ => True
  | last, .ask q next => G last q ∧ ∀ answer, (next answer).Guarded G (some ⟨q, answer⟩)

variable {G : Option (Exchange Answer) → ι → Prop} {last : Option (Exchange Answer)}

lemma guarded_done (a : α) : (.done a : Program Answer α).Guarded G last := trivial

/-- A single question needs only to be permitted itself. -/
lemma guarded_question {q : ι} (h : G last q) :
    (question q : Program Answer (Answer q)).Guarded G last :=
  ⟨h, fun _ => trivial⟩

/-- A sequence asks what is permitted if its first part does, and its second part does after
whatever the first part asked last. -/
theorem guarded_bind {p : Program Answer α} {k : α → Program Answer β} (hp : p.Guarded G last)
    (hk : ∀ a last', (k a).Guarded G last') : (p >>= k).Guarded G last := by
  induction p generalizing last with
  | done a => exact hk a last
  | ask q next ih => exact ⟨hp.1, fun answer => ih answer (hp.2 answer)⟩

/-- What is permitted may be extended. -/
lemma Guarded.imp {G' : Option (Exchange Answer) → ι → Prop} {p : Program Answer α}
    (h : p.Guarded G last) (himp : ∀ last q, G last q → G' last q) : p.Guarded G' last := by
  induction p generalizing last with
  | done a => trivial
  | ask q next ih => exact ⟨himp last q h.1, fun answer => ih answer (h.2 answer)⟩

/-! ## Questions and results together -/

/-- Under all answers that are admitted every question is permitted after the exchange right before
it, and the result has the property. -/
def Conforms (R : (q : ι) → Answer q → Prop) (G : Option (Exchange Answer) → ι → Prop)
    (P : α → Prop) : Option (Exchange Answer) → Program Answer α → Prop
  | _, .done a => P a
  | last, .ask q next =>
    G last q ∧ ∀ answer, R q answer → (next answer).Conforms R G P (some ⟨q, answer⟩)

variable {R : (q : ι) → Answer q → Prop} {P P' : α → Prop} {Q : β → Prop}

lemma conforms_done {a : α} (h : P a) : (.done a : Program Answer α).Conforms R G P last := h

/-- A sequence conforms if its first part does, and its second part does on the results of the first
and after whatever was asked last. -/
theorem conforms_bind {p : Program Answer α} {k : α → Program Answer β}
    (hp : p.Conforms R G P last) (hk : ∀ a, P a → ∀ last', (k a).Conforms R G Q last') :
    (p >>= k).Conforms R G Q last := by
  induction p generalizing last with
  | done a => exact hk a hp last
  | ask q next ih => exact ⟨hp.1, fun answer hanswer => ih answer (hp.2 answer hanswer)⟩

/-- After a single question it is known what was asked last. -/
lemma conforms_question_bind {q : ι} {k : Answer q → Program Answer β} (h : G last q)
    (hk : ∀ answer, R q answer → (k answer).Conforms R G Q (some ⟨q, answer⟩)) :
    (question q >>= k).Conforms R G Q last :=
  ⟨h, hk⟩

/-- More may be permitted, and less may be said of the results. -/
lemma Conforms.imp {G' : Option (Exchange Answer) → ι → Prop} {p : Program Answer α}
    (h : p.Conforms R G P last) (hG : ∀ last q, G last q → G' last q) (hP : ∀ a, P a → P' a) :
    p.Conforms R G' P' last := by
  induction p generalizing last with
  | done a => exact hP a h
  | ask q next ih =>
    exact ⟨hG last q h.1, fun answer hanswer => ih answer (h.2 answer hanswer)⟩

/-- What is said of the results may be established apart. -/
lemma Conforms.and_always {p : Program Answer α} (h : p.Conforms R G P last)
    (h' : p.Always R P') : p.Conforms R G (fun a => P a ∧ P' a) last := by
  induction p generalizing last with
  | done a => exact ⟨h, h'⟩
  | ask q next ih =>
    exact ⟨h.1, fun answer hanswer => ih answer (h.2 answer hanswer) (h' answer hanswer)⟩

lemma Conforms.always {p : Program Answer α} (h : p.Conforms R G P last) : p.Always R P := by
  induction p generalizing last with
  | done a => exact h
  | ask q next ih => exact fun answer hanswer => ih answer (h.2 answer hanswer)

lemma conforms_of_always {p : Program Answer α} (h : p.Always R P) :
    p.Conforms R (fun _ _ => True) P last := by
  induction p generalizing last with
  | done a => exact h
  | ask q next ih => exact ⟨trivial, fun answer hanswer => ih answer (h answer hanswer)⟩

/-- What is permitted whatever the world answers is permitted under the answers that are
admitted. -/
lemma Guarded.conforms {p : Program Answer α} (h : p.Guarded G last) :
    p.Conforms R G (fun _ => True) last := by
  induction p generalizing last with
  | done a => trivial
  | ask q next ih => exact ⟨h.1, fun answer _ => ih answer (h.2 answer)⟩

lemma Conforms.guarded {p : Program Answer α} (h : p.Conforms (fun _ _ => True) G P last) :
    p.Guarded G last := by
  induction p generalizing last with
  | done a => trivial
  | ask q next ih => exact ⟨h.1, fun answer => ih answer (h.2 answer trivial)⟩

/-- To visit all entries of a map is to ask what each of them has to be asked. -/
theorem conforms_traverse {κ ν μ : Type} [Ranked κ] [DecidableEq κ] {s : SortedMap κ ν}
    {f : κ → ν → Program Answer μ} {Q : κ → ν → μ → Prop}
    (h : ∀ e ∈ s.entries, ∀ last', (f e.1 e.2).Conforms R G (Q e.1 e.2) last') :
    (s.traverse f).Conforms R G (fun s' => s.Pointwise Q s') last := by
  have hentries : ∀ (es : List (κ × ν)) (last' : Option (Exchange Answer)),
      (∀ e ∈ es, ∀ last', (f e.1 e.2).Conforms R G (Q e.1 e.2) last') →
        (SortedMap.traverseEntries f es).Conforms R G (fun es' =>
          List.Forall₂ (fun e e' => e.1 = e'.1 ∧ Q e.1 e.2 e'.2) es es'.val) last' := by
    intro es
    induction es with
    | nil => exact fun _ _ => conforms_done List.Forall₂.nil
    | cons e es ih =>
      intro last' hes
      obtain ⟨hhead, htail⟩ := List.forall_mem_cons.mp hes
      refine conforms_bind (hhead last') fun v' hv' last'' => ?_
      refine conforms_bind (ih last'' htail) fun es' hes' _ => ?_
      exact conforms_done (List.Forall₂.cons ⟨rfl, hv'⟩ hes')
  exact conforms_bind (hentries s.entries last h) fun es' hes' _ =>
    conforms_done (SortedMap.pointwise_of_entries hes')

/-- To visit all entries of a map is to replace each value by an answer for it. -/
lemma always_traverse {κ ν μ : Type} [Ranked κ] [DecidableEq κ] {s : SortedMap κ ν}
    {f : κ → ν → Program Answer μ} {Q : κ → ν → μ → Prop}
    (h : ∀ e ∈ s.entries, (f e.1 e.2).Always R (Q e.1 e.2)) :
    (s.traverse f).Always R fun s' => s.Pointwise Q s' := by
  have hconforms : (s.traverse f).Conforms R (fun _ _ => True) (fun s' => s.Pointwise Q s') none :=
    conforms_traverse fun e he _ => conforms_of_always (h e he)
  exact hconforms.always

/-! ## Runs -/

/-- A run can be taken up at any exchange: what is left of it is the run of another program, which
conforms as well. -/
theorem Conforms.exists_rest {σ : Type} {world : World Answer σ} {p : Program Answer α}
    (h : p.Conforms R G P last) (hworld : world.Admits R) {t : σ}
    {before rest : List (Exchange Answer)} {x : Exchange Answer}
    (hlog : p.log world t = before ++ x :: rest) :
    G (before.getLast?.or last) x.1 ∧ ∃ (t' : σ) (p' : Program Answer α), x.2 = (world x.1 t').1 ∧
      p'.Conforms R G P (some x) ∧ p'.log world (world x.1 t').2 = rest ∧
      p'.run world (world x.1 t').2 = p.run world t := by
  induction p generalizing last t before with
  | done a =>
    rw [log_done] at hlog
    exact (List.append_ne_nil_of_right_ne_nil before (List.cons_ne_nil x rest) hlog.symm).elim
  | ask q next ih =>
    have hnext := h.2 _ (hworld q t)
    cases before with
    | nil =>
      obtain ⟨rfl, hrest⟩ := List.cons.inj hlog
      exact ⟨h.1, t, next (world q t).1, rfl, hnext, hrest, rfl⟩
    | cons y before =>
      obtain ⟨rfl, hrest⟩ := List.cons.inj hlog
      have hlast : (⟨q, (world q t).1⟩ :: before).getLast?.or last =
          before.getLast?.or (some ⟨q, (world q t).1⟩) := by
        rw [List.getLast?_cons]
        cases before.getLast? <;> rfl
      rw [hlast]
      exact ih _ hnext hrest

/-- In a run every question is permitted by the exchange before it. -/
lemma Conforms.of_log {σ : Type} {world : World Answer σ} {p : Program Answer α}
    (h : p.Conforms R G P last) (hworld : world.Admits R) {t : σ}
    {before rest : List (Exchange Answer)} {x : Exchange Answer}
    (hlog : p.log world t = before ++ x :: rest) : G (before.getLast?.or last) x.1 :=
  (h.exists_rest hworld hlog).1

/-- The same of a program that asks only what is permitted whatever the world answers. -/
theorem Guarded.of_log {σ : Type} {world : World Answer σ} {p : Program Answer α}
    (h : p.Guarded G last) {t : σ} {before rest : List (Exchange Answer)} {x : Exchange Answer}
    (hlog : p.log world t = before ++ x :: rest) : G (before.getLast?.or last) x.1 :=
  (h.conforms (R := fun _ _ => True)).of_log (fun _ _ => trivial) hlog

/-- Of every question of a run holds what holds of all that is permitted. -/
lemma Guarded.of_mem_log {σ : Type} {world : World Answer σ} {p : Program Answer α}
    (h : p.Guarded G last) {Q : ι → Prop} (hG : ∀ last' q, G last' q → Q q) {t : σ}
    {x : Exchange Answer} (hx : x ∈ p.log world t) : Q x.1 := by
  obtain ⟨before, rest, hlog⟩ := List.append_of_mem hx
  exact hG _ _ (h.of_log hlog)

/-! ## Questions that are certain -/

/-- In every run in the world some question of the kind is asked. -/
def AsksFor {σ : Type} (world : World Answer σ) (Q : ι → Prop) (p : Program Answer α) : Prop :=
  ∀ t, ∃ x ∈ p.log world t, Q x.1

section AsksFor

variable {σ : Type} {world : World Answer σ} {Q : ι → Prop}

lemma asksFor_question {q : ι} (h : Q q) : (question q).AsksFor world Q :=
  fun t => ⟨⟨q, (world q t).1⟩, List.mem_cons_self, h⟩

/-- A sequence asks what its first part asks. -/
lemma AsksFor.bind {p : Program Answer α} (h : p.AsksFor world Q) (k : α → Program Answer β) :
    (p >>= k).AsksFor world Q := by
  intro t
  obtain ⟨x, hx, hQ⟩ := h t
  refine ⟨x, ?_, hQ⟩
  rw [log_bind]
  exact List.mem_append_left _ hx

/-- A sequence asks what its second part asks on the results of the first. -/
lemma asksFor_bind {p : Program Answer α} {k : α → Program Answer β} (hp : p.Always R P)
    (hworld : world.Admits R) (hk : ∀ a, P a → (k a).AsksFor world Q) :
    (p >>= k).AsksFor world Q := by
  intro t
  obtain ⟨x, hx, hQ⟩ := hk _ (hp.run hworld t) (p.run world t).2
  refine ⟨x, ?_, hQ⟩
  rw [log_bind]
  exact List.mem_append_right _ hx

/-- To visit all entries of a map is to ask for each of them. -/
lemma asksFor_traverse {κ ν μ : Type} [Ranked κ] {s : SortedMap κ ν}
    {f : κ → ν → Program Answer μ} {e : κ × ν} (he : e ∈ s.entries)
    (h : (f e.1 e.2).AsksFor world Q) : (s.traverse f).AsksFor world Q := by
  have hanything : world.Admits fun _ _ => True := fun _ _ => trivial
  have hentries : ∀ es : List (κ × ν), e ∈ es →
      (SortedMap.traverseEntries f es).AsksFor world Q := by
    intro es hes
    induction es with
    | nil => cases hes
    | cons e' es ih =>
      rcases List.mem_cons.mp hes with rfl | hes
      · exact h.bind _
      · exact asksFor_bind (always_of_forall fun _ => trivial) hanything
          fun _ (_ : True) => (ih hes).bind _
  exact (hentries s.entries he).bind _

end AsksFor

/-! ## What the results tell of the questions -/

/-- In every run in the world in which there is some exchange of the kind, the result has the
property. -/
def Tells {σ : Type} (world : World Answer σ) (S : Exchange Answer → Prop) (P : α → Prop)
    (p : Program Answer α) : Prop :=
  ∀ t, (∃ x ∈ p.log world t, S x) → P (p.run world t).1

section Tells

variable {σ : Type} {world : World Answer σ} {S : Exchange Answer → Prop}

/-- A program without such exchanges tells anything. -/
lemma tells_of_silent {p : Program Answer α} (h : ∀ t, ∀ x ∈ p.log world t, ¬ S x) :
    p.Tells world S P := by
  rintro t ⟨x, hx, hS⟩
  exact (h t x hx hS).elim

lemma tells_question (q : ι) : (question q).Tells world S fun answer => S ⟨q, answer⟩ := by
  rintro t ⟨x, hx, hS⟩
  obtain rfl := List.mem_singleton.mp hx
  exact hS

/-- A sequence tells what its second part tells, if that yields it too on what the first part
tells. -/
theorem Tells.bind {p : Program Answer α} {k : α → Program Answer β} (hp : p.Tells world S P)
    (hworld : world.Admits R) (hk : ∀ a, (k a).Tells world S Q)
    (hstay : ∀ a, P a → (k a).Always R Q) : (p >>= k).Tells world S Q := by
  rintro t ⟨x, hx, hS⟩
  rw [log_bind] at hx
  rw [run_bind]
  rcases List.mem_append.mp hx with hx | hx
  · exact (hstay _ (hp t ⟨x, hx, hS⟩)).run hworld _
  · exact hk _ _ ⟨x, hx, hS⟩

/-- What holds of all results may be added. -/
lemma Tells.and_always {p : Program Answer α} (h : p.Tells world S P) (hworld : world.Admits R)
    (h' : p.Always R P') : p.Tells world S fun a => P a ∧ P' a :=
  fun t hS => ⟨h t hS, h'.run hworld t⟩

/-- To visit all entries of a map tells of some entry what is told of it. -/
lemma tells_traverse {κ ν μ : Type} [Ranked κ] {s : SortedMap κ ν} {f : κ → ν → Program Answer μ}
    {Q : κ → μ → Prop} (h : ∀ e ∈ s.entries, (f e.1 e.2).Tells world S (Q e.1)) :
    (s.traverse f).Tells world S fun s' => ∃ e ∈ s'.entries, Q e.1 e.2 := by
  have hanything : world.Admits fun _ _ => True := fun _ _ => trivial
  have hentries : ∀ es : List (κ × ν), (∀ e ∈ es, (f e.1 e.2).Tells world S (Q e.1)) →
      (SortedMap.traverseEntries f es).Tells world S fun es' => ∃ e ∈ es'.val, Q e.1 e.2 := by
    intro es
    induction es with
    | nil => exact fun _ => tells_of_silent fun _ _ hx => (List.not_mem_nil hx).elim
    | cons e es ih =>
      intro hes
      obtain ⟨hhead, htail⟩ := List.forall_mem_cons.mp hes
      refine hhead.bind hanything (fun v' => ?_) fun v' hv' => ?_
      · refine (ih htail).bind hanything (fun _ => ?_) fun es' hes' => ?_
        · exact tells_of_silent fun _ _ hx => (List.not_mem_nil hx).elim
        · obtain ⟨e', he', hQ⟩ := hes'
          exact ⟨e', List.mem_cons_of_mem _ he', hQ⟩
      · exact always_bind.mpr (always_of_forall fun _ => ⟨_, List.mem_cons_self, hv'⟩)
  refine (hentries s.entries h).bind hanything (fun _ => ?_) fun _ hes' => hes'
  exact tells_of_silent fun _ _ hx => (List.not_mem_nil hx).elim

end Tells

/-! ## Exchanges and results together -/

/-- In every run in the world the exchanges and the result are related. -/
def Accounts {σ : Type} (world : World Answer σ) (F : List (Exchange Answer) → α → Prop)
    (p : Program Answer α) : Prop :=
  ∀ t, F (p.log world t) (p.run world t).1

section Accounts

variable {σ : Type} {world : World Answer σ} {F F' : List (Exchange Answer) → α → Prop}
  {H : List (Exchange Answer) → β → Prop}

lemma accounts_done {a : α} (h : F [] a) : (.done a : Program Answer α).Accounts world F :=
  fun _ => h

lemma accounts_question {q : ι} {F : List (Exchange Answer) → Answer q → Prop}
    (h : ∀ answer, F [⟨q, answer⟩] answer) : (question q).Accounts world F :=
  fun t => h (world q t).1

/-- The exchanges of a sequence are those of its parts. -/
theorem accounts_bind {p : Program Answer α} {k : α → Program Answer β} (hp : p.Accounts world F)
    (hk : ∀ log a, F log a → (k a).Accounts world fun log' b => H (log ++ log') b) :
    (p >>= k).Accounts world H := by
  intro t
  rw [log_bind, run_bind]
  exact hk _ _ (hp t) _

lemma Accounts.imp {p : Program Answer α} (h : p.Accounts world F)
    (himp : ∀ log a, F log a → F' log a) : p.Accounts world F' :=
  fun t => himp _ _ (h t)

/-- What is permitted whatever the world answers is all that is asked. -/
lemma Guarded.accounts {p : Program Answer α} {Q : ι → Prop}
    (h : p.Guarded (fun _ q => Q q) last) :
    p.Accounts world fun log _ => ∀ x ∈ log, Q x.1 :=
  fun _ _ hx => h.of_mem_log (fun _ _ => id) hx

end Accounts

end Program

end PipelineStacks
