import PipelineStacks.Proofs.ObjectStore
import PipelineStacks.Proofs.Requests

/-!
# What a run leaves in the store

What the store holds under a key after a run is decided by the requests of the run that have written
there (`kept_or_written`).  If these put nothing but objects with some property, an object that is
there stays there, and it has the property after the run if it had it before or was written
(`exists_of_puts`).  If nothing is created, a free key stays free (`free_of_no_create`).
-/

namespace PipelineStacks

open Program (Exchange)

namespace Effect

/-- The request has written under the key. -/
def WritesAt (key : ObjectKey) (x : Exchange Effect.Answer) : Prop :=
  ∃ o, x.1.written? x.2 = some (key, o)

/-- The request creates an object. -/
def isCreate : Effect → Bool
  | .create .. => true
  | _ => false

end Effect

namespace Surroundings

variable {τ α : Type} {c : Surroundings τ} {R : (e : Effect) → Effect.Answer e → Prop}
  {G : Option (Exchange Effect.Answer) → Effect → Prop} {P : α → Prop}
  {last : Option (Exchange Effect.Answer)} {p : Pass α} {key : ObjectKey} {s : Objects × τ}

/-- Under a key that is written the store holds what was put there. -/
lemma world_of_written {e : Effect} {o : Option Object}
    (h : e.written? (c.world e s).1 = some (key, o)) : (c.world e s).2.1 key = o := by
  rw [c.store_world e s, h]
  exact if_pos rfl

/-- Under other keys the store holds what it held. -/
lemma world_of_not_writesAt {e : Effect} (h : ¬ Effect.WritesAt key ⟨e, (c.world e s).1⟩) :
    (c.world e s).2.1 key = s.1 key := by
  rw [c.store_world e s]
  cases hwritten : e.written? (c.world e s).1 with
  | none => rfl
  | some written =>
    obtain ⟨key', o⟩ := written
    have hne : key ≠ key' := by
      rintro rfl
      exact h ⟨o, hwritten⟩
    exact if_neg hne

/-- Under a key the store holds what it held before the run, or what some request of the run has
written there. -/
theorem kept_or_written (h : p.Conforms R G P last) (hworld : c.world.Admits R) :
    (∀ x ∈ p.log c.world s, ¬ Effect.WritesAt key x) ∧ (p.run c.world s).2.1 key = s.1 key ∨
      ∃ last' e answer v, G last' e ∧ ⟨e, answer⟩ ∈ p.log c.world s ∧
        e.written? answer = some (key, v) ∧ (p.run c.world s).2.1 key = v := by
  induction p generalizing last s with
  | done a => exact Or.inl ⟨fun x hx => (List.not_mem_nil hx).elim, rfl⟩
  | ask q next ih =>
    have hnext := h.2 _ (hworld q s)
    rcases ih _ hnext with ⟨hnone, hsame⟩ | ⟨last', e, answer, v, he, hlog, hv, hsame⟩
    · by_cases hwrites : Effect.WritesAt key ⟨q, (c.world q s).1⟩
      · obtain ⟨v, hv⟩ := id hwrites
        exact Or.inr ⟨last, q, _, v, h.1, List.mem_cons_self, hv, hsame.trans (world_of_written hv)⟩
      · refine Or.inl ⟨List.forall_mem_cons.mpr ⟨hwrites, hnone⟩, ?_⟩
        exact hsame.trans (world_of_not_writesAt hwrites)
    · exact Or.inr ⟨last', e, answer, v, he, List.mem_cons_of_mem _ hlog, hv, hsame⟩

/-- If only objects with a property are put under a key, an object that is there is not lost.  It
has the property after the run exactly if it had it before or was written in the run. -/
theorem exists_of_puts (Good : Object → Prop) (h : p.Conforms R G P last)
    (hworld : c.world.Admits R)
    (hG : ∀ last' e answer v, G last' e → e.written? answer = some (key, v) →
      ∃ o, v = some o ∧ Good o)
    {o : Object} (ho : s.1 key = some o) :
    ∃ o', (p.run c.world s).2.1 key = some o' ∧
      (Good o' ↔ Good o ∨ ∃ x ∈ p.log c.world s, Effect.WritesAt key x) := by
  rcases kept_or_written h hworld with ⟨hnone, hsame⟩ | ⟨last', e, answer, v, he, hlog, hv, hsame⟩
  · refine ⟨o, hsame.trans ho, (or_iff_left ?_).symm⟩
    rintro ⟨x, hx, hwrites⟩
    exact hnone x hx hwrites
  · obtain ⟨o', rfl, hgood⟩ := hG last' e answer v he hv
    exact ⟨o', hsame, iff_of_true hgood (Or.inr ⟨_, hlog, some o', hv⟩)⟩

/-- If nothing is taken away, a key is free after the run exactly if it was free before and nothing
was written there. -/
theorem free_iff_of_puts (h : p.Conforms R G P last) (hworld : c.world.Admits R)
    (hG : ∀ last' e answer v, G last' e → e.written? answer = some (key, v) → v ≠ none) :
    (p.run c.world s).2.1 key = none ↔
      s.1 key = none ∧ ∀ x ∈ p.log c.world s, ¬ Effect.WritesAt key x := by
  rcases kept_or_written h hworld with ⟨hnone, hsame⟩ | ⟨last', e, answer, v, he, hlog, hv, hsame⟩
  · rw [hsame, and_iff_left hnone]
  · rw [hsame]
    exact iff_of_false (hG last' e answer v he hv) fun hfree => hfree.2 _ hlog ⟨v, hv⟩

/-- Only a creation takes a key that was free. -/
lemma free_world {e : Effect} (hcreate : e.isCreate = false) (hfree : s.1 key = none) :
    (c.world e s).2.1 key = none := by
  unfold world
  cases c.fault e s.2 with
  | some f => exact hfree
  | none =>
    cases e with
    | create kind ns o => cases hcreate
    | update kind ns o =>
      simp only [respond]
      cases hthere : s.1 ⟨kind, ns, o.nameText⟩ with
      | none => exact hfree
      | some o' =>
        have hne : key ≠ ⟨kind, ns, o.nameText⟩ := by
          rintro rfl
          rw [hfree] at hthere
          cases hthere
        exact (if_neg hne).trans hfree
    | delete kind ns name =>
      by_cases hkey : key = ⟨kind, ns, name⟩
      · exact if_pos hkey
      · exact (if_neg hkey).trans hfree
    | _ => exact hfree

/-- If nothing is created, a free key stays free. -/
theorem free_of_no_create (h : p.Conforms R G P last) (hworld : c.world.Admits R)
    (hG : ∀ last' e, G last' e → e.isCreate = false) (hfree : s.1 key = none) :
    (p.run c.world s).2.1 key = none := by
  induction p generalizing last s with
  | done a => exact hfree
  | ask q next ih =>
    exact ih _ (h.2 _ (hworld q s)) (free_world (hG last q h.1) hfree)

end Surroundings

end PipelineStacks
