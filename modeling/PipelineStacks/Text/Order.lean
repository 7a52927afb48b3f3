/-!
# The order of texts

Texts are ordered by their characters from the left, and a text comes before its continuations.
`before` is this order over any order of items: lists of texts are ordered by it once more.
`IsStrictOrder.lex` says that it is a strict total order whenever the order of the items is one.
-/

namespace PipelineStacks.Order

/-- A strict total order that can be decided. -/
structure IsStrictOrder {α : Type} (before : α → α → Bool) : Prop where
  irrefl : ∀ a, before a a = false
  trans : ∀ {a b c}, before a b = true → before b c = true → before a c = true
  connected : ∀ {a b}, before a b = false → before b a = false → a = b

/-- The first place where two lists differ decides; a list comes before its continuations. -/
def lex {α : Type} (before : α → α → Bool) : List α → List α → Bool
  | _, [] => false
  | [], _ :: _ => true
  | a :: as, b :: bs => before a b || (!before b a && lex before as bs)

/-- Numbers by size. -/
def ofNat (m n : Nat) : Bool :=
  Nat.blt m n

/-- Characters by their code points. -/
def ofChar (c d : Char) : Bool :=
  ofNat c.toNat d.toNat

/-- Texts by their characters. -/
def ofString (s t : String) : Bool :=
  lex ofChar s.toList t.toList

theorem ofNat_iff {m n : Nat} : ofNat m n = true ↔ m < n := by
  simp [ofNat]

theorem ofNat_isStrictOrder : IsStrictOrder ofNat where
  irrefl n := by
    rw [← Bool.not_eq_true, ofNat_iff]
    omega
  trans h h' := by
    rw [ofNat_iff] at *
    omega
  connected h h' := by
    rw [← Bool.not_eq_true, ofNat_iff] at h h'
    omega

/-- An order of what items are told apart by is an order of the items. -/
theorem IsStrictOrder.comap {α β : Type} {before : β → β → Bool} (h : IsStrictOrder before)
    (f : α → β) (hf : ∀ {a b}, f a = f b → a = b) :
    IsStrictOrder fun a b => before (f a) (f b) where
  irrefl a := h.irrefl (f a)
  trans hab hbc := h.trans hab hbc
  connected hab hba := hf (h.connected hab hba)

/-- Where one item comes before another, the other does not come before it. -/
theorem IsStrictOrder.asymm {α : Type} {before : α → α → Bool} (h : IsStrictOrder before) {a b : α}
    (hab : before a b = true) : before b a = false := by
  cases hba : before b a with
  | false => rfl
  | true =>
    have := h.trans hab hba
    rw [h.irrefl a] at this
    exact absurd this (by simp)

theorem IsStrictOrder.lex {α : Type} {before : α → α → Bool} (h : IsStrictOrder before) :
    IsStrictOrder (lex before) where
  irrefl as := by
    induction as with
    | nil => rfl
    | cons a as ih => simp [Order.lex, h.irrefl a, ih]
  trans := by
    intro as bs cs
    induction as generalizing bs cs with
    | nil =>
      intro hab hbc
      cases bs <;> cases cs <;> simp_all [Order.lex]
    | cons a as ih =>
      intro hab hbc
      cases bs with
      | nil => simp [Order.lex] at hab
      | cons b bs =>
        cases cs with
        | nil => simp [Order.lex] at hbc
        | cons c cs =>
          simp only [Order.lex, Bool.or_eq_true, Bool.and_eq_true, Bool.not_eq_true'] at hab hbc ⊢
          rcases hab with hab | ⟨hba, hab⟩
          · rcases hbc with hbc | ⟨hcb, -⟩
            · exact .inl (h.trans hab hbc)
            · cases hac : before b c with
              | true => exact .inl (h.trans hab hac)
              | false => exact .inl (h.connected hac hcb ▸ hab)
          · cases hab' : before a b with
            | true =>
              rcases hbc with hbc | ⟨hcb, -⟩
              · exact .inl (h.trans hab' hbc)
              · cases hac : before b c with
                | true => exact .inl (h.trans hab' hac)
                | false => exact .inl (h.connected hac hcb ▸ hab')
            | false =>
              have := h.connected hab' hba
              subst this
              rcases hbc with hbc | ⟨hcb, hbc⟩
              · exact .inl hbc
              · exact .inr ⟨hcb, ih hab hbc⟩
  connected := by
    intro as bs
    induction as generalizing bs with
    | nil => intro hab hba; cases bs <;> simp_all [Order.lex]
    | cons a as ih =>
      intro hab hba
      cases bs with
      | nil => simp [Order.lex] at hba
      | cons b bs =>
        simp only [Order.lex, Bool.or_eq_false_iff, Bool.and_eq_false_iff,
          Bool.not_eq_false'] at hab hba
        have := h.connected hab.1 hba.1
        subst this
        rw [h.irrefl a] at hab hba
        simp only [Bool.false_eq_true, false_or] at hab hba
        rw [ih hab.2 hba.2]

theorem ofChar_isStrictOrder : IsStrictOrder ofChar :=
  ofNat_isStrictOrder.comap Char.toNat fun h => Char.toNat_inj.1 h

theorem ofString_isStrictOrder : IsStrictOrder ofString :=
  ofChar_isStrictOrder.lex.comap String.toList fun h => String.toList_inj.1 h

/-- The order of lists of texts. -/
def ofStrings : List String → List String → Bool :=
  lex ofString

theorem ofStrings_isStrictOrder : IsStrictOrder ofStrings :=
  ofString_isStrictOrder.lex

end PipelineStacks.Order
