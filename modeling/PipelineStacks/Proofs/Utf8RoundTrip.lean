import Mathlib.Data.List.Basic
import Mathlib.Tactic.SplitIfs
import PipelineStacks.Text.Utf8

/-!
# UTF-8 read and written

Reading by the table of lead bytes and writing by the width of a code point are inverse to each
other: a list of bytes is read as a text exactly if it is what the text is written as
(`Utf8.decode_eq_ok_iff`), so bytes that cannot be read are the bytes of no text
(`Utf8.decode_fails_iff`).

The step from one to the other goes through a single character (`Utf8.step_eq_char_iff`).  A
character is a lead byte and the bytes that it announces; `Utf8.valueOf` puts their bits together.
-/

namespace PipelineStacks.Utf8

/-! ## The bytes of one character -/

/-- The bits of a lead byte with those of the bytes behind it. -/
def valueOf (payload : Nat) (more : Bytes) : Nat :=
  more.foldl (fun value b => value * 64 + b.toNat % 64) payload

/-- The first byte lies between `low` and `high`, the others continue a character. -/
def Follows (low high : Nat) : Bytes → Prop
  | [] => True
  | b :: more => (low ≤ b.toNat ∧ b.toNat ≤ high) ∧ Follows 0x80 0xBF more

@[simp]
theorem valueOf_nil (payload : Nat) : valueOf payload [] = payload :=
  rfl

@[simp]
theorem valueOf_cons (payload : Nat) (b : UInt8) (more : Bytes) :
    valueOf payload (b :: more) = valueOf (payload * 64 + b.toNat % 64) more :=
  rfl

/-- What is read behind a lead byte. -/
theorem tail_eq_char_iff {count low high value size n : Nat} {bs rest : Bytes} {c : Char} :
    tail count low high value size bs = .char c n rest ↔
      ∃ more, bs = more ++ rest ∧ more.length = count ∧ Follows low high more ∧
        c = Char.ofNat (valueOf value more) ∧ n = size + count := by
  induction count generalizing low high value size bs with
  | zero =>
    constructor
    · intro h
      simp only [tail, Step.char.injEq] at h
      obtain ⟨hc, hn, hrest⟩ := h
      exact ⟨[], by simpa using hrest, rfl, trivial, hc.symm, hn.symm⟩
    · rintro ⟨more, hbs, hlength, -, hc, hn⟩
      have hmore : more = [] := List.length_eq_zero_iff.mp hlength
      subst hmore hbs hc hn
      rfl
  | succ count ih =>
    cases bs with
    | nil =>
      constructor
      · intro h
        simp [tail] at h
      · rintro ⟨more, hbs, hlength, -⟩
        have hmore : more = [] := (List.append_eq_nil_iff.mp hbs.symm).1
        simp [hmore] at hlength
    | cons b bs =>
      by_cases hb : low ≤ b.toNat ∧ b.toNat ≤ high
      · rw [tail, if_pos hb, ih]
        constructor
        · rintro ⟨more, rfl, hlength, hfollows, hc, hn⟩
          exact ⟨b :: more, rfl, by simp [hlength], ⟨hb, hfollows⟩, hc, by omega⟩
        · rintro ⟨more, hbs, hlength, hfollows, hc, hn⟩
          cases more with
          | nil => simp at hlength
          | cons b' more =>
            obtain ⟨rfl, rfl⟩ := List.cons_eq_cons.mp hbs
            exact ⟨more, rfl, by simpa using hlength, hfollows.2, hc, by omega⟩
      · rw [tail, if_neg hb]
        constructor
        · intro h
          simp at h
        · rintro ⟨more, hbs, hlength, hfollows, -⟩
          cases more with
          | nil => simp at hlength
          | cons b' more =>
            obtain ⟨rfl, rfl⟩ := List.cons_eq_cons.mp hbs
            exact absurd hfollows.1 hb

/-! ## The table of lead bytes -/

theorem lead?_one {b : Nat} (h : b < 0x80) : lead? b = some ⟨b, 0, 0, 0⟩ := by
  rw [lead?, if_pos h]

theorem lead?_two {b : Nat} (hlow : 0xC2 ≤ b) (hhigh : b ≤ 0xDF) :
    lead? b = some ⟨b - 0xC0, 1, 0x80, 0xBF⟩ := by
  rw [lead?, if_neg (by omega), if_pos ⟨hlow, hhigh⟩]

theorem lead?_three {b : Nat} (hlow : 0xE1 ≤ b) (hhigh : b ≤ 0xEF) (hne : b ≠ 0xED) :
    lead? b = some ⟨b - 0xE0, 2, 0x80, 0xBF⟩ := by
  rw [lead?, if_neg (by omega), if_neg (by omega), if_neg (by omega), if_neg hne,
    if_pos ⟨hlow, hhigh⟩]

theorem lead?_four {b : Nat} (hlow : 0xF1 ≤ b) (hhigh : b ≤ 0xF3) :
    lead? b = some ⟨b - 0xF0, 3, 0x80, 0xBF⟩ := by
  rw [lead?, if_neg (by omega), if_neg (by omega), if_neg (by omega), if_neg (by omega),
    if_neg (by omega), if_neg (by omega), if_pos ⟨hlow, hhigh⟩]

/-! ## Writing one character -/

/-- The bytes that a code point is written as: as few as hold its bits. -/
inductive Spelling : Nat → Bytes → Prop
  | one {v : Nat} {b : UInt8} : v < 0x80 → b.toNat = v → Spelling v [b]
  | two {v : Nat} {b b₁ : UInt8} : 0x80 ≤ v → v < 0x800 →
      b.toNat = v / 64 + 0xC0 → b₁.toNat = v % 64 + 0x80 → Spelling v [b, b₁]
  | three {v : Nat} {b b₁ b₂ : UInt8} : 0x800 ≤ v → v < 0x10000 →
      b.toNat = v / 4096 + 0xE0 → b₁.toNat = v / 64 % 64 + 0x80 → b₂.toNat = v % 64 + 0x80 →
      Spelling v [b, b₁, b₂]
  | four {v : Nat} {b b₁ b₂ b₃ : UInt8} : 0x10000 ≤ v →
      b.toNat = v / 262144 + 0xF0 → b₁.toNat = v / 4096 % 64 + 0x80 →
      b₂.toNat = v / 64 % 64 + 0x80 → b₃.toNat = v % 64 + 0x80 → Spelling v [b, b₁, b₂, b₃]

theorem toNat_charOfNat {v : Nat} (h : v.isValidChar) : (Char.ofNat v).toNat = v := by
  rw [Char.ofNat, dif_pos h]
  exact UInt32.toNat_ofNatLT

theorem toNat_byteOfNat {n : Nat} (h : n < 256) : (UInt8.ofNat n).toNat = n := by
  rw [UInt8.toNat_ofNat']
  omega

/-- A character is written in the spelling of its code point. -/
theorem spelling_encodeChar (c : Char) : Spelling c.toNat (String.utf8EncodeChar c) := by
  have hvalid : c.toNat < 0xD800 ∨ 0xDFFF < c.toNat ∧ c.toNat < 0x110000 := c.valid
  unfold String.utf8EncodeChar
  simp only [Char.toNat_val]
  split_ifs with h₁ h₂ h₃
  · exact .one (by omega) (toNat_byteOfNat (by omega))
  · refine .two (by omega) (by omega) ?_ ?_ <;> rw [toNat_byteOfNat] <;> omega
  · refine .three (by omega) (by omega) ?_ ?_ ?_ <;> rw [toNat_byteOfNat] <;> omega
  · refine .four (by omega) ?_ ?_ ?_ ?_ <;> rw [toNat_byteOfNat] <;> omega

/-- A code point has one spelling. -/
theorem Spelling.unique {v : Nat} {bs bs' : Bytes} (h : Spelling v bs) (h' : Spelling v bs') :
    bs = bs' := by
  cases h <;> cases h' <;> simp_all [← UInt8.toNat_inj] <;> omega

theorem spelling_three {p v : Nat} {b b₁ b₂ : UInt8} (hb : b.toNat = p + 0xE0) (hp : p < 16)
    (h₁ : 0x80 ≤ b₁.toNat ∧ b₁.toNat ≤ 0xBF) (h₂ : 0x80 ≤ b₂.toNat ∧ b₂.toNat ≤ 0xBF)
    (hv : (p * 64 + b₁.toNat % 64) * 64 + b₂.toNat % 64 = v) (hlow : 0x800 ≤ v) :
    Spelling v [b, b₁, b₂] := by
  refine .three hlow ?_ ?_ ?_ ?_ <;> omega

theorem spelling_four {p v : Nat} {b b₁ b₂ b₃ : UInt8} (hb : b.toNat = p + 0xF0)
    (h₁ : 0x80 ≤ b₁.toNat ∧ b₁.toNat ≤ 0xBF) (h₂ : 0x80 ≤ b₂.toNat ∧ b₂.toNat ≤ 0xBF)
    (h₃ : 0x80 ≤ b₃.toNat ∧ b₃.toNat ≤ 0xBF)
    (hv : ((p * 64 + b₁.toNat % 64) * 64 + b₂.toNat % 64) * 64 + b₃.toNat % 64 = v)
    (hlow : 0x10000 ≤ v) : Spelling v [b, b₁, b₂, b₃] := by
  refine .four hlow ?_ ?_ ?_ ?_ <;> omega

/-- The table leaves out the spellings that are too long and those of no character. -/
theorem spelling_of_lead {b : UInt8} {more : Bytes} {l : Lead} (hl : lead? b.toNat = some l)
    (hlength : more.length = l.count) (hfollows : Follows l.low l.high more) :
    (valueOf l.payload more).isValidChar ∧ Spelling (valueOf l.payload more) (b :: more) := by
  generalize hv : valueOf l.payload more = v
  unfold lead? at hl
  unfold Nat.isValidChar
  split_ifs at hl with h1 h2 h3 h4 h5 h6 h7 h8
  all_goals
    obtain rfl := Option.some.inj hl
    dsimp only at hlength hfollows hv
  · obtain rfl := List.length_eq_zero_iff.mp hlength
    rw [valueOf_nil] at hv
    exact ⟨by omega, .one (by omega) hv⟩
  · obtain ⟨b₁, rfl⟩ := List.length_eq_one_iff.mp hlength
    obtain ⟨h₁, -⟩ := hfollows
    rw [valueOf_cons, valueOf_nil] at hv
    exact ⟨by omega, .two (by omega) (by omega) (by omega) (by omega)⟩
  -- three bytes
  iterate 3
    · obtain ⟨b₁, b₂, rfl⟩ := List.length_eq_two.mp hlength
      obtain ⟨h₁, h₂, -⟩ := hfollows
      rw [valueOf_cons, valueOf_cons, valueOf_nil] at hv
      exact ⟨by omega, spelling_three (by omega) (by omega) (by omega) h₂ hv (by omega)⟩
  -- four bytes
  iterate 3
    · obtain ⟨b₁, b₂, b₃, rfl⟩ := List.length_eq_three.mp hlength
      obtain ⟨h₁, h₂, h₃, -⟩ := hfollows
      rw [valueOf_cons, valueOf_cons, valueOf_cons, valueOf_nil] at hv
      exact ⟨by omega, spelling_four (by omega) (by omega) h₂ h₃ hv (by omega)⟩

theorem lead?_of_three {v : Nat} {b b₁ b₂ : UInt8} (hvalid : v.isValidChar) (hlow : 0x800 ≤ v)
    (hhigh : v < 0x10000) (hb : b.toNat = v / 4096 + 0xE0) (hb₁ : b₁.toNat = v / 64 % 64 + 0x80)
    (hb₂ : b₂.toNat = v % 64 + 0x80) :
    ∃ l, lead? b.toNat = some l ∧ l.count = 2 ∧ Follows l.low l.high [b₁, b₂] ∧
      valueOf l.payload [b₁, b₂] = v := by
  unfold Nat.isValidChar at hvalid
  have hvalue : ((b.toNat - 0xE0) * 64 + b₁.toNat % 64) * 64 + b₂.toNat % 64 = v := by
    omega
  have hrest : Follows 0x80 0xBF [b₂] := ⟨by omega, trivial⟩
  by_cases h₀ : b.toNat = 0xE0
  -- the first byte behind it must not leave a code point that two bytes could spell
  · have h₁ : 0xA0 ≤ b₁.toNat ∧ b₁.toNat ≤ 0xBF := by omega
    rw [h₀] at hvalue
    exact ⟨⟨0, 2, 0xA0, 0xBF⟩, by rw [h₀]; rfl, rfl, ⟨h₁, hrest⟩, hvalue⟩
  · by_cases hD : b.toNat = 0xED
    -- nor one of the surrogates
    · have h₁ : 0x80 ≤ b₁.toNat ∧ b₁.toNat ≤ 0x9F := by omega
      rw [hD] at hvalue
      exact ⟨⟨0xD, 2, 0x80, 0x9F⟩, by rw [hD]; rfl, rfl, ⟨h₁, hrest⟩, hvalue⟩
    · have h₁ : 0x80 ≤ b₁.toNat ∧ b₁.toNat ≤ 0xBF := by omega
      exact ⟨_, lead?_three (by omega) (by omega) hD, rfl, ⟨h₁, hrest⟩, hvalue⟩

theorem lead?_of_four {v : Nat} {b b₁ b₂ b₃ : UInt8} (hvalid : v.isValidChar)
    (hlow : 0x10000 ≤ v) (hb : b.toNat = v / 262144 + 0xF0)
    (hb₁ : b₁.toNat = v / 4096 % 64 + 0x80) (hb₂ : b₂.toNat = v / 64 % 64 + 0x80)
    (hb₃ : b₃.toNat = v % 64 + 0x80) :
    ∃ l, lead? b.toNat = some l ∧ l.count = 3 ∧ Follows l.low l.high [b₁, b₂, b₃] ∧
      valueOf l.payload [b₁, b₂, b₃] = v := by
  unfold Nat.isValidChar at hvalid
  have hvalue : (((b.toNat - 0xF0) * 64 + b₁.toNat % 64) * 64 + b₂.toNat % 64) * 64 +
      b₃.toNat % 64 = v := by
    omega
  have hrest : Follows 0x80 0xBF [b₂, b₃] := ⟨by omega, by omega, trivial⟩
  by_cases h₀ : b.toNat = 0xF0
  · have h₁ : 0x90 ≤ b₁.toNat ∧ b₁.toNat ≤ 0xBF := by omega
    rw [h₀] at hvalue
    exact ⟨⟨0, 3, 0x90, 0xBF⟩, by rw [h₀]; rfl, rfl, ⟨h₁, hrest⟩, hvalue⟩
  · by_cases h₄ : b.toNat = 0xF4
    -- the last code point bounds the first byte behind it
    · have h₁ : 0x80 ≤ b₁.toNat ∧ b₁.toNat ≤ 0x8F := by omega
      rw [h₄] at hvalue
      exact ⟨⟨4, 3, 0x80, 0x8F⟩, by rw [h₄]; rfl, rfl, ⟨h₁, hrest⟩, hvalue⟩
    · have h₁ : 0x80 ≤ b₁.toNat ∧ b₁.toNat ≤ 0xBF := by omega
      exact ⟨_, lead?_four (by omega) (by omega), rfl, ⟨h₁, hrest⟩, hvalue⟩

/-- The table holds the spelling of every character. -/
theorem lead_of_spelling {b : UInt8} {more : Bytes} {v : Nat} (hvalid : v.isValidChar)
    (h : Spelling v (b :: more)) :
    ∃ l, lead? b.toNat = some l ∧ l.count = more.length ∧ Follows l.low l.high more ∧
      valueOf l.payload more = v := by
  cases h with
  | one hv hb => exact ⟨_, lead?_one (by omega), rfl, trivial, hb⟩
  | @two _ b₁ hlow hhigh hb hb₁ =>
    have hvalue : (b.toNat - 0xC0) * 64 + b₁.toNat % 64 = v := by omega
    have h₁ : 0x80 ≤ b₁.toNat ∧ b₁.toNat ≤ 0xBF := by omega
    exact ⟨_, lead?_two (by omega) (by omega), rfl, ⟨h₁, trivial⟩, hvalue⟩
  | three hlow hhigh hb hb₁ hb₂ => exact lead?_of_three hvalid hlow hhigh hb hb₁ hb₂
  | four hlow hb hb₁ hb₂ hb₃ => exact lead?_of_four hvalid hlow hb hb₁ hb₂ hb₃

/-! ## Reading one character -/

theorem length_encodeChar_pos (c : Char) : 0 < (String.utf8EncodeChar c).length := by
  rw [String.length_utf8EncodeChar]
  exact Char.utf8Size_pos c

/-- A step reads a character exactly where the bytes of that character stand. -/
theorem step_eq_char_iff {b : UInt8} {bs rest : Bytes} {c : Char} {n : Nat} :
    step b bs = .char c n rest ↔
      b :: bs = String.utf8EncodeChar c ++ rest ∧ n = (String.utf8EncodeChar c).length := by
  constructor
  · intro h
    unfold step at h
    cases hl : lead? b.toNat with
    | none => simp [hl] at h
    | some l =>
      simp only [hl] at h
      obtain ⟨more, rfl, hlength, hfollows, rfl, rfl⟩ := tail_eq_char_iff.mp h
      obtain ⟨hvalid, hspelling⟩ := spelling_of_lead hl hlength hfollows
      have hwritten := spelling_encodeChar (Char.ofNat (valueOf l.payload more))
      rw [toNat_charOfNat hvalid] at hwritten
      rw [hwritten.unique hspelling]
      exact ⟨rfl, by rw [List.length_cons, hlength, Nat.add_comm]⟩
  · rintro ⟨hbs, rfl⟩
    cases hc : String.utf8EncodeChar c with
    | nil => exact absurd (length_encodeChar_pos c) (by simp [hc])
    | cons b' more =>
      rw [hc] at hbs
      obtain ⟨rfl, rfl⟩ := List.cons_eq_cons.mp hbs
      have hspelling := spelling_encodeChar c
      rw [hc] at hspelling
      obtain ⟨l, hl, hlength, hfollows, hv⟩ := lead_of_spelling c.valid hspelling
      simp only [step, hl]
      refine tail_eq_char_iff.mpr ⟨more, rfl, hlength.symm, hfollows, ?_, ?_⟩
      · rw [hv]
        exact (Char.ofNat_toNat c).symm
      · rw [List.length_cons, hlength, Nat.add_comm]

/-! ## Whole texts -/

@[simp]
theorem encode_append (cs cs' : List Char) : encode (cs ++ cs') = encode cs ++ encode cs' :=
  List.flatMap_append

theorem decodeFrom_cons_char {index n : Nat} {b : UInt8} {bs rest : Bytes} {c : Char}
    (h : step b bs = .char c n rest) :
    decodeFrom index (b :: bs) = (decodeFrom (index + n) rest).map (c :: ·) := by
  rw [decodeFrom]
  split
  · next c' n' rest' h' =>
    rw [h] at h'
    obtain ⟨rfl, rfl, rfl⟩ := Step.char.inj h'
    cases decodeFrom (index + n) rest <;> rfl
  · next h' => simp [h] at h'
  · next h' => simp [h] at h'

theorem decodeFrom_cons_invalid {index n : Nat} {b : UInt8} {bs rest : Bytes}
    (h : step b bs = .invalid n rest) :
    decodeFrom index (b :: bs) = .error (.invalid n index) := by
  rw [decodeFrom]
  split
  · next h' => simp [h] at h'
  · next h' =>
    rw [h] at h'
    obtain ⟨rfl, rfl⟩ := Step.invalid.inj h'
    rfl
  · next h' => simp [h] at h'

theorem decodeFrom_cons_incomplete {index n : Nat} {b : UInt8} {bs : Bytes}
    (h : step b bs = .incomplete n) :
    decodeFrom index (b :: bs) = .error (.incomplete index) := by
  rw [decodeFrom]
  split
  · next h' => simp [h] at h'
  · next h' => simp [h] at h'
  · rfl

theorem decodeFrom_encode (index : Nat) (cs : List Char) :
    decodeFrom index (encode cs) = .ok cs := by
  induction cs generalizing index with
  | nil => rw [encode, List.flatMap_nil, decodeFrom]
  | cons c cs ih =>
    have hcons : encode (c :: cs) = String.utf8EncodeChar c ++ encode cs := List.flatMap_cons
    cases hc : String.utf8EncodeChar c with
    | nil => exact absurd (length_encodeChar_pos c) (by simp [hc])
    | cons b more =>
      have hstep : step b (more ++ encode cs) =
          .char c (String.utf8EncodeChar c).length (encode cs) :=
        step_eq_char_iff.mpr ⟨by rw [hc, List.cons_append], rfl⟩
      rw [hcons, hc, List.cons_append, decodeFrom_cons_char hstep, ih]
      rfl

theorem encode_of_decodeFrom {index : Nat} {bs : Bytes} {cs : List Char}
    (h : decodeFrom index bs = .ok cs) : encode cs = bs := by
  induction index, bs using decodeFrom.induct generalizing cs with
  | case1 index =>
    rw [decodeFrom] at h
    rw [← Except.ok.inj h]
    rfl
  | case2 index b bs _ c n rest hstep _ cs' hrest ih =>
    rw [decodeFrom_cons_char hstep, hrest] at h
    rw [← Except.ok.inj h, (step_eq_char_iff.mp hstep).1, ← ih hrest]
    exact List.flatMap_cons
  | case3 index b bs _ c n rest hstep _ fault hrest ih =>
    rw [decodeFrom_cons_char hstep, hrest] at h
    cases h
  | case4 index b bs _ n rest hstep =>
    rw [decodeFrom_cons_invalid hstep] at h
    cases h
  | case5 index b bs _ n hstep =>
    rw [decodeFrom_cons_incomplete hstep] at h
    cases h

/-- A list of bytes is read as a text exactly if that text is written so. -/
theorem decode_eq_ok_iff {bs : Bytes} {cs : List Char} : decode bs = .ok cs ↔ encode cs = bs := by
  constructor
  · exact encode_of_decodeFrom
  · rintro rfl
    exact decodeFrom_encode 0 cs

/-- Bytes are refused exactly if no text is written so. -/
theorem decode_fails_iff {bs : Bytes} :
    (∃ fault, decode bs = .error fault) ↔ ∀ cs, encode cs ≠ bs := by
  constructor
  · rintro ⟨fault, hfault⟩ cs hcs
    rw [decode_eq_ok_iff.mpr hcs] at hfault
    cases hfault
  · intro h
    cases hdecode : decode bs with
    | error fault => exact ⟨fault, rfl⟩
    | ok cs => exact absurd (decode_eq_ok_iff.mp hdecode) (h cs)

end PipelineStacks.Utf8
