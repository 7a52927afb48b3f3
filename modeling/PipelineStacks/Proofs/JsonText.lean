import Mathlib.Data.List.Induction
import Mathlib.Tactic.Common
import PipelineStacks.Json.Parser
import PipelineStacks.Json.Printer

/-!
# Written values are read back

The text of a value is read back as the value (`parse?_print`), if the value holds no numbers, if
the fields of its objects are in order, and if it is not nested too deeply (`Written`).  The bound
on the steps of the reader is twice the length of the text, and all induction goes by that: each
item and each member is read with what the text in front of it left of the bound.
-/

namespace PipelineStacks

/-! ## Fields in order -/

namespace Fields

/-- The names of the fields are in order, each once. -/
def Ordered {α : Type} (fields : List (String × α)) : Prop :=
  (fields.map Prod.fst).Pairwise fun a b => Order.ofString a b = true

/-- A field whose name comes behind all others is put at the end. -/
lemma set_eq_append {α : Type} {name : String} {value : α} {fields : List (String × α)}
    (h : ∀ f ∈ fields, Order.ofString f.1 name = true) :
    set name value fields = fields ++ [(name, value)] := by
  induction fields with
  | nil => rfl
  | cons f fields ih =>
    obtain ⟨k, v⟩ := f
    obtain ⟨hk, hrest⟩ := List.forall_mem_cons.mp h
    have hne : name ≠ k := by
      rintro rfl
      simp [Order.ofString_isStrictOrder.irrefl] at hk
    have hnot : ¬ Order.ofString name k = true := by
      simp [Order.ofString_isStrictOrder.asymm hk]
    rw [set, if_neg hne, if_neg hnot, ih hrest, List.cons_append]

/-- Fields in order are kept as they are. -/
theorem ofList_of_ordered {α : Type} {fields : List (String × α)} (h : Ordered fields) :
    ofList fields = fields := by
  induction fields using List.reverseRecOn with
  | nil => rfl
  | append_singleton fields f ih =>
    rw [Ordered, List.map_append, List.pairwise_append] at h
    obtain ⟨hfields, -, hlast⟩ := h
    have hstep : ofList (fields ++ [f]) = set f.1 f.2 (ofList fields) := by
      rw [ofList, List.foldl_append]
      rfl
    rw [hstep, ih hfields]
    apply set_eq_append
    intro g hg
    exact hlast g.1 (List.mem_map_of_mem hg) f.1 (by simp)

end Fields

namespace Json

/-! ## Strings -/

/-- The code unit of a small number is read from its digits. -/
lemma codePoint?_ofNat {n : Nat} (h : n < 0x20) (cs : List Char) :
    codePoint? (Hex.ofNat 4 n ++ cs) = some (Char.ofNat n, cs) := by
  have hdigit : ∀ m, Hex.digitValue? (Hex.digit (m % 16)) = some (m % 16) := fun m =>
    Hex.digitValue?_digit (Nat.mod_lt m (by decide))
  have hunit : codeUnit? (Hex.ofNat 4 n ++ cs) = some (n, cs) := by
    simp only [Hex.ofNat, List.nil_append, List.cons_append, codeUnit?, hdigit,
      Option.bind_eq_bind, Option.bind_some, Option.pure_def, Option.some.injEq, Prod.mk.injEq,
      and_true]
    omega
  have hlow : ¬ 0xDC00 ≤ n := by omega
  have hhigh : ¬ 0xD800 ≤ n := by omega
  simp [codePoint?, hunit, hlow, hhigh]

/-- An escaped character is read back. -/
lemma stringRest?_escape (fuel : Nat) (seen : List Char) (c : Char) (cs : List Char) :
    stringRest? (fuel + 1) seen (escape c ++ cs) = stringRest? fuel (c :: seen) cs := by
  -- one case for each way to write a character
  unfold escape
  split_ifs with hquote hback hn hr ht hb hf hcontrol
  · simp [stringRest?, escaped?, hquote]
  · simp [stringRest?, escaped?, hback]
  · simp [stringRest?, escaped?, hn]
  · simp [stringRest?, escaped?, hr]
  · simp [stringRest?, escaped?, ht]
  · simp [stringRest?, escaped?, hb]
  · simp [stringRest?, escaped?, hf]
  · simp only [List.cons_append, stringRest?, escaped?, codePoint?_ofNat hcontrol,
      Char.ofNat_toNat]
  · simp [stringRest?, hcontrol]

/-- The characters of a string are read back up to the closing quote. -/
lemma stringRest?_flatMap_escape {fuel : Nat} {s : List Char} (h : s.length < fuel)
    (seen cs : List Char) :
    stringRest? fuel seen (s.flatMap escape ++ '"' :: cs) =
      some (String.ofList (seen.reverse ++ s), cs) := by
  induction s generalizing fuel seen with
  | nil =>
    obtain ⟨fuel, rfl⟩ := Nat.exists_eq_add_of_lt h
    simp [stringRest?]
  | cons c s ih =>
    obtain ⟨fuel, rfl⟩ := Nat.exists_eq_succ_of_ne_zero (Nat.ne_zero_of_lt h)
    rw [List.flatMap_cons, List.append_assoc, Nat.succ_eq_add_one, stringRest?_escape,
      ih (by simpa using h)]
    simp

/-- An escaped character has one character at least. -/
lemma length_le_length_flatMap_escape (s : List Char) : s.length ≤ (s.flatMap escape).length := by
  induction s with
  | nil => exact Nat.zero_le _
  | cons c s ih =>
    have hc : 1 ≤ (escape c).length := by
      unfold escape
      split_ifs <;> simp
    rw [List.flatMap_cons, List.length_append, List.length_cons]
    omega

/-- What is left behind the opening quote of a text is read back as the text. -/
lemma stringRest?_quoted (s : String) (cs : List Char) :
    stringRest? ((s.toList.flatMap escape ++ '"' :: cs).length + 1) []
      (s.toList.flatMap escape ++ '"' :: cs) = some (s, cs) := by
  have hlength := length_le_length_flatMap_escape s.toList
  rw [stringRest?_flatMap_escape (by rw [List.length_append]; omega)]
  simp

/-! ## Values -/

/-- The value holds no numbers and no collections that are nested deeper than `depth`, and the
fields of its objects are in order. -/
inductive Written : Nat → Json → Prop
  | null {depth : Nat} : Written depth .null
  | bool {depth : Nat} (b : Bool) : Written depth (.bool b)
  | str {depth : Nat} (s : String) : Written depth (.str s)
  | arr {depth : Nat} {items : List Json} (hitems : ∀ v ∈ items, Written depth v) :
      Written (depth + 1) (.arr items)
  | obj {depth : Nat} {fields : List (String × Json)} (hordered : Fields.Ordered fields)
      (hfields : ∀ f ∈ fields, Written depth f.2) : Written (depth + 1) (.obj fields)

/-- The text of a value starts with no blank, and with no end of a list. -/
lemma exists_print_eq_cons {depth : Nat} {v : Json} (h : Written depth v) :
    ∃ c cs, print v = c :: cs ∧ isSpace c = false ∧ c ≠ ']' := by
  cases h with
  | null => exact ⟨_, _, rfl, by decide, by decide⟩
  | bool b => cases b <;> exact ⟨_, _, rfl, by decide, by decide⟩
  | str s => exact ⟨_, _, rfl, by decide, by decide⟩
  | arr _ => exact ⟨_, _, rfl, by decide, by decide⟩
  | obj _ _ => exact ⟨_, _, rfl, by decide, by decide⟩

lemma skipSpace_cons {c : Char} (h : isSpace c = false) (cs : List Char) :
    skipSpace (c :: cs) = c :: cs := by
  rw [skipSpace, List.dropWhile_cons_of_neg (by simp [h])]

/-- Nothing is skipped in front of a value. -/
lemma skipSpace_print {depth : Nat} {v : Json} (h : Written depth v) (cs : List Char) :
    skipSpace (print v ++ cs) = print v ++ cs := by
  obtain ⟨c, tail, hprint, hspace, -⟩ := exists_print_eq_cons h
  rw [hprint, List.cons_append, skipSpace_cons hspace]

/-- With a bound of twice the length of its text, a value is read off the front of a text. -/
def ReadBack (depth : Nat) (v : Json) : Prop :=
  ∀ fuel cs, 2 * (print v).length ≤ fuel → value? fuel depth (print v ++ cs) = some (v, cs)

lemma printItems_cons_cons (v w : Json) (vs : List Json) :
    printItems (v :: w :: vs) = print v ++ ',' :: printItems (w :: vs) := by
  rw [printItems]
  simp

lemma printFields_cons_cons (f g : String × Json) (fields : List (String × Json)) :
    printFields (f :: g :: fields) =
      quoted f.1 ++ ':' :: print f.2 ++ ',' :: printFields (g :: fields) := by
  rw [printFields]
  simp

/-- One item is read off the front of a text, and what follows it decides how to go on. -/
lemma items?_item {depth : Nat} {v : Json} (h : ReadBack depth v) {fuel : Nat}
    (hfuel : 2 * (print v).length ≤ fuel) (seen : List Json) (cs : List Char) :
    items? (fuel + 1) depth seen (print v ++ ',' :: cs) = items? fuel depth (v :: seen) cs ∧
      items? (fuel + 1) depth seen (print v ++ ']' :: cs) =
        some (.arr (v :: seen).reverse, cs) := by
  constructor
  · have hcomma := @skipSpace_cons ',' (by decide)
    rw [items?]
    simp only [h fuel _ hfuel, hcomma]
  · have hend := @skipSpace_cons ']' (by decide)
    rw [items?]
    simp only [h fuel _ hfuel, hend]

/-- Items are read one after the other. -/
lemma items?_printItems {depth : Nat} {v : Json} {vs : List Json}
    (h : ∀ w ∈ v :: vs, ReadBack depth w) {fuel : Nat}
    (hfuel : 2 * (printItems (v :: vs)).length < fuel) (seen : List Json) (cs : List Char) :
    items? fuel depth seen (printItems (v :: vs) ++ ']' :: cs) =
      some (.arr (seen.reverse ++ v :: vs), cs) := by
  induction vs generalizing v fuel seen with
  | nil =>
    obtain ⟨fuel, rfl⟩ := Nat.exists_eq_succ_of_ne_zero (Nat.ne_zero_of_lt hfuel)
    rw [printItems] at hfuel ⊢
    rw [(items?_item (h v (by simp)) (by omega) seen cs).2, List.reverse_cons]
  | cons w vs ih =>
    -- one step is spent on the item itself, and twice the length of its text on what is in it
    obtain ⟨fuel, rfl⟩ := Nat.exists_eq_succ_of_ne_zero (Nat.ne_zero_of_lt hfuel)
    obtain ⟨hv, hvs⟩ := List.forall_mem_cons.mp h
    rw [printItems_cons_cons, List.length_append, List.length_cons] at hfuel
    rw [printItems_cons_cons, List.append_assoc, List.cons_append,
      (items?_item hv (by omega) seen _).1, ih hvs (by omega) (v :: seen)]
    simp

/-- One member is read off the front of a text, and what follows it decides how to go on. -/
lemma members?_member {depth : Nat} {f : String × Json} (h : ReadBack depth f.2) {fuel : Nat}
    (hfuel : 2 * (print f.2).length ≤ fuel) (seen : List (String × Json)) (cs : List Char) :
    members? (fuel + 1) depth seen (quoted f.1 ++ ':' :: print f.2 ++ ',' :: cs) =
        members? fuel depth (f :: seen) cs ∧
      members? (fuel + 1) depth seen (quoted f.1 ++ ':' :: print f.2 ++ '\x7d' :: cs) =
        some (.object (f :: seen).reverse, cs) := by
  have htext : ∀ cs, quoted f.1 ++ ':' :: print f.2 ++ cs =
      '"' :: (f.1.toList.flatMap escape ++ '"' :: ':' :: (print f.2 ++ cs)) := by
    intro cs
    simp [quoted]
  have hquote := @skipSpace_cons '"' (by decide)
  have hcolon := @skipSpace_cons ':' (by decide)
  constructor
  · have hcomma := @skipSpace_cons ',' (by decide)
    rw [htext, members?]
    simp only [hquote, hcolon, hcomma, stringRest?_quoted, h fuel _ hfuel]
  · have hend := @skipSpace_cons '\x7d' (by decide)
    rw [htext, members?]
    simp only [hquote, hcolon, hend, stringRest?_quoted, h fuel _ hfuel]

/-- Members are read one after the other. -/
lemma members?_printFields {depth : Nat} {f : String × Json} {fields : List (String × Json)}
    (h : ∀ g ∈ f :: fields, ReadBack depth g.2) {fuel : Nat}
    (hfuel : 2 * (printFields (f :: fields)).length < fuel) (seen : List (String × Json))
    (cs : List Char) :
    members? fuel depth seen (printFields (f :: fields) ++ '\x7d' :: cs) =
      some (.object (seen.reverse ++ f :: fields), cs) := by
  induction fields generalizing f fuel seen with
  | nil =>
    obtain ⟨fuel, rfl⟩ := Nat.exists_eq_succ_of_ne_zero (Nat.ne_zero_of_lt hfuel)
    rw [printFields, List.length_append, List.length_cons] at hfuel
    rw [printFields, (members?_member (h f (by simp)) (by omega) seen cs).2, List.reverse_cons]
  | cons g fields ih =>
    obtain ⟨fuel, rfl⟩ := Nat.exists_eq_succ_of_ne_zero (Nat.ne_zero_of_lt hfuel)
    obtain ⟨hf, hfields⟩ := List.forall_mem_cons.mp h
    rw [printFields_cons_cons, List.length_append, List.length_append, List.length_cons,
      List.length_cons] at hfuel
    rw [printFields_cons_cons, List.append_assoc, List.cons_append,
      (members?_member hf (by omega) seen _).1, ih hfields (by omega) (f :: seen)]
    simp

/-- There is a step for the value itself. -/
lemma exists_eq_add_one_of_print {depth : Nat} {v : Json} (h : Written depth v) {fuel : Nat}
    (hfuel : 2 * (print v).length ≤ fuel) : ∃ n, fuel = n + 1 := by
  obtain ⟨c, cs, hprint, -⟩ := exists_print_eq_cons h
  rw [hprint, List.length_cons] at hfuel
  exact Nat.exists_eq_succ_of_ne_zero (by omega)

lemma readBack_null (depth : Nat) : ReadBack depth .null := by
  intro fuel cs hfuel
  have hwritten : Written depth .null := .null
  obtain ⟨fuel, rfl⟩ := exists_eq_add_one_of_print hwritten hfuel
  rfl

lemma readBack_bool (depth : Nat) (b : Bool) : ReadBack depth (.bool b) := by
  intro fuel cs hfuel
  have hwritten : Written depth (.bool b) := .bool b
  obtain ⟨fuel, rfl⟩ := exists_eq_add_one_of_print hwritten hfuel
  cases b <;> rfl

lemma readBack_str (depth : Nat) (s : String) : ReadBack depth (.str s) := by
  intro fuel cs hfuel
  have hwritten : Written depth (.str s) := .str s
  obtain ⟨fuel, rfl⟩ := exists_eq_add_one_of_print hwritten hfuel
  have htext : print (.str s) ++ cs = '"' :: (s.toList.flatMap escape ++ '"' :: cs) := by
    simp [print, quoted]
  rw [value?, skipSpace_print hwritten, htext]
  simp only [stringRest?_quoted, Option.map_some]

/-- A list is read back if its items are. -/
lemma readBack_arr {depth : Nat} {items : List Json} (hw : ∀ v ∈ items, Written depth v)
    (h : ∀ v ∈ items, ReadBack depth v) : ReadBack (depth + 1) (.arr items) := by
  intro fuel cs hfuel
  have hlength : (print (.arr items)).length = (printItems items).length + 2 := by simp [print]
  obtain ⟨fuel, rfl⟩ := Nat.exists_eq_succ_of_ne_zero (by omega : fuel ≠ 0)
  have htext : print (.arr items) ++ cs = '[' :: (printItems items ++ ']' :: cs) := by
    simp [print]
  rw [value?, skipSpace_print (Written.arr hw), htext]
  cases items with
  | nil => rfl
  | cons v vs =>
    obtain ⟨c, tail, hprint, hspace, hend⟩ : ∃ c tail,
        printItems (v :: vs) ++ ']' :: cs = c :: tail ∧ isSpace c = false ∧ c ≠ ']' := by
      obtain ⟨c, tail, hprint, hrest⟩ := exists_print_eq_cons (hw v List.mem_cons_self)
      cases vs with
      | nil => exact ⟨c, _, by rw [printItems, hprint]; rfl, hrest⟩
      | cons w vs => exact ⟨c, _, by rw [printItems_cons_cons, hprint]; rfl, hrest⟩
    have hitems := items?_printItems h (by omega : _ < fuel) [] cs
    rw [hprint] at hitems ⊢
    simp only [skipSpace_cons hspace]
    -- the list cannot end here, since no value starts with its end
    split
    · next heq =>
      cases heq
      exact (hend rfl).elim
    · exact hitems

/-- An object is read back if the values of its fields are. -/
lemma readBack_obj {depth : Nat} {fields : List (String × Json)}
    (hordered : Fields.Ordered fields) (hw : ∀ f ∈ fields, Written depth f.2)
    (h : ∀ f ∈ fields, ReadBack depth f.2) : ReadBack (depth + 1) (.obj fields) := by
  intro fuel cs hfuel
  have hlength : (print (.obj fields)).length = (printFields fields).length + 2 := by simp [print]
  obtain ⟨fuel, rfl⟩ := Nat.exists_eq_succ_of_ne_zero (by omega : fuel ≠ 0)
  have htext : print (.obj fields) ++ cs = '\x7b' :: (printFields fields ++ '\x7d' :: cs) := by
    simp [print]
  rw [value?, skipSpace_print (Written.obj hordered hw), htext]
  cases fields with
  | nil => rfl
  | cons f fields =>
    obtain ⟨tail, hprint⟩ : ∃ tail, printFields (f :: fields) ++ '\x7d' :: cs = '"' :: tail := by
      cases fields with
      | nil => exact ⟨_, by rw [printFields]; rfl⟩
      | cons g fields => exact ⟨_, by rw [printFields_cons_cons]; rfl⟩
    have hfields := members?_printFields h (by omega : _ < fuel) [] cs
    rw [hprint] at hfields ⊢
    rw [object, List.reverse_nil, List.nil_append, Fields.ofList_of_ordered hordered] at hfields
    exact hfields

/-- A written value is read off the front of a text, whatever follows. -/
theorem readBack_of_written {depth : Nat} {v : Json} (h : Written depth v) : ReadBack depth v := by
  induction h with
  | null => exact readBack_null _
  | bool b => exact readBack_bool _ b
  | str s => exact readBack_str _ s
  | arr hitems ih => exact readBack_arr hitems ih
  | obj hordered hfields ih => exact readBack_obj hordered hfields ih

/-- The text of a value is read back as the value. -/
theorem parse?_print {v : Json} (h : Written maxDepth v) : parse? (print v) = some v := by
  have hvalue := readBack_of_written h (2 * (print v).length + 2) [] (by omega)
  rw [List.append_nil] at hvalue
  rw [parse?, hvalue]
  rfl

end Json

end PipelineStacks
