import PipelineStacks.Proofs.DirectiveGrammar
import PipelineStacks.Proofs.Utf8RoundTrip

/-!
# Rendering, line by line

`Template.renderLines` walks over the lines of a text and gathers substitutions on its way.  Here
each line is described by itself: `Template.Offends` says for which fault it is refused, whatever
stands around it, and `Template.renderedLine` what it becomes, given the lines before it.

The step is `Template.renderLines_cons`, the run `Template.renderLines_eq`: a text is refused with
the fault of its first line that offends, and otherwise becomes its lines, each rendered by what
stands before it.  `Template.render_line_by_line` puts this together with the reading of bytes,
and draws two consequences: a text without directives stays as it is, and what is appended behind
a line feed changes nothing in front of it.
-/

namespace PipelineStacks

namespace Template

variable {context : RenderContext}

/-! ## What is wrong with a line -/

/-- A line that cannot be rendered, and why: it asks for a key that has no value, or it is a
comment with the marker of directives and spells none. -/
inductive Offends (context : RenderContext) : List Char → Fault → Prop
  | unknownKey {line : List Char} {d : Directive} :
      Spells (body line) d → context.get? d.key = none → Offends context line (.unknownKey d.key)
  | malformed {line : List Char} : Marked (body line) → (∀ d, ¬ Spells (body line) d) →
      Offends context line (.malformed (String.ofList (Text.trim (body line))))

/-- The fault of a line. -/
def fault? (context : RenderContext) (line : List Char) : Option Fault :=
  match directive? (body line) with
  | some d =>
    match context.get? d.key with
    | none => some (.unknownKey d.key)
    | some _ => none
  | none =>
    if looksLikeDirective (body line) then
      some (.malformed (String.ofList (Text.trim (body line))))
    else none

theorem not_spells_of_none {line : List Char} (h : directive? line = none) (d : Directive) :
    ¬ Spells line d := by
  intro hd
  rw [directive?_eq_some_iff.mpr hd] at h
  cases h

theorem fault?_eq_some_iff {line : List Char} {fault : Fault} :
    fault? context line = some fault ↔ Offends context line fault := by
  constructor
  · intro h
    unfold fault? at h
    split at h
    · next d hd =>
      split at h
      · next hkey =>
        rw [← Option.some.inj h]
        exact .unknownKey (directive?_eq_some_iff.mp hd) hkey
      · cases h
    · next hd =>
      split at h
      · next hmarked =>
        rw [← Option.some.inj h]
        exact .malformed (looksLikeDirective_iff.mp hmarked) (not_spells_of_none hd)
      · cases h
  · intro h
    cases h with
    | unknownKey hd hkey => simp only [fault?, directive?_eq_some_iff.mpr hd, hkey]
    | malformed hmarked hnone =>
      cases hd : directive? (body line) with
      | some d => exact absurd (directive?_eq_some_iff.mp hd) (hnone d)
      | none => simp only [fault?, hd, looksLikeDirective_iff.mpr hmarked, if_true]

theorem fault?_eq_none_iff {line : List Char} :
    fault? context line = none ↔ ∀ fault, ¬ Offends context line fault := by
  simp only [← fault?_eq_some_iff, Option.eq_none_iff_forall_ne_some, ne_eq]

/-! ## What becomes of a line -/

/-- What a line has replaced in the lines behind it. -/
def substitutionOf (context : RenderContext) (line : List Char) : Option Substitution := do
  let d ← directive? (body line)
  let value ← context.get? d.key
  return ⟨d.pattern, value.toList⟩

/-- A line behind others: a directive stays, in any other line the texts that the directives
before it name are replaced, one directive after the other. -/
def renderedLine (context : RenderContext) (earlier : List (List Char)) (line : List Char) :
    List Char :=
  if (directive? (body line)).isSome then line
  else substitute (earlier.filterMap (substitutionOf context)) line

/-- The lines behind others, each with what stands before it. -/
def renderedFrom (context : RenderContext) (earlier ls : List (List Char)) : List (List Char) :=
  ls.mapIdx fun i line => renderedLine context (earlier ++ ls.take i) line

@[simp]
theorem renderedFrom_nil (earlier : List (List Char)) : renderedFrom context earlier [] = [] :=
  rfl

@[simp]
theorem renderedFrom_cons (earlier : List (List Char)) (line : List Char)
    (ls : List (List Char)) :
    renderedFrom context earlier (line :: ls) =
      renderedLine context earlier line :: renderedFrom context (earlier ++ [line]) ls := by
  simp [renderedFrom, List.mapIdx_cons]

theorem renderedFrom_append (earlier ls ls' : List (List Char)) :
    renderedFrom context earlier (ls ++ ls') =
      renderedFrom context earlier ls ++ renderedFrom context (earlier ++ ls) ls' := by
  induction ls generalizing earlier with
  | nil => simp
  | cons line ls ih => simp [ih]

/-! ## All lines -/

/-- One line: it is refused by itself, or rendered and its substitution added. -/
theorem renderLines_cons (earlier : List (List Char)) (line : List Char)
    (ls : List (List Char)) :
    renderLines context (earlier.filterMap (substitutionOf context)) (line :: ls) =
      match fault? context line with
      | some fault => .error fault
      | none =>
        (renderLines context ((earlier ++ [line]).filterMap (substitutionOf context)) ls).map
          (renderedLine context earlier line ++ ·) := by
  have hearlier : (earlier ++ [line]).filterMap (substitutionOf context) =
      earlier.filterMap (substitutionOf context) ++ [line].filterMap (substitutionOf context) :=
    List.filterMap_append
  cases hd : directive? (body line) with
  | some d =>
    cases hvalue : context.get? d.key with
    | none => simp only [renderLines, fault?, hd, hvalue]
    | some value =>
      have hline : substitutionOf context line = some ⟨d.pattern, value.toList⟩ := by
        simp [substitutionOf, hd, hvalue]
      rw [hearlier, List.filterMap_cons_some hline, List.filterMap_nil]
      simp only [renderLines, fault?, renderedLine, hd, hvalue, Option.isSome_some, if_true]
  | none =>
    have hline : substitutionOf context line = none := by
      simp [substitutionOf, hd]
    rw [hearlier, List.filterMap_cons_none hline, List.filterMap_nil, List.append_nil]
    simp only [renderLines, fault?, renderedLine, hd]
    split <;> rfl

/-- All lines: the first fault, or each line as what stands before it makes it. -/
theorem renderLines_eq (earlier ls : List (List Char)) :
    renderLines context (earlier.filterMap (substitutionOf context)) ls =
      match ls.findSome? (fault? context) with
      | some fault => .error fault
      | none => .ok (renderedFrom context earlier ls).flatten := by
  induction ls generalizing earlier with
  | nil => rfl
  | cons line ls ih =>
    rw [renderLines_cons, List.findSome?_cons]
    cases hfault : fault? context line with
    | some fault => rfl
    | none =>
      dsimp only
      rw [ih]
      cases ls.findSome? (fault? context) with
      | some fault => rfl
      | none => rw [renderedFrom_cons, List.flatten_cons]; rfl

theorem renderText_eq (context : RenderContext) (text : List Char) :
    renderText context text =
      match (lines text).findSome? (fault? context) with
      | some fault => .error fault
      | none => .ok (renderedFrom context [] (lines text)).flatten :=
  renderLines_eq [] (lines text)

/-- The fault of the first line that offends. -/
def FirstOffence (context : RenderContext) (ls : List (List Char)) (fault : Fault) : Prop :=
  ∃ earlier line later, ls = earlier ++ line :: later ∧ Offends context line fault ∧
    ∀ l ∈ earlier, ∀ f, ¬ Offends context l f

theorem findSome?_fault?_iff {ls : List (List Char)} {fault : Fault} :
    ls.findSome? (fault? context) = some fault ↔ FirstOffence context ls fault := by
  rw [List.findSome?_eq_some_iff]
  simp only [fault?_eq_some_iff, fault?_eq_none_iff, FirstOffence]

theorem findSome?_fault?_eq_none_iff {ls : List (List Char)} :
    ls.findSome? (fault? context) = none ↔ ∀ line ∈ ls, ∀ fault, ¬ Offends context line fault := by
  rw [List.findSome?_eq_none_iff]
  simp only [fault?_eq_none_iff]

theorem renderText_eq_error_iff {text : List Char} {fault : Fault} :
    renderText context text = .error fault ↔ FirstOffence context (lines text) fault := by
  rw [renderText_eq, ← findSome?_fault?_iff]
  cases (lines text).findSome? (fault? context) <;> simp

theorem renderText_eq_ok_iff {text out : List Char} :
    renderText context text = .ok out ↔
      (∀ line ∈ lines text, ∀ fault, ¬ Offends context line fault) ∧
        out = (renderedFrom context [] (lines text)).flatten := by
  rw [renderText_eq, ← findSome?_fault?_eq_none_iff]
  cases (lines text).findSome? (fault? context) <;> simp [eq_comm]

/-! ## Consequences for texts -/

theorem substitutionOf_eq_none {line : List Char} (h : ∀ d, ¬ Spells (body line) d) :
    substitutionOf context line = none := by
  have hnone : directive? (body line) = none := by
    cases hd : directive? (body line) with
    | none => rfl
    | some d => exact absurd (directive?_eq_some_iff.mp hd) (h d)
  simp [substitutionOf, hnone]

/-- Lines without directives before and among them stay as they are. -/
theorem renderedFrom_eq_self {earlier ls : List (List Char)}
    (hearlier : ∀ line ∈ earlier, ∀ d, ¬ Spells (body line) d)
    (h : ∀ line ∈ ls, ∀ d, ¬ Spells (body line) d) : renderedFrom context earlier ls = ls := by
  induction ls generalizing earlier with
  | nil => rfl
  | cons line ls ih =>
    have hsubs : earlier.filterMap (substitutionOf context) = [] := by
      rw [List.filterMap_eq_nil_iff]
      intro l hl
      exact substitutionOf_eq_none (hearlier l hl)
    have hline : renderedLine context earlier line = line := by
      rw [renderedLine, hsubs]
      exact ite_self line
    have hrest : renderedFrom context (earlier ++ [line]) ls = ls := by
      apply ih
      · intro l hl
        obtain hl | hl := List.mem_append.mp hl
        · exact hearlier l hl
        · exact h l (List.mem_cons.mpr (Or.inl (List.mem_singleton.mp hl)))
      · intro l hl
        exact h l (List.mem_cons_of_mem line hl)
    rw [renderedFrom_cons, hline, hrest]

theorem eq_of_renderText {text out : List Char}
    (h : ∀ line ∈ lines text, ∀ d, ¬ Spells (body line) d)
    (hout : renderText context text = .ok out) : out = text := by
  obtain ⟨-, rfl⟩ := renderText_eq_ok_iff.mp hout
  rw [renderedFrom_eq_self (by simp) h, lines_flatten]

/-- What stands in front of a line feed is rendered by itself, whatever follows. -/
theorem renderText_append {front text out : List Char} (hfront : front.getLast? = some '\n')
    (hout : renderText context (front ++ text) = .ok out) :
    ∃ start, renderText context front = .ok start ∧ start <+: out := by
  obtain ⟨hfine, rfl⟩ := renderText_eq_ok_iff.mp hout
  rw [lines_append hfront] at hfine ⊢
  refine ⟨_, renderText_eq_ok_iff.mpr ⟨?_, rfl⟩, ?_⟩
  · intro line hline
    exact hfine line (List.mem_append_left _ hline)
  · rw [renderedFrom_append, List.flatten_append]
    exact List.prefix_append _ _

/-! ## Bytes -/

theorem render_encode (context : RenderContext) (text : List Char) :
    render context (Utf8.encode text) = (renderText context text).map Utf8.encode := by
  have hdecode : Utf8.decode (Utf8.encode text) = .ok text := Utf8.decode_eq_ok_iff.mpr rfl
  simp only [render, renderManifest, hdecode]

theorem render_of_no_text {raw : Bytes} (h : ∀ text, Utf8.encode text ≠ raw) :
    ∃ fault, render context raw = .error (.notText fault) := by
  obtain ⟨fault, hfault⟩ := Utf8.decode_fails_iff.mpr h
  refine ⟨fault, ?_⟩
  simp only [render, renderManifest, hfault]
  rfl

theorem render_encode_eq_error_iff {text : List Char} {fault : Fault} :
    render context (Utf8.encode text) = .error fault ↔ FirstOffence context (lines text) fault := by
  rw [render_encode, ← renderText_eq_error_iff]
  cases renderText context text <;> simp [Except.map]

theorem render_encode_eq_ok_iff {text : List Char} {out : Bytes} :
    render context (Utf8.encode text) = .ok out ↔
      ∃ rendered, renderText context text = .ok rendered ∧ Utf8.encode rendered = out := by
  rw [render_encode]
  cases renderText context text <;> simp [Except.map]

theorem firstOffence_exists_iff {ls : List (List Char)} :
    (∃ fault, FirstOffence context ls fault) ↔
      ∃ line ∈ ls, ∃ fault, Offends context line fault := by
  constructor
  · rintro ⟨fault, earlier, line, later, rfl, hline, -⟩
    exact ⟨line, by simp, fault, hline⟩
  · rintro ⟨line, hmem, fault, hline⟩
    cases hfound : ls.findSome? (fault? context) with
    | some first => exact ⟨first, findSome?_fault?_iff.mp hfound⟩
    | none => exact absurd hline (findSome?_fault?_eq_none_iff.mp hfound line hmem fault)

theorem render_fails_iff {raw : Bytes} :
    (∃ fault, render context raw = .error fault) ↔
      (∀ text, Utf8.encode text ≠ raw) ∨
        ∃ text, Utf8.encode text = raw ∧
          ∃ line ∈ lines text, ∃ fault, Offends context line fault := by
  constructor
  · rintro ⟨fault, hfault⟩
    by_cases htext : ∃ text, Utf8.encode text = raw
    · obtain ⟨text, rfl⟩ := htext
      have hfirst := render_encode_eq_error_iff.mp hfault
      exact Or.inr ⟨text, rfl, firstOffence_exists_iff.mp ⟨fault, hfirst⟩⟩
    · exact Or.inl (not_exists.mp htext)
  · rintro (hnone | ⟨text, rfl, hoffends⟩)
    · obtain ⟨fault, hfault⟩ := render_of_no_text hnone
      exact ⟨_, hfault⟩
    · obtain ⟨fault, hfirst⟩ := firstOffence_exists_iff.mpr hoffends
      exact ⟨fault, render_encode_eq_error_iff.mpr hfirst⟩

/-- Rendering, line by line.  It fails exactly on bytes that are no text and on texts with a line
that offends, and then with the fault of the first such line.  Otherwise each line is what the
lines strictly before it make of it: a directive stays, any other line has the texts replaced that
these name, in their order.  So a text without directives comes back byte for byte, and what stands
in front of a line feed does not depend on what follows. -/
theorem render_line_by_line (context : RenderContext) :
    (∀ text ls, lines text = ls ↔ Cut text ls) ∧
    (∀ line d, directive? line = some d ↔ Spells line d) ∧
    (∀ raw, (∃ fault, render context raw = .error fault) ↔
      (∀ text, Utf8.encode text ≠ raw) ∨
        ∃ text, Utf8.encode text = raw ∧
          ∃ line ∈ lines text, ∃ fault, Offends context line fault) ∧
    (∀ raw, (∀ text, Utf8.encode text ≠ raw) →
      ∃ fault, render context raw = .error (.notText fault)) ∧
    (∀ text fault, render context (Utf8.encode text) = .error fault ↔
      FirstOffence context (lines text) fault) ∧
    (∀ text, (∀ line ∈ lines text, ∀ fault, ¬ Offends context line fault) →
      render context (Utf8.encode text) =
        .ok (Utf8.encode ((lines text).mapIdx fun i line =>
          renderedLine context ((lines text).take i) line).flatten)) ∧
    (∀ text, (∀ line ∈ lines text, ∀ d, ¬ Spells (body line) d) →
      (∀ out, render context (Utf8.encode text) = .ok out → out = Utf8.encode text) ∧
        ((∀ line ∈ lines text, ¬ Marked (body line)) →
          render context (Utf8.encode text) = .ok (Utf8.encode text))) ∧
    (∀ front text out, front.getLast? = some '\n' →
      render context (Utf8.encode (front ++ text)) = .ok out →
        ∃ start, render context (Utf8.encode front) = .ok start ∧ start <+: out) := by
  refine ⟨fun _ _ => lines_eq_iff, fun _ _ => directive?_eq_some_iff, fun _ => render_fails_iff,
    fun _ => render_of_no_text, fun _ _ => render_encode_eq_error_iff, ?_, ?_, ?_⟩
  · intro text hfine
    have hout := renderText_eq_ok_iff.mpr ⟨hfine, rfl⟩
    exact render_encode_eq_ok_iff.mpr ⟨_, hout, by simp only [renderedFrom, List.nil_append]⟩
  · intro text hplain
    constructor
    · intro out hout
      obtain ⟨rendered, hrendered, rfl⟩ := render_encode_eq_ok_iff.mp hout
      rw [eq_of_renderText hplain hrendered]
    · intro hunmarked
      have hfine : ∀ line ∈ lines text, ∀ fault, ¬ Offends context line fault := by
        rintro line hline fault (⟨hd, -⟩ | ⟨hmarked, -⟩)
        · exact hplain line hline _ hd
        · exact hunmarked line hline hmarked
      have hout := renderText_eq_ok_iff.mpr ⟨hfine, rfl⟩
      exact render_encode_eq_ok_iff.mpr ⟨_, hout, by rw [eq_of_renderText hplain hout]⟩
  · intro front text out hfront hout
    obtain ⟨rendered, hrendered, rfl⟩ := render_encode_eq_ok_iff.mp hout
    obtain ⟨start, hstart, rest, rfl⟩ := renderText_append hfront hrendered
    refine ⟨_, render_encode_eq_ok_iff.mpr ⟨start, hstart, rfl⟩, ?_⟩
    rw [Utf8.encode_append]
    exact List.prefix_append _ _

/-- A name behind a directive takes the digest; the name before it, and the directive, stay. -/
theorem name_takes_digest_behind_directive :
    let context : RenderContext := SortedMap.empty.insert digestKey "0238ff31"
    let front := "name: D\n#Kabanero! on activate substitute Digest for text 'D'\n".toList
    let out := Utf8.encode (front ++ "name: 0238ff31\n".toList)
    render context (Utf8.encode (front ++ "name: D\n".toList)) = .ok out ∧
      ∃ start, render context (Utf8.encode front) = .ok start ∧ start <+: out := by
  intro context front out
  obtain ⟨-, -, -, -, -, -, -, happend⟩ := render_line_by_line context
  have hout : render context (Utf8.encode (front ++ "name: D\n".toList)) = .ok out := by
    rw [render_encode]
    rfl
  exact ⟨hout, happend front _ out rfl hout⟩

end Template

end PipelineStacks
