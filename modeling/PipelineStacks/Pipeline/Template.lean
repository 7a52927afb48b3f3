import PipelineStacks.SortedMap
import PipelineStacks.Text.Chars
import PipelineStacks.Text.Utf8

/-!
# Rendering of manifests

A manifest is a text whose comment lines may hold directives: replace a quoted text by the value
of a key from here on.  Rendering works line by line; a directive is left as it stands and acts on
the lines after it, and a comment that looks like a directive but is none is refused.

`lines_flatten` says that cutting a text into lines loses nothing.
-/

namespace PipelineStacks

/-- The values that manifests may refer to. -/
abbrev RenderContext := SortedMap String String

namespace Template

/-- The key of the digest's first characters. -/
def digestKey : String := "Digest"

/-- The key of the name that a stack gives itself. -/
def stackNameKey : String := "StackName"

/-- The key of the name under which the cluster knows a stack. -/
def stackIdKey : String := "StackId"

/-- Why a manifest cannot be rendered. -/
inductive Fault
  | notText (fault : Utf8.Fault)
  | unknownKey (key : String)
  | malformed (line : String)
deriving DecidableEq, Repr

/-- The wording of a fault. -/
def Fault.message : Fault → String
  | notText fault => "manifest is not valid UTF-8: " ++ fault.message
  | unknownKey key => "directive references unknown key " ++ key
  | malformed line => "malformed directive: " ++ line

/-! ## Lines -/

/-- The lines of a text, each with its terminator. -/
def lines : List Char → List (List Char)
  | [] => []
  | c :: cs =>
    if c = '\n' then [c] :: lines cs
    else
      match lines cs with
      | [] => [[c]]
      | line :: rest => (c :: line) :: rest

/-- Nothing is lost between the lines. -/
theorem lines_flatten (cs : List Char) : (lines cs).flatten = cs := by
  induction cs with
  | nil => rfl
  | cons c cs ih =>
    unfold lines
    split
    · simp [ih]
    · split
      · next h => rw [h] at ih; simp_all
      · next h => rw [h] at ih; simp_all

/-- A line without its terminator. -/
def body (line : List Char) : List Char :=
  Text.dropEndWhile (fun c => c = '\r' || c = '\n') line

/-! ## Directives -/

/-- A directive: the key whose value is put in place of a text. -/
structure Directive where
  key : String
  pattern : List Char
deriving DecidableEq, Repr

/-- The text behind a word. -/
def word? (word : String) (cs : List Char) : Option (List Char) :=
  Text.dropPrefix? word.toList cs

/-- The text behind at least one blank and a word. -/
def spacedWord? (word : String) (cs : List Char) : Option (List Char) :=
  match cs with
  | c :: cs => if Text.isBlank c then word? word (Text.trimStart cs) else none
  | [] => none

/-- A character of a key. -/
def isKeyChar (c : Char) : Bool :=
  c.isAlphanum || c = '_' || c = '.'

/-- The directive that a line holds. -/
def directive? (body : List Char) : Option Directive := do
  let cs ← word? "#" (Text.trimStart body)
  let cs ← word? "Kabanero!" (Text.trimStart cs)
  let cs ← spacedWord? "on" cs
  let cs ← spacedWord? "activate" cs
  let cs ← spacedWord? "substitute" cs
  let cs ← spacedWord? "" cs
  let key := cs.takeWhile isKeyChar
  if key = [] then none
  let cs ← spacedWord? "for" (cs.dropWhile isKeyChar)
  let cs ← spacedWord? "text" cs
  let cs ← spacedWord? "'" cs
  let (pattern, cs) ← Text.splitOnce? '\'' cs
  if Text.trimStart cs = [] then some ⟨String.ofList key, pattern⟩ else none

/-- A comment that mentions the marker of directives. -/
def looksLikeDirective (body : List Char) : Bool :=
  (Text.trimStart body).head? == some '#' && Text.occursIn "Kabanero!".toList body

/-! ## Rendering -/

/-- A text and what is put in its place. -/
structure Substitution where
  pattern : List Char
  value : List Char
deriving DecidableEq, Repr

/-- Applies substitutions one after the other. -/
def substitute (subs : List Substitution) (line : List Char) : List Char :=
  subs.foldl (fun line s => Text.replaceAll s.pattern s.value line) line

/-- The lines rendered, with the substitutions of the lines before them. -/
def renderLines (context : RenderContext) (subs : List Substitution) :
    List (List Char) → Except Fault (List Char)
  | [] => .ok []
  | line :: rest =>
    match directive? (body line) with
    | some d =>
      match context.get? d.key with
      | none => .error (.unknownKey d.key)
      | some value =>
        (renderLines context (subs ++ [⟨d.pattern, value.toList⟩]) rest).map (line ++ ·)
    | none =>
      if looksLikeDirective (body line) then
        .error (.malformed (String.ofList (Text.trim (body line))))
      else (renderLines context subs rest).map (substitute subs line ++ ·)

/-- A text rendered in a context. -/
def renderText (context : RenderContext) (text : List Char) : Except Fault (List Char) :=
  renderLines context [] (lines text)

/-- The text of a manifest rendered in a context. -/
def renderManifest (context : RenderContext) (raw : Bytes) : Except Fault (List Char) :=
  match Utf8.decode raw with
  | .error fault => .error (.notText fault)
  | .ok text => renderText context text

/-- The bytes of a manifest rendered in a context. -/
def render (context : RenderContext) (raw : Bytes) : Except Fault Bytes :=
  (renderManifest context raw).map Utf8.encode

end Template

end PipelineStacks
