import PipelineStacks.Text.Chars

/-!
# Trace specifications

Components with levels, separated by colons or commas, become directives of a log
filter.  A star or an empty component stands for the level of everything else; parts with an
unknown level are left out.
-/

namespace PipelineStacks.TraceSpec

/-- The filter level of a level word, in any case of letters. -/
def level? (word : List Char) : Option String :=
  let word := String.ofList (Text.lowerAscii word)
  if word ∈ ["off", "none"] then some "off"
  else if word ∈ ["fatal", "severe", "error"] then some "error"
  else if word ∈ ["warning", "warn"] then some "warn"
  else if word ∈ ["info", "audit"] then some "info"
  else if word ∈ ["debug", "fine", "finer"] then some "debug"
  else if word ∈ ["trace", "finest", "all"] then some "trace"
  else none

/-- Points and hyphens are no part of a target's name. -/
def targetChar (c : Char) : Char :=
  if c = '.' ∨ c = '-' then '_' else c

/-- The directive of one part without blanks at its ends. -/
def directive? (part : List Char) : Option (List Char) :=
  let (component, level) := match Text.splitOnce? '=' part with
    | some (component, level) => (Text.trim component, Text.trim level)
    | none => (['*'], part)
  (level? level).map fun level =>
    if component = [] ∨ component = ['*'] then level.toList
    else component.map targetChar ++ '=' :: level.toList

/-- The directives of all parts. -/
def directives (spec : List Char) : List (List Char) :=
  (((Text.splitWhere (fun c => c == ':' || c == ',') spec).map Text.trim).filter
    (! ·.isEmpty)).filterMap directive?

/-- The filter of a trace specification. -/
def toFilter (spec : String) : String :=
  String.ofList (Text.joinWith [','] (directives spec.toList))

end PipelineStacks.TraceSpec
