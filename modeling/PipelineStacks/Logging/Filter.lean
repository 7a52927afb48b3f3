import PipelineStacks.Logging.TraceSpec
import PipelineStacks.Settings
import PipelineStacks.Text.Order

/-!
# Log filters

A log filter is a list of directives.  Each sets the level from which on messages are shown, for
all of them or for those of a target, of a span, or of spans and events with some fields.  A filter
is written with the directives sorted: those that name fields or nothing but a target first, and
among them the more specific ones first; of two directives about the same messages the last counts.
-/

namespace PipelineStacks.Log

/-- How much is shown. -/
inductive Level
  | off
  | error
  | warn
  | info
  | debug
  | trace
deriving DecidableEq, Repr, Inhabited

namespace Level

/-- The word for a level. -/
def text : Level → String
  | off => "off"
  | error => "error"
  | warn => "warn"
  | info => "info"
  | debug => "debug"
  | trace => "trace"

/-- All levels, in the order of their numbers. -/
def all : List Level :=
  [off, error, warn, info, debug, trace]

/-- The level with a number, or with a word in any case of letters. -/
def parse? (cs : List Char) : Option Level :=
  match Environment.number? all.length (String.ofList cs) with
  | some n => all[n]?
  | none => all.find? fun level => Text.eqIgnoringCase level.text (String.ofList cs)

theorem parse?_text (l : Level) : parse? l.text.toList = some l := by
  cases l <;> decide +kernel

end Level

/-- A field that must be there, perhaps with a value. -/
structure FieldMatch where
  name : String
  value : Option String := none
deriving DecidableEq, Repr, Inhabited

/-- A field as it is written. -/
def FieldMatch.text (f : FieldMatch) : String :=
  match f.value with
  | some value => f.name ++ "=" ++ value
  | none => f.name

/-- From which level on some messages are shown. -/
structure Directive where
  target : Option String := none
  span : Option String := none
  fields : List FieldMatch := []
  level : Level := .trace
deriving DecidableEq, Repr, Inhabited

namespace Directive

/-! ## Reading -/

/-- The level behind an equals sign; nothing there shows everything. -/
def levelBehind? (cs : List Char) : Option Level :=
  if cs = [] then some .trace else Level.parse? cs

/-- The end of a directive: a level behind an equals sign, or nothing. -/
def withEnd? (d : Directive) : List Char → Option Directive
  | [] => some d
  | '=' :: cs => (levelBehind? cs).map fun level => { d with level }
  | _ => none

/-- Reads a field; a part behind a second equals sign does not count. -/
def field? (cs : List Char) : Option FieldMatch :=
  if cs = [] then none
  else
    match Text.splitWhere (· = '=') cs with
    | [name] => some ⟨String.ofList name, none⟩
    | name :: value :: _ => some ⟨String.ofList name, some (String.ofList value)⟩
    | [] => none

/-- The part behind an opening bracket: the name of a span, fields in braces, the closing bracket,
and the end. -/
def withSpan? (d : Directive) (cs : List Char) : Option Directive :=
  let name := cs.takeWhile fun c => c ≠ ']' && c ≠ '{'
  match cs.drop name.length with
  | ']' :: rest => withEnd? { d with span := some (String.ofList name) } rest
  | '{' :: rest => do
    let listed := rest.takeWhile (· ≠ '}')
    let fields ← (Text.splitWhere (· = ',') listed).mapM field?
    match rest.drop listed.length with
    | '}' :: ']' :: rest =>
      let span := if name = [] then none else some (String.ofList name)
      withEnd? { d with span, fields } rest
    | _ => none
  | _ => none

/-- A directive may start with the character.  Characters beyond ASCII count as letters. -/
def startsWithChar (c : Char) : Bool :=
  c = '-' || c = ':' || c = '_' || c = '[' || c.isAlphanum || 0x80 ≤ c.toNat

/-- Reads a directive.  A word alone is a level, or else the name of a target that is shown in
full. -/
def parse? (cs : List Char) : Option Directive :=
  let cs := Text.trim cs
  if !cs.head?.any startsWithChar then none
  else
    let word := cs.takeWhile fun c => c ≠ '=' && c ≠ '['
    let target := some (String.ofList word)
    match cs.drop word.length with
    | [] =>
      match Level.parse? word with
      | some level => some { level }
      | none => some { target }
    | '[' :: rest => withSpan? { target := if word = [] then none else target } rest
    | rest => withEnd? { target } rest

/-! ## Writing -/

/-- A directive as it is written. -/
def text (d : Directive) : String :=
  let fields := if d.fields = [] then "" else
    "\x7b" ++ String.intercalate "," (d.fields.map FieldMatch.text) ++ "\x7d"
  let bracket := if d.span.isNone && d.fields.isEmpty then "" else
    "[" ++ d.span.getD "" ++ fields ++ "]"
  let subject := d.target.getD "" ++ bracket
  if d.target.isNone && d.span.isNone && d.fields.isEmpty then d.level.text
  else subject ++ "=" ++ d.level.text

/-! ## Order -/

/-- The directive can be decided by the place of a message in the program. -/
def isStatic (d : Directive) : Bool :=
  d.span.isNone && d.fields.all (·.value.isNone)

/-- The directive depends on spans or fields. -/
def isDynamic (d : Directive) : Bool :=
  d.span.isSome || !d.fields.isEmpty

/-- A text in an order key. -/
def textKey (s : String) : List Nat :=
  s.toList.map Char.toNat

/-- Present comes after absent. -/
def presence {α : Type} (o : Option α) : Nat :=
  if o.isSome then 1 else 0

/-- What a directive is about.  A larger key is more specific; equal keys are about the same. -/
def key (d : Directive) : List (List Nat) :=
  [[(d.target.map fun t => t.utf8ByteSize + 1).getD 0], [presence d.span], [d.fields.length],
    textKey (d.target.getD ""), textKey (d.span.getD "")] ++
  d.fields.flatMap fun f => [[presence f.value], textKey f.name, textKey (f.value.getD "")]

/-- Puts a directive in its place, or in the place of one about the same messages. -/
def insert (d : Directive) : List Directive → List Directive
  | [] => [d]
  | e :: es =>
    if d.key = e.key then d :: es
    else if Order.lex (Order.lex Order.ofNat) e.key d.key then d :: e :: es
    else e :: insert d es

/-- Directives in their places. -/
def sorted (ds : List Directive) : List Directive :=
  ds.foldl (fun sorted d => insert d sorted) []

end Directive

/-- A log filter. -/
structure Filter where
  /-- Directives that are decided once for each place in the program. -/
  statics : List Directive := []
  /-- Directives that are decided anew for each span. -/
  dynamics : List Directive := []
deriving DecidableEq, Repr, Inhabited

namespace Filter

/-- The filter of some directives.  One about fields without values is of both sorts. -/
def ofDirectives (ds : List Directive) : Filter :=
  let dynamic := ds.filter (·.isDynamic)
  ⟨Directive.sorted (ds.filter (! ·.isDynamic) ++ dynamic.filter (·.isStatic)),
    Directive.sorted dynamic⟩

/-- Reads a filter: directives with commas between.  Empty parts do not count. -/
def parse? (s : String) : Option Filter :=
  let parts := (Text.splitWhere (· = ',') s.toList).filter (! ·.isEmpty)
  (parts.mapM Directive.parse?).map ofDirectives

/-- A filter as it is written. -/
def text (f : Filter) : String :=
  String.intercalate "," ((f.statics ++ f.dynamics).map Directive.text)

/-- The filter when nothing else is asked for. -/
def default : Filter :=
  ofDirectives [{ target := some "stack_controller", level := .info }]

/-- The filter of a trace specification; the default if it gives none. -/
def ofTraceSpec (spec : String) : Filter :=
  let directives := TraceSpec.toFilter spec
  if directives = "" then default else (parse? directives).getD default

/-- The filter that the environment asks for: as a filter, or else by a trace specification. -/
def ofEnvironment (env : Environment) : Filter :=
  match (env "RUST_LOG").bind parse? with
  | some f => f
  | none => ofTraceSpec ((env "TRACE_SPEC").getD "")

end Filter

end PipelineStacks.Log
