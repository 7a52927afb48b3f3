import PipelineStacks.Text.Chars

/-!
# Arguments of the command line

What a user wants to know or to be done about stacks, read off the words of the command line.  The
namespace may be given before the command or behind it, and counts as given behind it if it is
given twice: `parse_namespace_in_front`.
-/

namespace PipelineStacks.CommandLine

/-- What is to be done. -/
inductive Command
  | list
  | status (name : String)
  | reconcile (name : String)
deriving DecidableEq, Repr, Inhabited

/-- A command, and the namespace that it is about. -/
structure Invocation where
  command : Command
  namespaceName : Option String := none
deriving DecidableEq, Repr, Inhabited

/-- Why there is nothing to be done. -/
inductive Refusal
  /-- Help was asked for. -/
  | help
  /-- The words make no command. -/
  | misuse
deriving DecidableEq, Repr, Inhabited

/-- Options that have a value. -/
inductive OptionName
  | inNamespace
  | stackName
deriving DecidableEq, Repr, Inhabited

/-! ## Words -/

/-- How a word of the command line reads. -/
inductive Word
  /-- An option, perhaps with its value in the same word. -/
  | option (name : OptionName) (value : Option String)
  | help
  /-- Two hyphens: no option stands behind them. -/
  | endMark
  | operand
  | unknown
deriving DecidableEq, Repr, Inhabited

/-- How a word reads that starts with two hyphens. -/
def Word.ofLong (cs : List Char) : Word :=
  let (name, value) := match Text.splitOnce? '=' cs with
    | some (name, value) => (name, some (String.ofList value))
    | none => (cs, none)
  if name = "namespace".toList then .option .inNamespace value
  else if name = "name".toList then .option .stackName value
  else if name = "help".toList ∧ value = none then .help
  else .unknown

/-- How a word reads. -/
def Word.ofText (word : String) : Word :=
  match word.toList with
  | ['-', '-'] => .endMark
  | '-' :: '-' :: cs => ofLong cs
  | ['-', 'n'] => .option .inNamespace none
  | '-' :: 'n' :: '=' :: cs => .option .inNamespace (some (String.ofList cs))
  | '-' :: 'n' :: cs => .option .inNamespace (some (String.ofList cs))
  | '-' :: 'h' :: _ => .help
  | '-' :: _ :: _ => .unknown
  | _ => .operand

/-! ## Commands -/

/-- The values of options. -/
structure Given where
  namespaceName : Option String := none
  name : Option String := none
deriving DecidableEq, Repr, Inhabited

/-- Takes in the value of an option; a second value is refused. -/
def Given.set (g : Given) (option : OptionName) (value : String) : Except Refusal Given :=
  match option with
  | .inNamespace =>
    if g.namespaceName.isSome then .error .misuse else .ok { g with namespaceName := some value }
  | .stackName => if g.name.isSome then .error .misuse else .ok { g with name := some value }

/-- Takes in the options in front of the first word that is none. -/
def takeOptions (allowed : List OptionName) (g : Given) :
    List String → Except Refusal (Given × List String)
  | [] => .ok (g, [])
  | word :: rest =>
    match Word.ofText word with
    | .operand | .endMark => .ok (g, word :: rest)
    | .help => .error .help
    | .unknown => .error .misuse
    | .option option value =>
      if !allowed.contains option then .error .misuse
      else
        match value, rest with
        | some value, rest => do takeOptions allowed (← g.set option value) rest
        | none, value :: rest =>
          if Word.ofText value = .operand then do takeOptions allowed (← g.set option value) rest
          else .error .misuse
        | none, [] => .error .misuse

/-- Takes in the options of a command, behind which nothing is left. -/
def takeLast (allowed : List OptionName) (words : List String) : Except Refusal Given := do
  match ← takeOptions allowed {} words with
  | (g, []) | (g, ["--"]) => return g
  | _ => .error .misuse

/-- The name of a command. -/
def isCommandName (word : String) : Bool :=
  ["list", "status", "reconcile", "help"].contains word

/-- Reads the words behind the name of a command. -/
def parseCommand (namespaceName : Option String) (name : String) (words : List String) :
    Except Refusal Invocation := do
  let about (command : String → Command) : Except Refusal Invocation := do
    let g ← takeLast [.inNamespace, .stackName] words
    match g.name with
    | some name => return ⟨command name, g.namespaceName <|> namespaceName⟩
    | none => .error .misuse
  match name with
  | "list" => do
    let g ← takeLast [.inNamespace] words
    return ⟨.list, g.namespaceName <|> namespaceName⟩
  | "status" => about .status
  | "reconcile" => about .reconcile
  | "help" =>
    match words with
    | [] => .error .help
    | [command] => .error (if isCommandName command then .help else .misuse)
    | _ => .error .misuse
  | _ => .error .misuse

/-- Reads the words of the command line. -/
def parse (words : List String) : Except Refusal Invocation := do
  match ← takeOptions [.inNamespace] {} words with
  | (g, name :: words) => parseCommand g.namespaceName name words
  | (_, []) => .error .misuse

/-! ## The namespace in front of the command -/

/-- The words give a namespace, in one word or in two. -/
inductive GivesNamespace (ns : String) : List String → Prop
  | joined {word : String} (h : Word.ofText word = .option .inNamespace (some ns)) :
      GivesNamespace ns [word]
  | apart {word : String} (h : Word.ofText word = .option .inNamespace none)
      (hns : Word.ofText ns = .operand) : GivesNamespace ns [word, ns]

/-- The same in some namespace, unless it names one itself. -/
def Invocation.orIn (i : Invocation) (ns : Option String) : Invocation :=
  { i with namespaceName := i.namespaceName <|> ns }

/-- The options in front of a command are taken in, and the command is left. -/
theorem takeOptions_namespace {ns name : String} {front : List String}
    (hfront : GivesNamespace ns front) (hname : Word.ofText name = .operand) (words : List String) :
    takeOptions [.inNamespace] {} (front ++ name :: words) =
      .ok ({ namespaceName := some ns }, name :: words) := by
  have hset : Given.set {} .inNamespace ns = .ok { namespaceName := some ns } := rfl
  cases hfront with
  | joined h => simp [takeOptions, h, hset, hname, bind, Except.bind]
  | apart h hns => simp [takeOptions, h, hns, hset, hname, bind, Except.bind]

/-- A command is read in the same way with a namespace given before it and without one. -/
theorem parseCommand_eq_map (ns : Option String) (name : String) (words : List String) :
    parseCommand ns name words = (parseCommand none name words).map (·.orIn ns) := by
  have hor : ∀ given : Option String, (given <|> ns) = ((given <|> none) <|> ns) := by
    intro given
    cases given <;> rfl
  have hsame : ∀ (command : Command) (given : Option String),
      (.ok ⟨command, given <|> ns⟩ : Except Refusal Invocation) =
        (.ok (Invocation.orIn ⟨command, given <|> none⟩ ns)) := by
    intro command given
    rw [hor given]
    rfl
  have hnamed : ∀ (command : String → Command) (g : Given),
      (match g.name with
        | some name => .ok ⟨command name, g.namespaceName <|> ns⟩
        | none => .error .misuse : Except Refusal Invocation) =
      (match g.name with
        | some name => .ok ⟨command name, g.namespaceName <|> none⟩
        | none => .error .misuse : Except Refusal Invocation).map (·.orIn ns) := by
    intro command g
    cases g.name with
    | none => rfl
    | some name => exact hsame (command name) g.namespaceName
  unfold parseCommand
  split
  · cases takeLast [.inNamespace] words with
    | error e => rfl
    | ok g => exact hsame .list g.namespaceName
  · cases takeLast [.inNamespace, .stackName] words with
    | error e => rfl
    | ok g => exact hnamed .status g
  · cases takeLast [.inNamespace, .stackName] words with
    | error e => rfl
    | ok g => exact hnamed .reconcile g
  · split <;> rfl
  · rfl

/-- A namespace in front of a command counts unless one is given behind the command, and does not
matter otherwise. -/
theorem parse_namespace_in_front {ns name : String} {front : List String}
    (hfront : GivesNamespace ns front) (hname : Word.ofText name = .operand) (words : List String) :
    parse (front ++ name :: words) = (parse (name :: words)).map (·.orIn (some ns)) := by
  have hnone : takeOptions [.inNamespace] {} (name :: words) = .ok ({}, name :: words) := by
    rw [takeOptions, hname]
  unfold parse
  rw [takeOptions_namespace hfront hname, hnone]
  exact parseCommand_eq_map (some ns) name words

example : parse ["-n", "a", "list", "--namespace=b"] = .ok ⟨.list, some "b"⟩ := by rfl

end PipelineStacks.CommandLine
