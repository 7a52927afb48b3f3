import PipelineStacks.Yaml.Node
import PipelineStacks.Yaml.Token.Stream

/-!
# The documents of a text

`Document.stream` reads the tokens of a text as documents.  Only the first document may start
without a marker.  Collections in flow style may hold collections in flow style only, and a missing
entry is an empty scalar.

Every call of the mutual readers follows a token that was taken, so the number of tokens bounds how
deep they go.
-/

namespace PipelineStacks.Yaml

/-- The state in which documents are read. -/
structure Grammar where
  tokens : List Token
  /-- The fault that ended the tokens. -/
  fault : Option SyntaxError
  /-- The anchors of this document with their numbers, each name once. -/
  anchors : List (String × Nat) := []
  /-- The tag handles of this document with what they stand for. -/
  handles : List (String × String) := []

namespace Grammar

/-- A reader of tokens. -/
abbrev Reader := StateT Grammar (Except SyntaxError)

/-- A fault that the grammar finds. -/
def refuse {α : Type} (problem : String) : Reader α :=
  fun _ => .error ⟨problem, 0, 0⟩

/-- The next token. -/
def peek : Reader Token := fun g =>
  match g.tokens, g.fault with
  | t :: _, _ => .ok (t, g)
  | [], some e => .error e
  | [], none => .error ⟨"found unexpected end of stream", 0, 0⟩

/-- Goes on by one token. -/
def skip : Reader Unit := fun g =>
  .ok ((), { g with tokens := g.tokens.drop 1 })

/-! ## Properties -/

/-- The handles that every document has. -/
def defaultHandles : List (String × String) :=
  [("!", "!"), ("!!", "tag:yaml.org,2002:")]

/-- The tag with its handle replaced by what it stands for. -/
def expandTag (handle suffix : String) : Reader String := fun g =>
  if handle = "" then .ok (suffix, g)
  else
    match (g.handles ++ defaultHandles).lookup handle with
    | some expansion => .ok (expansion ++ suffix, g)
    | none => .error ⟨"found undefined tag handle", 0, 0⟩

/-- Numbers an anchor.  A name that is used again gets a number of its own. -/
def nameAnchor : Option String → Reader (Option Nat)
  | none => pure none
  | some name => fun g =>
    let number := g.anchors.length
    let others := g.anchors.filter (·.1 ≠ name)
    .ok (some number, { g with anchors := (name, number) :: others })

/-- The anchor in front of a node, if there is one. -/
def anchor : Reader (Option String) := do
  match ← peek with
  | .anchor name => skip; return some name
  | _ => return none

/-- The tag in front of a node, if there is one. -/
def tag : Reader (Option (String × String)) := do
  match ← peek with
  | .tag handle suffix => skip; return some (handle, suffix)
  | _ => return none

/-- The anchor and the tag in front of a node, in either order. -/
def properties : Reader (Option String × Option String) := do
  let first ← anchor
  let tag ← tag
  let anchor ← if first.isNone && tag.isSome then anchor else pure first
  match tag with
  | some (handle, suffix) => return (anchor, some (← expandTag handle suffix))
  | none => return (anchor, none)

/-- The scalar that stands where nothing is written. -/
def nothing : Reader Node :=
  pure (.empty {})

/-! ## Nodes -/

/-- Where a node stands decides which collections it may be. -/
structure Place where
  /-- Collections in block style may stand here. -/
  block : Bool
  /-- A block sequence may stand here without indentation of its own. -/
  indentless : Bool

/-- In a collection in flow style. -/
def Place.flow : Place := ⟨false, false⟩

/-- The root of a document or an item of a block sequence. -/
def Place.item : Place := ⟨true, false⟩

/-- A key or a value of a block mapping. -/
def Place.entry : Place := ⟨true, true⟩

mutual

/-- A node. -/
def node (fuel : Nat) (place : Place) : Reader Node :=
  match fuel with
  | 0 => refuse "found a document that is nested too deeply"
  | fuel + 1 => do
    match ← peek with
    | .alias name =>
      match (← get).anchors.lookup name with
      | some number => skip; return .alias number
      | none => refuse "found an unknown anchor"
    | _ =>
      let (name, tag) ← properties
      let named : Reader Properties := do return ⟨← nameAnchor name, tag⟩
      match ← peek with
      | .blockEntry =>
        if place.indentless then
          let p ← named
          return .sequence p (← indentlessItems fuel)
        else if name.isSome || tag.isSome then return .empty (← named)
        else refuse "did not find expected node content"
      | .scalar text plain => skip; return .scalar (← named) text plain
      | .flowSequenceStart =>
        let p ← named
        skip
        return .sequence p (← flowItems fuel true)
      | .flowMappingStart =>
        let p ← named
        skip
        return .mapping p (← flowEntries fuel true)
      | .blockSequenceStart =>
        if place.block then
          let p ← named
          skip
          return .sequence p (← blockItems fuel)
        else if name.isSome || tag.isSome then return .empty (← named)
        else refuse "did not find expected node content"
      | .blockMappingStart =>
        if place.block then
          let p ← named
          skip
          return .mapping p (← blockEntries fuel)
        else if name.isSome || tag.isSome then return .empty (← named)
        else refuse "did not find expected node content"
      | _ =>
        if name.isSome || tag.isSome then return .empty (← named)
        else refuse "did not find expected node content"

/-- The items of a block sequence, up to its end. -/
def blockItems (fuel : Nat) : Reader (List Node) :=
  match fuel with
  | 0 => refuse "found a document that is nested too deeply"
  | fuel + 1 => do
    match ← peek with
    | .blockEntry =>
      skip
      let item ← match ← peek with
        | .blockEntry | .blockEnd => nothing
        | _ => node fuel .item
      return item :: (← blockItems fuel)
    | .blockEnd => skip; return []
    | _ => refuse "did not find expected '-' indicator"

/-- The items of a block sequence without indentation of its own.  Whatever is no item ends it. -/
def indentlessItems (fuel : Nat) : Reader (List Node) :=
  match fuel with
  | 0 => refuse "found a document that is nested too deeply"
  | fuel + 1 => do
    match ← peek with
    | .blockEntry =>
      skip
      let item ← match ← peek with
        | .blockEntry | .key | .value | .blockEnd => nothing
        | _ => node fuel .item
      return item :: (← indentlessItems fuel)
    | _ => return []

/-- The entries of a block mapping, up to its end. -/
def blockEntries (fuel : Nat) : Reader (List (Node × Node)) :=
  match fuel with
  | 0 => refuse "found a document that is nested too deeply"
  | fuel + 1 => do
    match ← peek with
    | .key =>
      skip
      let key ← match ← peek with
        | .key | .value | .blockEnd => nothing
        | _ => node fuel .entry
      let value ← match ← peek with
        | .value => do
          skip
          match ← peek with
          | .key | .value | .blockEnd => nothing
          | _ => node fuel .entry
        | _ => nothing
      return (key, value) :: (← blockEntries fuel)
    | .blockEnd => skip; return []
    | _ => refuse "did not find expected key"

/-- The items of a sequence in flow style, up to its end.  A key stands for a mapping with one
entry. -/
def flowItems (fuel : Nat) (first : Bool) : Reader (List Node) :=
  match fuel with
  | 0 => refuse "found a document that is nested too deeply"
  | fuel + 1 => do
    match ← peek with
    | .flowSequenceEnd => skip; return []
    | t =>
      if !first then
        if t = .flowEntry then skip else refuse "did not find expected ',' or ']'"
      match ← peek with
      | .flowSequenceEnd => skip; return []
      | .key =>
        skip
        let entry ← flowPair fuel
        return .mapping {} [entry] :: (← flowItems fuel false)
      | _ =>
        let item ← node fuel .flow
        return item :: (← flowItems fuel false)

/-- The entry that a key in a sequence starts.  Where no key is written, the next token is taken
in its stead. -/
def flowPair (fuel : Nat) : Reader (Node × Node) :=
  match fuel with
  | 0 => refuse "found a document that is nested too deeply"
  | fuel + 1 => do
    let key ← match ← peek with
      | .value | .flowEntry | .flowSequenceEnd => do skip; nothing
      | _ => node fuel .flow
    let value ← match ← peek with
      | .value => do
        skip
        match ← peek with
        | .flowEntry | .flowSequenceEnd => nothing
        | _ => node fuel .flow
      | _ => nothing
    return (key, value)

/-- The entries of a mapping in flow style, up to its end. -/
def flowEntries (fuel : Nat) (first : Bool) : Reader (List (Node × Node)) :=
  match fuel with
  | 0 => refuse "found a document that is nested too deeply"
  | fuel + 1 => do
    match ← peek with
    | .flowMappingEnd => skip; return []
    | t =>
      if !first then
        if t = .flowEntry then skip else refuse "did not find expected ',' or '\x7d'"
      match ← peek with
      | .flowMappingEnd => skip; return []
      | .key =>
        skip
        let key ← match ← peek with
          | .value | .flowEntry | .flowMappingEnd => nothing
          | _ => node fuel .flow
        let value ← match ← peek with
          | .value => do
            skip
            match ← peek with
            | .flowEntry | .flowMappingEnd => nothing
            | _ => node fuel .flow
          | _ => nothing
        return (key, value) :: (← flowEntries fuel false)
      | _ =>
        let key ← node fuel .flow
        return (key, .empty {}) :: (← flowEntries fuel false)

end

/-! ## Documents -/

/-- The directives in front of a document. -/
def directives (fuel : Nat) (versioned : Bool) : Reader Unit :=
  match fuel with
  | 0 => pure ()
  | fuel + 1 => do
    match ← peek with
    | .versionDirective major minor =>
      if versioned then refuse "found duplicate %YAML directive"
      else if major ≠ 1 ∨ (minor ≠ 1 ∧ minor ≠ 2) then refuse "found incompatible YAML document"
      else
        skip
        directives fuel true
    | .tagDirective handle expansion =>
      if ((← get).handles.lookup handle).isSome then refuse "found duplicate %TAG directive"
      else
        skip
        modify fun g => { g with handles := g.handles ++ [(handle, expansion)] }
        directives fuel versioned
    | _ => pure ()

/-- Passes over markers for the end of a document. -/
def skipEnds (fuel : Nat) : Reader Unit :=
  match fuel with
  | 0 => pure ()
  | fuel + 1 => do
    match ← peek with
    | .documentEnd =>
      skip
      skipEnds fuel
    | _ => pure ()

/-- The root of a document behind its marker. -/
def content (fuel : Nat) : Reader Node := do
  match ← peek with
  | .versionDirective .. | .tagDirective .. | .documentStart | .documentEnd | .streamEnd => nothing
  | _ => node fuel .item

/-- A document that starts with its directives and its marker. -/
def marked (fuel : Nat) : Reader Node := do
  directives fuel false
  match ← peek with
  | .documentStart =>
    skip
    content fuel
  | _ => refuse "did not find expected <document start>"

/-- The next document; none at the end of the text. -/
def document (fuel : Nat) (first : Bool) : Reader (Option Node) := do
  modify fun g => { g with anchors := [], handles := [] }
  if !first then skipEnds fuel
  let root ← match ← peek with
    | .streamEnd => return none
    | .versionDirective .. | .tagDirective .. | .documentStart => marked fuel
    | _ => if first then node fuel .item else marked fuel
  match ← peek with
  | .documentEnd => skip
  | _ => pure ()
  return some root

/-- All documents. -/
def documents (fuel depth : Nat) (first : Bool) (g : Grammar) : DocumentStream :=
  match fuel with
  | 0 => ⟨[], none⟩
  | fuel + 1 =>
    match document depth first g with
    | .error e => ⟨[], some e⟩
    | .ok (none, _) => ⟨if first then [⟨none⟩] else [], none⟩
    | .ok (some root, g) =>
      let rest := documents fuel depth false g
      ⟨⟨some root⟩ :: rest.documents, rest.fault⟩

end Grammar

/-- The documents of a text. -/
def Document.stream (text : List Char) : DocumentStream :=
  let tokens := Token.stream text
  let size := tokens.tokens.length
  Grammar.documents (size + 1) (2 * size + 4) true ⟨tokens.tokens.drop 1, tokens.fault, [], []⟩

end PipelineStacks.Yaml
