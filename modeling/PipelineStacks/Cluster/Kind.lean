import PipelineStacks.Text.Chars

/-!
# Kinds of objects

A kind is addressed by its group, its version and its name.  From these follow the API version in
which objects of the kind name their type, and the path under which the cluster serves them.
`splitApiVersion` takes an API version apart; `apiVersion_splitApiVersion` puts it together again.
-/

namespace PipelineStacks

/-- A kind of object. -/
structure Kind where
  group : String
  version : String
  name : String
deriving DecidableEq, Repr, Inhabited

namespace Kind

/-- Group and version; what stands before the last slash is the group. -/
def splitApiVersion (apiVersion : String) : String × String :=
  match Text.splitLast? '/' apiVersion.toList with
  | some (group, version) => (String.ofList group, String.ofList version)
  | none => ("", apiVersion)

/-- The kind of an object that names its type by an API version. -/
def ofApiVersion (apiVersion name : String) : Kind :=
  let (group, version) := splitApiVersion apiVersion
  ⟨group, version, name⟩

/-- The version alone for the core group, else the group in front of it. -/
def apiVersion (k : Kind) : String :=
  if k.group = "" then k.version else k.group ++ "/" ++ k.version

/-- The plural of a small word by the rules of English, with the exceptions of the cluster's own
kinds. -/
def plural (word : List Char) : List Char :=
  let vowels : List Char := ['a', 'e', 'i', 'o', 'u']
  if word = "endpoints".toList ∨ word = "endpointslices".toList then word
  else if word = "nodemetrics".toList then "nodes".toList
  else if word = "podmetrics".toList then "pods".toList
  else
    match word.reverse with
    | 's' :: _ | 'x' :: _ | 'z' :: _ | 'h' :: 'c' :: _ | 'h' :: 's' :: _ => word ++ ['e', 's']
    | 'y' :: c :: before =>
      -- the rule looks at words of plain letters only
      if c ∈ vowels ∨ !(word.all fun c => c.toNat < 0x80) then word ++ ['s']
      else (c :: before).reverse ++ ['i', 'e', 's']
    | _ => word ++ ['s']

/-- The name of the collection of objects of the kind. -/
def collection (k : Kind) : String :=
  String.ofList (plural (Text.lowerAscii k.name.toList))

/-- The path of the collection, in a namespace or in all of them. -/
def path (k : Kind) (inNamespace : Option String) : String :=
  let root := if k.group = "" then "/api/" else "/apis/"
  let scope := match inNamespace with
    | some ns => "namespaces/" ++ ns ++ "/"
    | none => ""
  root ++ k.apiVersion ++ "/" ++ scope ++ k.collection

/-- A split API version is put together again, unless its group was empty. -/
theorem apiVersion_splitApiVersion {s name : String} (h : (splitApiVersion s).1 ≠ "") :
    (ofApiVersion s name).apiVersion = s := by
  unfold ofApiVersion apiVersion
  unfold splitApiVersion at h ⊢
  cases hs : Text.splitLast? '/' s.toList with
  | none => simp [hs] at h
  | some p =>
    obtain ⟨group, version⟩ := p
    simp only [hs] at h ⊢
    have hlist : s.toList = group ++ '/' :: version := by
      unfold Text.splitLast? at hs
      simp only [Option.map_eq_some_iff, Prod.mk.injEq] at hs
      obtain ⟨⟨after, before⟩, hsplit, rfl, rfl⟩ := hs
      have := Text.eq_of_splitOnce? hsplit
      have := congrArg List.reverse this
      simpa using this
    rw [if_neg h]
    apply String.toList_inj.1
    simp [hlist]

end Kind

end PipelineStacks
