import PipelineStacks.Decimal.Binary64
import PipelineStacks.Text.Order

/-!
# Dynamic values

The value type of the cluster's wire format and of the free part of an object.  The fields of an
object are kept sorted by name, each name once; `Fields.set` keeps them so, and
`Fields.get?_set` says what it does to a look-up.
-/

namespace PipelineStacks

/-- A number: whole ones are kept apart from those written with a point or an exponent. -/
inductive Number
  | int (value : Int)
  | float (value : Binary64)
deriving DecidableEq, Repr, Inhabited

/-- A dynamic value. -/
inductive Json
  | null
  | bool (value : Bool)
  | num (value : Number)
  | str (value : String)
  | arr (items : List Json)
  | obj (fields : List (String × Json))
deriving Repr, Inhabited, BEq

/-! ## Fields of an object -/

namespace Fields

/-- The value of a field. -/
def get? {α : Type} (name : String) : List (String × α) → Option α
  | [] => none
  | (k, v) :: fields => if name = k then some v else get? name fields

/-- Puts a field in its place, replacing the one of that name. -/
def set {α : Type} (name : String) (value : α) : List (String × α) → List (String × α)
  | [] => [(name, value)]
  | (k, v) :: fields =>
    if name = k then (name, value) :: fields
    else if Order.ofString name k then (name, value) :: (k, v) :: fields
    else (k, v) :: set name value fields

/-- The fields without those of a name. -/
def erase {α : Type} (name : String) (fields : List (String × α)) : List (String × α) :=
  fields.filter fun f => f.1 ≠ name

/-- The fields put in one after the other; of equal names the last one stays. -/
def ofList {α : Type} (fields : List (String × α)) : List (String × α) :=
  fields.foldl (fun acc f => set f.1 f.2 acc) []

/-- A look-up after a field was set. -/
theorem get?_set {α : Type} (name name' : String) (value : α) (fields : List (String × α)) :
    get? name' (set name value fields) =
      if name' = name then some value else get? name' fields := by
  induction fields with
  | nil => simp [set, get?]
  | cons f fields ih =>
    obtain ⟨k, v⟩ := f
    unfold set
    split
    · next h =>
      subst h
      by_cases h' : name' = name <;> simp [get?, h']
    · next h =>
      split
      · by_cases h' : name' = name <;> simp [get?, h']
      · by_cases h' : name' = k
        · subst h'
          simp [get?, Ne.symm h]
        · simp [get?, h', ih]

/-- A look-up after a field was erased. -/
theorem get?_erase {α : Type} (name name' : String) (fields : List (String × α)) :
    get? name' (erase name fields) = if name' = name then none else get? name' fields := by
  induction fields with
  | nil => simp [erase, get?]
  | cons f fields ih =>
    obtain ⟨k, v⟩ := f
    unfold erase at ih ⊢
    by_cases hk : k = name
    · subst hk
      by_cases h' : name' = k
      · simpa [h'] using ih
      · simpa [get?, h'] using ih
    · by_cases h' : name' = k
      · subst h'
        simp [get?, hk]
      · simpa [get?, hk, h'] using ih

end Fields

namespace Json

/-- A whole number. -/
def int (i : Int) : Json :=
  .num (.int i)

/-- A natural number. -/
def nat (n : Nat) : Json :=
  .int n

/-- An object with the given fields in order of their names. -/
def object (fields : List (String × Json)) : Json :=
  .obj (Fields.ofList fields)

/-- The field of an object. -/
def field? (name : String) : Json → Option Json
  | .obj fields => Fields.get? name fields
  | _ => none

/-- The characters of a string value. -/
def string? : Json → Option String
  | .str s => some s
  | _ => none

/-- The value of a truth value. -/
def bool? : Json → Option Bool
  | .bool b => some b
  | _ => none

/-- The value of a whole number. -/
def int? : Json → Option Int
  | .num (.int i) => some i
  | _ => none

/-- The items of a list. -/
def array? : Json → Option (List Json)
  | .arr items => some items
  | _ => none

/-- The fields of an object. -/
def object? : Json → Option (List (String × Json))
  | .obj fields => some fields
  | _ => none

/-- No value. -/
def isNull : Json → Bool
  | .null => true
  | _ => false

end Json

end PipelineStacks
