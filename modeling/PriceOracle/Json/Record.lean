import PriceOracle.Json.Basic
/-! Reading records and tagged values. A record is an object, whose unknown members are passed over, or
an array with the fields in their fixed order. A field with a default may be left out, and so may an
optional one of an object; nothing but an optional field may be null. -/
namespace PriceOracle.Json

/-- Where the fields of a record are taken from. -/
structure Fields where
  values : List (String × Json)
  /-- The record was an array. -/
  positional : Bool

namespace Fields

/-- The fields of a record, by their names in order. -/
def of? (names : List String) : Json → Option Fields
  | .obj ms => some ⟨ms, false⟩
  | .arr xs => if xs.length ≤ names.length then some ⟨names.zip xs, true⟩ else none
  | _ => none

/-- The fields of a record whose array may hold more items than there are fields. -/
def ofOpen? (names : List String) : Json → Option Fields
  | .obj ms => some ⟨ms, false⟩
  | .arr xs => some ⟨names.zip xs, true⟩
  | _ => none

/-- The fields of a record that is read from objects only. -/
def ofObject? (j : Json) : Option Fields := j.members?.map (⟨·, false⟩)

variable {α : Type}

/-- A field that must be there. -/
def get (f : Fields) (name : String) (read : Json → Option α) : Option α :=
  (find name f.values).bind read

def getD (f : Fields) (name : String) (read : Json → Option α) (default : α) : Option α :=
  match find name f.values with
  | none => some default
  | some j => read j

def nullable (read : Json → Option α) : Json → Option (Option α)
  | .null => some none
  | j => (read j).map some

/-- An optional field, which an array may not leave out. -/
def option (f : Fields) (name : String) (read : Json → Option α) : Option (Option α) :=
  match find name f.values with
  | none => if f.positional then none else some none
  | some j => nullable read j

end Fields

def listOf? {α : Type} (read : Json → Option α) (j : Json) : Option (List α) :=
  j.items?.bind (·.mapM read)

/-- The tag of a tagged record, and the record without it: a member of an object, or the first item of
an array. -/
def tagged? (tag : String) : Json → Option (String × Json)
  | .obj ms =>
    match find tag ms with
    | some (.str s) => some (s, .obj (without tag ms))
    | _ => none
  | .arr (.str s :: xs) => some (s, .arr xs)
  | _ => none

/-- The name of a choice without content: a string, or an object whose only member is null. -/
def choice? : Json → Option String
  | .str s => some s
  | .obj [(s, .null)] => some s
  | _ => none

end PriceOracle.Json
