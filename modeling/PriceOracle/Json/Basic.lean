import PriceOracle.Binary64
/-! JSON values. A whole number that fits a signed or an unsigned 64-bit word is kept exactly; every
other number is a double. The members of an object keep the order in which they were given. -/
namespace PriceOracle

inductive Json where
  | null
  | bool (b : Bool)
  | int (i : Int)
  | float (x : Binary64)
  | str (s : String)
  | arr (items : List Json)
  | obj (members : List (String × Json))
deriving Inhabited

namespace Json

def nat (n : Nat) : Json := .int n

/-- The value of the first member named `key`. -/
def find (key : String) : List (String × Json) → Option Json
  | [] => none
  | m :: ms => if m.1 = key then some m.2 else find key ms

/-- The members with `key` set to `value`: in place of a member of that name, else at the end. -/
def set (key : String) (value : Json) : List (String × Json) → List (String × Json)
  | [] => [(key, value)]
  | m :: ms => if m.1 = key then (key, value) :: ms else m :: set key value ms

/-- The members without those named `key`. -/
def without (key : String) (ms : List (String × Json)) : List (String × Json) :=
  ms.filter (fun m => m.1 ≠ key)

/-- The object of a list of members, where of several with one name the last counts. -/
def object (ms : List (String × Json)) : Json := .obj (ms.foldl (fun acc m => set m.1 m.2 acc) [])

def members? : Json → Option (List (String × Json))
  | .obj ms => some ms
  | _ => none

def items? : Json → Option (List Json)
  | .arr xs => some xs
  | _ => none

def str? : Json → Option String
  | .str s => some s
  | _ => none

/-- The member named `key`, if this is an object that has one. -/
def get? (j : Json) (key : String) : Option Json := j.members?.bind (find key)

/-- The number, if this is a whole number from zero to below `limit`. -/
def nat? (limit : Nat) : Json → Option Nat
  | .int i => if 0 ≤ i ∧ i.toNat < limit then some i.toNat else none
  | _ => none

def withMember (j : Json) (key : String) (value : Json) : Json :=
  match j with
  | .obj ms => .obj (set key value ms)
  | other => other

end Json

end PriceOracle
