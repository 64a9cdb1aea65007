import PriceOracle.Json.Basic
/-! The tables of a TOML document while it is read. A header opens each table once. Tables that stand on
the way to one are made as they are met, and may be opened later; those made by a dotted key may not, and
a value is closed once it is written. A dotted key may lead through any table that no header opened, but
it adds only to one that a dotted key made. -/
namespace PriceOracle.Toml

/-- How a table came to be. -/
inductive Origin where
  /-- It stood on the way to another table. -/
  | implied
  /-- A header opened it. -/
  | header
  /-- A dotted key made it. -/
  | dotted
deriving DecidableEq

/-- What stands under a name. -/
inductive Node where
  | value (j : Json)
  | table (origin : Origin) (members : List (String × Node))
  /-- Tables opened by headers of one name, the last one first. -/
  | tables (items : List (List (String × Node)))

abbrev Members := List (String × Node)

namespace Members

def get? (ms : Members) (key : String) : Option Node := (ms.find? (·.1 = key)).map (·.2)

/-- The members with `node` under a name, in place of what was there. -/
def set (key : String) (node : Node) : Members → Members
  | [] => [(key, node)]
  | m :: ms => if m.1 = key then (key, node) :: ms else m :: set key node ms

/-- Changes the table at a path, making the tables that are missing on the way. Of tables of one name
the last is meant. -/
def within (f : Members → Option Members) : (path : List String) → Members → Option Members
  | [], ms => f ms
  | key :: path, ms =>
    match get? ms key with
    | none => (within f path []).map fun inner => set key (.table .implied inner) ms
    | some (.table origin inner) => (within f path inner).map fun inner => set key (.table origin inner) ms
    | some (.tables (last :: before)) =>
      (within f path last).map fun last => set key (.tables (last :: before)) ms
    | some _ => none

/-- Opens a table by its header. -/
def openTable (key : String) (ms : Members) : Option Members :=
  match get? ms key with
  | none => some (set key (.table .header []) ms)
  | some (.table .implied inner) => some (set key (.table .header inner) ms)
  | some _ => none

/-- Opens one more table of a name by its header. -/
def openNext (key : String) (ms : Members) : Option Members :=
  match get? ms key with
  | none => some (set key (.tables [[]]) ms)
  | some (.tables items) => some (set key (.tables ([] :: items)) ms)
  | some _ => none

/-- Writes a value under a key, the first names of which are those of tables; `mayAdd` says whether
members may be added to the table at hand. -/
def writeIn (j : Json) : (mayAdd : Bool) → (key : List String) → Members → Option Members
  | _, [], _ => none
  | mayAdd, [name], ms =>
    match get? ms name with
    | none => if mayAdd then some (set name (.value j) ms) else none
    | some _ => none
  | _, name :: key, ms =>
    match get? ms name with
    | none => (writeIn j true key []).map fun inner => set name (.table .dotted inner) ms
    | some (.table .header _) => none
    | some (.table origin inner) =>
      (writeIn j (origin = .dotted) key inner).map fun inner => set name (.table origin inner) ms
    | some (.tables (last :: before)) =>
      (writeIn j false key last).map fun last => set name (.tables (last :: before)) ms
    | some _ => none

/-- Writes a value under a key of the table that lines belong to. -/
def write (j : Json) (key : List String) (ms : Members) : Option Members := writeIn j true key ms

end Members

mutual

def Node.toJson : Node → Json
  | .value j => j
  | .table _ ms => .obj (membersToJson ms)
  | .tables items => .arr (itemsToJson items).reverse

def membersToJson : List (String × Node) → List (String × Json)
  | [] => []
  | (key, node) :: ms => (key, node.toJson) :: membersToJson ms

def itemsToJson : List (List (String × Node)) → List Json
  | [] => []
  | ms :: items => .obj (membersToJson ms) :: itemsToJson items

end

end PriceOracle.Toml
