import PriceOracle.Json.Reader
import PriceOracle.Json.Record
import PriceOracle.Json.Writer
import PriceOracle.Service.CallError
/-! Requests and replies, one in a line. A request is a record with a version, an id that its reply
repeats, a method and parameters. Its other members are only passed over, but none of its own may stand
twice. -/
namespace PriceOracle

structure Request where
  version : String
  id : Json
  method : String
  params : Json
deriving Inhabited

namespace Request

/-- The names of a request's members. -/
def names : List String := ["jsonrpc", "id", "method", "params"]

/-- A request from its fields. Parameters that are left out are null. -/
def ofFields? (f : Json.Fields) : Option Request := do
  return {
    version := ← f.get "jsonrpc" Json.str?
    id := ← f.get "id" some
    method := ← f.get "method" Json.str?
    params := ← f.getD "params" some .null }

/-- Reads a request's members, from the next one to the closing brace, and what follows them. -/
def readMembers : (fuel : Nat) → List (String × Json) → List Char →
    Option (List (String × Json) × List Char)
  | 0, _, _ => none
  | fuel + 1, ms, cs => do
    let (key, cs) ← Json.Reader.readKey true cs
    let (ms, cs) ←
      if key ∈ names then
        match Json.find key ms with
        | some _ => none
        | none => (Json.Reader.readValue true fuel (Json.Reader.depthLimit - 1) cs).map fun (value, cs) =>
            (ms ++ [(key, value)], cs)
      else (Json.Reader.readValue false fuel 0 cs).map fun (_, cs) => (ms, cs)
    match Json.Reader.skipBlanks cs with
    | ',' :: cs => readMembers fuel ms cs
    | '\x7d' :: cs => return (ms, cs)
    | _ => none

/-- Reads a request that is an object, after its opening brace. -/
def ofObjectText? (cs : List Char) : Option Request :=
  match readMembers (2 * cs.length + 2) [] cs with
  | some (ms, rest) => if Json.Reader.skipBlanks rest = [] then ofFields? ⟨ms, false⟩ else none
  | none => none

/-- Reads a line as a request. -/
def ofText? (cs : List Char) : Option Request :=
  match Json.Reader.skipBlanks cs with
  | '\x7b' :: cs => ofObjectText? cs
  | cs => ((Json.ofText? cs).bind (Json.Fields.of? names)).bind ofFields?

end Request

structure Reply where
  id : Json
  outcome : Except CallError Json

def Reply.toJson (r : Reply) : Json :=
  .obj [("jsonrpc", .str "2.0"), ("id", r.id),
    match r.outcome with
    | .ok result => ("result", result)
    | .error e => ("error", e.toJson)]

end PriceOracle
