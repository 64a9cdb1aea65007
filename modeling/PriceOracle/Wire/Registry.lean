import PriceOracle.Registry.Basic
import PriceOracle.Wire.Scalar
/-! The JSON forms of registry entries, hints and changes of stake. -/
namespace PriceOracle

def OracleEntry.toJson (e : OracleEntry) : Json :=
  .obj [("owner", e.owner.toJson), ("address", e.address.toJson), ("name", .str e.name),
    ("stake", Amount.toJson e.stake), ("subscribed_pairs", .arr (e.subscribedPairs.keys.map CoinPair.toJson)),
    ("seq", .nat e.seq)]

def PrevHint.toJson : PrevHint → Json
  | head => .obj [("kind", .str "head")]
  | after owner => .obj [("kind", .str "after"), ("owner", owner.toJson)]

/-- A hint from a record. The head has no owner, or a null one. -/
def PrevHint.ofJson? (j : Json) : Option PrevHint := do
  let f ← Json.Fields.of? ["kind", "owner"] j
  match ← f.get "kind" Json.choice? with
  | "head" =>
    match ← f.option "owner" Address.ofJson? with
    | none => some head
    | some _ => none
  | "after" => return after (← f.get "owner" Address.ofJson?)
  | _ => none

/-- A change of stake as an object with one member. -/
def StakeDelta.toJson : StakeDelta → Json
  | increase amount => .obj [("increase", Amount.toJson amount)]
  | decrease amount => .obj [("decrease", Amount.toJson amount)]

def StakeDelta.ofJson? : Json → Option StakeDelta
  | .obj [("increase", j)] => (Amount.ofJson? j).map increase
  | .obj [("decrease", j)] => (Amount.ofJson? j).map decrease
  | _ => none

end PriceOracle
