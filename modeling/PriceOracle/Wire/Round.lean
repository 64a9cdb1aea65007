import PriceOracle.Feed.Publication
import PriceOracle.Feed.Switch
import PriceOracle.Wire.Staking
/-! The JSON forms of what rounds and feeds take and answer. -/
namespace PriceOracle

namespace RoundParams

/-- The parameters as members of a record. -/
def members (p : RoundParams) : List (String × Json) :=
  [("min_oracles_per_round", .nat p.minOracles), ("max_oracles_per_round", .nat p.maxOracles),
    ("max_subscribed_oracles", .nat p.maxSubscribed), ("round_lock_period_secs", .nat p.lockPeriod),
    ("valid_price_period_in_blocks", .nat p.validPeriod),
    ("emergency_publishing_period_in_blocks", .nat p.emergencyPeriod),
    ("bootstrap_price", Amount.toJson p.bootstrapPrice),
    ("read_whitelist", Address.listToJson p.readers),
    ("emergency_whitelist", Address.listToJson p.emergencyPublishers)]

def toJson (p : RoundParams) : Json := .obj p.members

/-- The parameters from the fields of a record. Each one has a default. -/
def ofFields? (f : Json.Fields) : Option RoundParams := do
  let base : RoundParams := {}
  return {
    minOracles := ← f.getD "min_oracles_per_round" Word.ofJson? base.minOracles
    maxOracles := ← f.getD "max_oracles_per_round" Word.ofJson? base.maxOracles
    maxSubscribed := ← f.getD "max_subscribed_oracles" Word.ofJson? base.maxSubscribed
    lockPeriod := ← f.getD "round_lock_period_secs" Word.ofJson? base.lockPeriod
    validPeriod := ← f.getD "valid_price_period_in_blocks" Word.ofJson? base.validPeriod
    emergencyPeriod := ← f.getD "emergency_publishing_period_in_blocks" Word.ofJson? base.emergencyPeriod
    bootstrapPrice := ← f.getD "bootstrap_price" Amount.ofJson? base.bootstrapPrice
    readers := ← f.addresses "read_whitelist"
    emergencyPublishers := ← f.addresses "emergency_whitelist" }

def ofJson? (j : Json) : Option RoundParams := do
  ofFields? (← Json.Fields.of? ["min_oracles_per_round", "max_oracles_per_round",
    "max_subscribed_oracles", "round_lock_period_secs", "valid_price_period_in_blocks",
    "emergency_publishing_period_in_blocks", "bootstrap_price", "read_whitelist",
    "emergency_whitelist"] j)

end RoundParams

def Seat.toJson (s : Seat) : Json :=
  .obj [("owner", s.owner.toJson), ("address", s.address.toJson), ("points", .nat s.points),
    ("excluded", .bool s.excluded)]

def Round.toJson (r : Round) : Json :=
  .obj [("number", .nat r.number), ("lock_until", .nat r.lockUntil),
    ("members", .arr (r.seats.map Seat.toJson)), ("below_minimum", .bool r.belowMinimum)]

def RoundInfo.toJson (i : RoundInfo) : Json :=
  .obj [("number", .nat i.number), ("lock_until", .nat i.lockUntil),
    ("selected", Address.listToJson i.selected), ("total_points", .nat i.totalPoints),
    ("below_minimum", .bool i.belowMinimum)]

def OracleStanding.toJson (s : OracleStanding) : Json :=
  .obj [("points", .nat s.points), ("selected", .bool s.selected), ("excluded", .bool s.excluded)]

def SubscribeOutcome.toJson (o : SubscribeOutcome) : Json :=
  .obj [("evicted", .ofOption Address.toJson o.evicted), ("joined_round", .bool o.joinedRound)]

def Replacement.toJson (r : Replacement) : Json :=
  .obj [("removed", r.removed.toJson), ("added", r.added.toJson)]

def PublishOutcome.toJson (o : PublishOutcome) : Json :=
  .obj [("owner", o.owner.toJson), ("points", .nat o.points), ("signers", Address.listToJson o.signers)]

def Payout.toJson (p : Payout) : Json :=
  .obj [("owner", p.owner.toJson), ("address", p.address.toJson), ("points", .nat p.points),
    ("amount", Amount.toJson p.amount)]

def SwitchOutcome.toJson (o : SwitchOutcome) : Json :=
  .obj [("previous_round", .nat o.previousRound), ("round", .nat o.round),
    ("lock_until", .nat o.lockUntil),
    ("selected", .arr (o.selected.map fun s => .arr [s.1.toJson, s.2.toJson])),
    ("payouts", .arr (o.payouts.map Payout.toJson)), ("distributed", Amount.toJson o.distributed),
    ("below_minimum", .bool o.belowMinimum)]

end PriceOracle
