import PriceOracle.Round.Error
/-! Parameters of a pair's rounds, and when they fit together. -/
namespace PriceOracle

structure RoundParams where
  /-- A round with fewer oracles is flagged, not blocked. -/
  minOracles : Nat := 3
  /-- The most oracles that a round selects. -/
  maxOracles : Nat := 10
  /-- The most oracles that may be subscribed. -/
  maxSubscribed : Nat := 30
  /-- The least duration of a round, in seconds. -/
  lockPeriod : Nat := 60
  /-- For how many blocks a price stays valid. -/
  validPeriod : Nat := 3
  /-- After how many blocks without publication an emergency price may be published. -/
  emergencyPeriod : Nat := 2
  /-- The price before the first publication. -/
  bootstrapPrice : Amount := 100000000
  /-- The first accounts that may read the price. -/
  readers : List Address := []
  /-- The first accounts that may publish emergency prices. -/
  emergencyPublishers : List Address := []
deriving DecidableEq, Inhabited

namespace RoundParams

/-- The first condition that the parameters miss. -/
def validate (p : RoundParams) : Except RoundError Unit :=
  if p.minOracles = 0 then .error (.invalidConfig "min oracles per round must be at least 1")
  else if p.maxOracles < p.minOracles then
    .error (.invalidConfig ("min oracles per round " ++ toString p.minOracles ++ " exceeds max "
      ++ toString p.maxOracles))
  else if p.maxSubscribed < p.maxOracles then
    .error (.invalidConfig ("max oracles per round " ++ toString p.maxOracles
      ++ " exceeds max subscribed " ++ toString p.maxSubscribed))
  else if p.lockPeriod = 0 then .error (.invalidConfig "round lock period must be non-zero")
  else if p.emergencyPeriod = 0 then
    .error (.invalidConfig "emergency publishing period must be non-zero")
  else .ok ()

end RoundParams

end PriceOracle
