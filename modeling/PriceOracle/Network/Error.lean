import PriceOracle.Registry.Error
import PriceOracle.Round.Error
/-! What can go wrong with a call on the network. -/
namespace PriceOracle

/-- Why the network refused a call. -/
inductive NetworkError where
  | registry (cause : RegistryError)
  | staking (cause : StakingError)
  | round (cause : RoundError)
  | unknownPair (pair : CoinPair)
  | pairAlreadyRegistered (pair : CoinPair)
  /-- The oracle has a seat, or had one too recently. -/
  | notReadyToRemove (owner : Address)
  | notEnoughStake (stake min : Amount)
  | notAuthorizedChanger (caller : Address)
  | invalidConfig (detail : String)
deriving DecidableEq

namespace NetworkError

/-- The name of an error, which for a component's error is its own. -/
def name : NetworkError → String
  | registry cause => cause.name
  | staking cause => cause.name
  | round cause => cause.name
  | unknownPair _ => "UnknownPair"
  | pairAlreadyRegistered _ => "PairAlreadyRegistered"
  | notReadyToRemove _ => "NotReadyToRemove"
  | notEnoughStake .. => "NotEnoughStake"
  | notAuthorizedChanger _ => "NotAuthorizedChanger"
  | invalidConfig _ => "InvalidConfig"

def message : NetworkError → String
  | registry cause => cause.message
  | staking cause => cause.message
  | round cause => cause.message
  | unknownPair pair => "unknown coin pair " ++ toString pair
  | pairAlreadyRegistered pair => "coin pair " ++ toString pair ++ " already registered"
  | notReadyToRemove owner => "oracle " ++ toString owner ++ " is not ready to be removed"
  | notEnoughStake stake min =>
    "not enough stake to subscribe: " ++ toString stake ++ " < " ++ toString min
  | notAuthorizedChanger caller => "caller " ++ toString caller ++ " is not an authorized changer"
  | invalidConfig detail => "invalid network config: " ++ detail

def kind : NetworkError → FaultKind
  | registry cause => cause.kind
  | staking cause => cause.kind
  | round cause => cause.kind
  | unknownPair _ | invalidConfig _ => .inputValidation
  | notAuthorizedChanger _ => .authorization
  | pairAlreadyRegistered _ | notReadyToRemove _ | notEnoughStake .. => .stateInvariant

end NetworkError

end PriceOracle
