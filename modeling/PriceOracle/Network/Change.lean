import PriceOracle.Round.Params
/-! Protocol changes: commands that change one parameter, and who may give them. -/
namespace PriceOracle

/-- A change of one pair's parameters. -/
inductive PairChange where
  | setMinOracles (value : Nat)
  | setMaxOracles (value : Nat)
  | setMaxSubscribed (value : Nat)
  | setLockPeriod (secs : Nat)
  | setValidPeriod (blocks : Nat)
  | setEmergencyPeriod (blocks : Nat)
  | addReader (account : Address)
  | removeReader (account : Address)
  | addEmergencyPublisher (account : Address)
  | removeEmergencyPublisher (account : Address)
deriving DecidableEq, Inhabited

/-- A change of one parameter of the network. -/
inductive ProtocolChange where
  /-- Starts to track a pair. -/
  | registerPair (pair : CoinPair) (params : RoundParams)
  | onPair (pair : CoinPair) (change : PairChange)
  /-- Sets the stake that a subscription takes. Present subscriptions stay. -/
  | setMinSubscriptionStake (amount : Amount)
  /-- Sets how many rounds an oracle must sit out before it may leave. -/
  | setNumIdleRounds (rounds : Nat)
  | setVestingPeriod (blocks : Nat)
  | setWithdrawLockTime (secs : Nat)
  | addToStakingWhitelist (account : Address)
  | removeFromStakingWhitelist (account : Address)
  | addLocker (account : Address)
  | removeLocker (account : Address)
deriving DecidableEq, Inhabited

def PairChange.name : PairChange → String
  | setMinOracles _ => "set_min_oracles_per_round"
  | setMaxOracles _ => "set_max_oracles_per_round"
  | setMaxSubscribed _ => "set_max_subscribed_oracles"
  | setLockPeriod _ => "set_round_lock_period"
  | setValidPeriod _ => "set_valid_price_period"
  | setEmergencyPeriod _ => "set_emergency_publishing_period"
  | addReader _ => "add_to_read_whitelist"
  | removeReader _ => "remove_from_read_whitelist"
  | addEmergencyPublisher _ => "add_to_emergency_whitelist"
  | removeEmergencyPublisher _ => "remove_from_emergency_whitelist"

namespace ProtocolChange

def name : ProtocolChange → String
  | registerPair .. => "register_pair"
  | onPair _ change => change.name
  | setMinSubscriptionStake _ => "set_min_subscription_stake"
  | setNumIdleRounds _ => "set_num_idle_rounds"
  | setVestingPeriod _ => "set_vesting_period"
  | setWithdrawLockTime _ => "set_withdraw_lock_time"
  | addToStakingWhitelist _ => "add_to_staking_whitelist"
  | removeFromStakingWhitelist _ => "remove_from_staking_whitelist"
  | addLocker _ => "add_locker"
  | removeLocker _ => "remove_locker"

def pair? : ProtocolChange → Option CoinPair
  | registerPair pair _ | onPair pair _ => some pair
  | _ => none

end ProtocolChange

/-- Whether an account may apply a change. -/
abbrev Authorizer := Address → ProtocolChange → Bool

/-- Lets one account apply every change, and nobody if that account is the one nobody controls. -/
def Authorizer.governor (owner : Address) : Authorizer := fun caller _ => !owner.isZero && caller = owner

end PriceOracle
