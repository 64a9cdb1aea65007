import PriceOracle.Network.Basic
import PriceOracle.Wire.Price
import PriceOracle.Wire.Registry
import PriceOracle.Wire.Round
/-! The JSON forms of events, protocol changes and the network's parameters. -/
namespace PriceOracle

/-! ### Events -/

def Event.members : Event → List (String × Json)
  | oracleRegistered owner address name =>
    [("owner", owner.toJson), ("address", address.toJson), ("name", .str name)]
  | oracleRemoved owner address => [("owner", owner.toJson), ("address", address.toJson)]
  | oracleNameChanged owner name => [("owner", owner.toJson), ("name", .str name)]
  | oracleSubscribed owner pair | oracleUnsubscribed owner pair =>
    [("owner", owner.toJson), ("pair", pair.toJson)]
  | oracleJoinedRound owner pair round | oracleLeftRound owner pair round =>
    [("owner", owner.toJson), ("pair", pair.toJson), ("round", .nat round)]
  | stakeDeposited owner subaccount amount shares =>
    [("owner", owner.toJson), ("subaccount", subaccount.toJson), ("amount", Amount.toJson amount),
      ("shares", Amount.toJson shares)]
  | stakeWithdrawn owner subaccount amount shares delayId =>
    [("owner", owner.toJson), ("subaccount", subaccount.toJson), ("amount", Amount.toJson amount),
      ("shares", Amount.toJson shares), ("delay_id", .ofOption .nat delayId)]
  | payEarnings earnings start finish =>
    [("earnings", Amount.toJson earnings), ("start", .nat start), ("end", .nat finish)]
  | stakeLocked owner amount expiry =>
    [("owner", owner.toJson), ("amount", Amount.toJson amount), ("until", .nat expiry)]
  | delayedPaymentReleased id beneficiary amount =>
    [("id", .nat id), ("beneficiary", beneficiary.toJson), ("amount", Amount.toJson amount)]
  | pricePublished pair sender votedOracle price block =>
    [("pair", pair.toJson), ("sender", sender.toJson), ("voted_oracle", votedOracle.toJson),
      ("price", Amount.toJson price), ("block", .nat block)]
  | emergencyPricePublished pair sender price block =>
    [("pair", pair.toJson), ("sender", sender.toJson), ("price", Amount.toJson price),
      ("block", .nat block)]
  | oracleRewardTransfer pair round owner address amount =>
    [("pair", pair.toJson), ("round", .nat round), ("owner", owner.toJson),
      ("address", address.toJson), ("amount", Amount.toJson amount)]
  | newRound pair caller number lockUntil selected =>
    [("pair", pair.toJson), ("caller", caller.toJson), ("number", .nat number),
      ("lock_until", .nat lockUntil), ("selected", Address.listToJson selected)]
  | protocolChangeExecuted caller change => [("caller", caller.toJson), ("change", .str change)]

/-- What the record of an event says of its kind. -/
def Event.tag : Event → String
  | oracleRegistered .. => "OracleRegistered"
  | oracleRemoved .. => "OracleRemoved"
  | oracleNameChanged .. => "OracleNameChanged"
  | oracleSubscribed .. => "OracleSubscribed"
  | oracleUnsubscribed .. => "OracleUnsubscribed"
  | oracleJoinedRound .. => "OracleJoinedRound"
  | oracleLeftRound .. => "OracleLeftRound"
  | stakeDeposited .. => "StakeDeposited"
  | stakeWithdrawn .. => "StakeWithdrawn"
  | payEarnings .. => "PayEarnings"
  | stakeLocked .. => "StakeLocked"
  | delayedPaymentReleased .. => "DelayedPaymentReleased"
  | pricePublished .. => "PricePublished"
  | emergencyPricePublished .. => "EmergencyPricePublished"
  | oracleRewardTransfer .. => "OracleRewardTransfer"
  | newRound .. => "NewRound"
  | protocolChangeExecuted .. => "ProtocolChangeExecuted"

def Event.toJson (e : Event) : Json := .obj (("type", .str e.tag) :: e.members)

def Event.ofJson? (j : Json) : Option Event := do
  let (tag, body) ← Json.tagged? "type" j
  let fields (names : List String) := Json.Fields.of? names body
  match tag with
  | "OracleRegistered" =>
    let f ← fields ["owner", "address", "name"]
    return .oracleRegistered (← f.get "owner" Address.ofJson?) (← f.get "address" Address.ofJson?)
      (← f.get "name" Json.str?)
  | "OracleRemoved" =>
    let f ← fields ["owner", "address"]
    return .oracleRemoved (← f.get "owner" Address.ofJson?) (← f.get "address" Address.ofJson?)
  | "OracleNameChanged" =>
    let f ← fields ["owner", "name"]
    return .oracleNameChanged (← f.get "owner" Address.ofJson?) (← f.get "name" Json.str?)
  | "OracleSubscribed" =>
    let f ← fields ["owner", "pair"]
    return .oracleSubscribed (← f.get "owner" Address.ofJson?) (← f.get "pair" CoinPair.ofJson?)
  | "OracleUnsubscribed" =>
    let f ← fields ["owner", "pair"]
    return .oracleUnsubscribed (← f.get "owner" Address.ofJson?) (← f.get "pair" CoinPair.ofJson?)
  | "OracleJoinedRound" =>
    let f ← fields ["owner", "pair", "round"]
    return .oracleJoinedRound (← f.get "owner" Address.ofJson?) (← f.get "pair" CoinPair.ofJson?)
      (← f.get "round" Word.ofJson?)
  | "OracleLeftRound" =>
    let f ← fields ["owner", "pair", "round"]
    return .oracleLeftRound (← f.get "owner" Address.ofJson?) (← f.get "pair" CoinPair.ofJson?)
      (← f.get "round" Word.ofJson?)
  | "StakeDeposited" =>
    let f ← fields ["owner", "subaccount", "amount", "shares"]
    return .stakeDeposited (← f.get "owner" Address.ofJson?) (← f.get "subaccount" Address.ofJson?)
      (← f.get "amount" Amount.ofJson?) (← f.get "shares" Amount.ofJson?)
  | "StakeWithdrawn" =>
    let f ← fields ["owner", "subaccount", "amount", "shares", "delay_id"]
    return .stakeWithdrawn (← f.get "owner" Address.ofJson?) (← f.get "subaccount" Address.ofJson?)
      (← f.get "amount" Amount.ofJson?) (← f.get "shares" Amount.ofJson?)
      (← f.option "delay_id" Word.ofJson?)
  | "PayEarnings" =>
    let f ← fields ["earnings", "start", "end"]
    return .payEarnings (← f.get "earnings" Amount.ofJson?) (← f.get "start" Word.ofJson?)
      (← f.get "end" Word.ofJson?)
  | "StakeLocked" =>
    let f ← fields ["owner", "amount", "until"]
    return .stakeLocked (← f.get "owner" Address.ofJson?) (← f.get "amount" Amount.ofJson?)
      (← f.get "until" Word.ofJson?)
  | "DelayedPaymentReleased" =>
    let f ← fields ["id", "beneficiary", "amount"]
    return .delayedPaymentReleased (← f.get "id" Word.ofJson?) (← f.get "beneficiary" Address.ofJson?)
      (← f.get "amount" Amount.ofJson?)
  | "PricePublished" =>
    let f ← fields ["pair", "sender", "voted_oracle", "price", "block"]
    return .pricePublished (← f.get "pair" CoinPair.ofJson?) (← f.get "sender" Address.ofJson?)
      (← f.get "voted_oracle" Address.ofJson?) (← f.get "price" Amount.ofJson?)
      (← f.get "block" Word.ofJson?)
  | "EmergencyPricePublished" =>
    let f ← fields ["pair", "sender", "price", "block"]
    return .emergencyPricePublished (← f.get "pair" CoinPair.ofJson?)
      (← f.get "sender" Address.ofJson?) (← f.get "price" Amount.ofJson?) (← f.get "block" Word.ofJson?)
  | "OracleRewardTransfer" =>
    let f ← fields ["pair", "round", "owner", "address", "amount"]
    return .oracleRewardTransfer (← f.get "pair" CoinPair.ofJson?) (← f.get "round" Word.ofJson?)
      (← f.get "owner" Address.ofJson?) (← f.get "address" Address.ofJson?)
      (← f.get "amount" Amount.ofJson?)
  | "NewRound" =>
    let f ← fields ["pair", "caller", "number", "lock_until", "selected"]
    return .newRound (← f.get "pair" CoinPair.ofJson?) (← f.get "caller" Address.ofJson?)
      (← f.get "number" Word.ofJson?) (← f.get "lock_until" Word.ofJson?)
      (← f.get "selected" Address.listOfJson?)
  | "ProtocolChangeExecuted" =>
    let f ← fields ["caller", "change"]
    return .protocolChangeExecuted (← f.get "caller" Address.ofJson?) (← f.get "change" Json.str?)
  | _ => none

/-! ### Protocol changes -/

/-- A change's own fields as members of a record. -/
def PairChange.members : PairChange → List (String × Json)
  | setMinOracles value | setMaxOracles value | setMaxSubscribed value => [("value", .nat value)]
  | setLockPeriod secs => [("secs", .nat secs)]
  | setValidPeriod blocks | setEmergencyPeriod blocks => [("blocks", .nat blocks)]
  | addReader account | removeReader account | addEmergencyPublisher account
  | removeEmergencyPublisher account => [("account", account.toJson)]

/-- What the record of a change says of its kind. -/
def PairChange.tag : PairChange → String
  | setMinOracles _ => "set_min_oracles_per_round"
  | setMaxOracles _ => "set_max_oracles_per_round"
  | setMaxSubscribed _ => "set_max_subscribed_oracles"
  | setLockPeriod _ => "set_round_lock_period"
  | setValidPeriod _ => "set_valid_price_period"
  | setEmergencyPeriod _ => "set_emergency_publishing_period"
  | addReader _ => "add_to_read_whitelist"
  | removeReader _ => "remove_from_read_whitelist"
  | addEmergencyPublisher _ => "add_to_emergency_whitelist"
  | removeEmergencyPublisher _ => "remove_from_emergency_whitelist"

namespace ProtocolChange

def members : ProtocolChange → List (String × Json)
  | registerPair pair params => [("pair", pair.toJson), ("config", params.toJson)]
  | onPair pair change => ("pair", pair.toJson) :: change.members
  | setMinSubscriptionStake amount => [("amount", Amount.toJson amount)]
  | setNumIdleRounds rounds => [("rounds", .nat rounds)]
  | setVestingPeriod blocks => [("blocks", .nat blocks)]
  | setWithdrawLockTime secs => [("secs", .nat secs)]
  | addToStakingWhitelist account | removeFromStakingWhitelist account | addLocker account
  | removeLocker account => [("account", account.toJson)]

def tag : ProtocolChange → String
  | registerPair .. => "register_pair"
  | onPair _ change => change.tag
  | setMinSubscriptionStake _ => "set_min_subscription_stake"
  | setNumIdleRounds _ => "set_num_idle_rounds"
  | setVestingPeriod _ => "set_vesting_period"
  | setWithdrawLockTime _ => "set_withdraw_lock_time"
  | addToStakingWhitelist _ => "add_to_staking_whitelist"
  | removeFromStakingWhitelist _ => "remove_from_staking_whitelist"
  | addLocker _ => "add_locker"
  | removeLocker _ => "remove_locker"

def toJson (c : ProtocolChange) : Json := .obj (("change", .str c.tag) :: c.members)

def ofJson? (j : Json) : Option ProtocolChange := do
  let (tag, body) ← Json.tagged? "change" j
  let one {α : Type} (make : α → ProtocolChange) (name : String) (read : Json → Option α) := do
    let f ← Json.Fields.of? [name] body
    return make (← f.get name read)
  let two {α : Type} (make : α → PairChange) (name : String) (read : Json → Option α) := do
    let f ← Json.Fields.of? ["pair", name] body
    return onPair (← f.get "pair" CoinPair.ofJson?) (make (← f.get name read))
  match tag with
  | "register_pair" =>
    let f ← Json.Fields.of? ["pair", "config"] body
    return registerPair (← f.get "pair" CoinPair.ofJson?) (← f.get "config" RoundParams.ofJson?)
  | "set_min_oracles_per_round" => two .setMinOracles "value" Word.ofJson?
  | "set_max_oracles_per_round" => two .setMaxOracles "value" Word.ofJson?
  | "set_max_subscribed_oracles" => two .setMaxSubscribed "value" Word.ofJson?
  | "set_round_lock_period" => two .setLockPeriod "secs" Word.ofJson?
  | "set_valid_price_period" => two .setValidPeriod "blocks" Word.ofJson?
  | "set_emergency_publishing_period" => two .setEmergencyPeriod "blocks" Word.ofJson?
  | "add_to_read_whitelist" => two .addReader "account" Address.ofJson?
  | "remove_from_read_whitelist" => two .removeReader "account" Address.ofJson?
  | "add_to_emergency_whitelist" => two .addEmergencyPublisher "account" Address.ofJson?
  | "remove_from_emergency_whitelist" => two .removeEmergencyPublisher "account" Address.ofJson?
  | "set_min_subscription_stake" => one setMinSubscriptionStake "amount" Amount.ofJson?
  | "set_num_idle_rounds" => one setNumIdleRounds "rounds" Word.ofJson?
  | "set_vesting_period" => one setVestingPeriod "blocks" Word.ofJson?
  | "set_withdraw_lock_time" => one setWithdrawLockTime "secs" Word.ofJson?
  | "add_to_staking_whitelist" => one addToStakingWhitelist "account" Address.ofJson?
  | "remove_from_staking_whitelist" => one removeFromStakingWhitelist "account" Address.ofJson?
  | "add_locker" => one addLocker "account" Address.ofJson?
  | "remove_locker" => one removeLocker "account" Address.ofJson?
  | _ => none

end ProtocolChange

/-! ### Parameters -/

namespace NetworkParams

/-- The parameters as a record, those of staking among them. -/
def toJson (p : NetworkParams) : Json :=
  .obj ([("governor", p.governor.toJson), ("min_subscription_stake", Amount.toJson p.minSubscriptionStake),
    ("num_idle_rounds", .nat p.numIdleRounds)] ++ p.staking.members)

def ofJson? (j : Json) : Option NetworkParams := do
  let f ← Json.Fields.ofObject? j
  let base : NetworkParams := {}
  return {
    governor := ← f.getD "governor" Address.ofJson? base.governor
    minSubscriptionStake := ← f.getD "min_subscription_stake" Amount.ofJson? base.minSubscriptionStake
    numIdleRounds := ← f.getD "num_idle_rounds" Word.ofJson? base.numIdleRounds
    staking := ← StakingParams.ofFields? f }

end NetworkParams

end PriceOracle
