import PriceOracle.Address
import PriceOracle.Amount
import PriceOracle.Pair
/-! Events: what the network records of the changes it commits, in their order. -/
namespace PriceOracle

/-- A committed change. -/
inductive Event where
  | oracleRegistered (owner address : Address) (name : String)
  | oracleRemoved (owner address : Address)
  | oracleNameChanged (owner : Address) (name : String)
  | oracleSubscribed (owner : Address) (pair : CoinPair)
  /-- An oracle left a subscription list, by its own will or not. -/
  | oracleUnsubscribed (owner : Address) (pair : CoinPair)
  /-- An oracle took a seat in the running round. -/
  | oracleJoinedRound (owner : Address) (pair : CoinPair) (round : Nat)
  /-- An oracle lost its seat in the running round, and its points. -/
  | oracleLeftRound (owner : Address) (pair : CoinPair) (round : Nat)
  | stakeDeposited (owner subaccount : Address) (amount shares : Amount)
  /-- Collateral went from the pool to the vault. -/
  | stakeWithdrawn (owner subaccount : Address) (amount shares : Amount) (delayId : Option Nat)
  /-- A reward began to vest. -/
  | payEarnings (earnings : Amount) (start finish : Nat)
  | stakeLocked (owner : Address) (amount : Amount) (expiry : Nat)
  /-- A payment left the vault. -/
  | delayedPaymentReleased (id : Nat) (beneficiary : Address) (amount : Amount)
  | pricePublished (pair : CoinPair) (sender votedOracle : Address) (price : Amount) (block : Nat)
  | emergencyPricePublished (pair : CoinPair) (sender : Address) (price : Amount) (block : Nat)
  | oracleRewardTransfer (pair : CoinPair) (round : Nat) (owner address : Address) (amount : Amount)
  | newRound (pair : CoinPair) (caller : Address) (number lockUntil : Nat) (selected : List Address)
  | protocolChangeExecuted (caller : Address) (change : String)
deriving DecidableEq, Inhabited

namespace Event

def name : Event → String
  | oracleRegistered .. => "OracleRegistered"
  | oracleRemoved .. => "OracleRemoved"
  | oracleNameChanged .. => "OracleNameChanged"
  | oracleSubscribed .. => "OracleSubscribed"
  | oracleUnsubscribed .. => "OracleUnsubscribed"
  | oracleJoinedRound .. => "OracleJoinedRound"
  | oracleLeftRound .. => "OracleLeftRound"
  | stakeDeposited .. => "StakeDeposited"
  | stakeWithdrawn .. => "StakeWithdrawn"
  | payEarnings .. => "PayEarnings"
  | stakeLocked .. => "StakeLocked"
  | delayedPaymentReleased .. => "DelayedPaymentReleased"
  | pricePublished .. => "PricePublished"
  | emergencyPricePublished .. => "EmergencyPricePublished"
  | oracleRewardTransfer .. => "OracleRewardTransfer"
  | newRound .. => "NewRound"
  | protocolChangeExecuted .. => "ProtocolChangeExecuted"

def pair? : Event → Option CoinPair
  | oracleSubscribed _ pair | oracleUnsubscribed _ pair | oracleJoinedRound _ pair _
  | oracleLeftRound _ pair _ | pricePublished pair .. | emergencyPricePublished pair ..
  | oracleRewardTransfer pair .. | newRound pair .. => some pair
  | _ => none

end Event

end PriceOracle
