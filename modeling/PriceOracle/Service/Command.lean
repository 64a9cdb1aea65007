import PriceOracle.Network.Governance
import PriceOracle.Wire.Network
/-! The commands that a network takes from outside. An action is taken by a caller, a question is not.
Each has the name of its method, a record of parameters, and an answer in JSON. -/
namespace PriceOracle

inductive Action where
  | registerOracle (address : Address) (name : String)
  | setOracleName (name : String)
  | removeOracle
  | subscribe (pair : CoinPair)
  | unsubscribe (pair : CoinPair)
  /-- Lets the pool pull collateral. -/
  | approve (amount : Amount)
  /-- A deposit for the caller, unless another beneficiary is named. -/
  | deposit (amount : Amount) (beneficiary : Option Address)
  | stakeAt (amount : Amount) (subaccount : Address)
  | withdraw (amount : Amount)
  | withdrawFrom (amount : Amount) (subaccount : Address)
  | withdrawShares (shares : Amount)
  | distribute (amount : Amount)
  | lockStake (owner : Address) (expiry : Nat)
  | withdrawDelayed (id : Nat)
  | publishPrice (message : PriceMessage) (signatures : List Signature)
  | emergencyPublish (pair : CoinPair) (price : Amount)
  | switchRound (pair : CoinPair)
  | peek (pair : CoinPair)
  | getPrice (pair : CoinPair)
  | executeChange (change : ProtocolChange)
deriving DecidableEq, Inhabited

/-- What anybody may ask. -/
inductive Question where
  | registration (owner : Address)
  | ownerOf (address : Address)
  | isSubscribed (owner : Address) (pair : CoinPair)
  | canRemove (owner : Address)
  | oracles
  | balance (owner : Address) (subaccount : Option Address)
  | pendingWithdrawals (beneficiary : Address)
  | round (pair : CoinPair)
  | standing (pair : CoinPair) (address : Address)
  | pairParams (pair : CoinPair)
  | summary
deriving DecidableEq, Inhabited

inductive Command where
  | act (caller : Address) (action : Action)
  | ask (question : Question)
deriving DecidableEq, Inhabited

/-- The account in whose name a command acts. -/
def Command.caller? : Command → Option Address
  | act caller _ => some caller
  | ask _ => none

/-! ### Parameters -/

/-- How the parameters of a method are read: the names of its fields, in order, and their meaning. -/
structure ParamsReader (α : Type) where
  names : List String
  read : Json.Fields → Option α

namespace Action

/-- How the parameters of an action's method are read, besides the caller, who comes first. -/
def reader? : (method : String) → Option (ParamsReader Action)
  | "register_oracle" => some ⟨["address", "name"], fun f => do
      return registerOracle (← f.get "address" Address.ofJson?) (← f.get "name" Json.str?)⟩
  | "set_oracle_name" => some ⟨["name"], fun f => do return setOracleName (← f.get "name" Json.str?)⟩
  | "remove_oracle" => some ⟨[], fun _ => some removeOracle⟩
  | "subscribe" => some (onPair subscribe)
  | "unsubscribe" => some (onPair unsubscribe)
  | "approve" => some (ofAmount approve)
  | "deposit" => some ⟨["amount", "beneficiary"], fun f => do
      return deposit (← f.get "amount" Amount.ofJson?)
        (← f.getD "beneficiary" (Json.Fields.nullable Address.ofJson?) none)⟩
  | "stake_at" => some (onSubaccount stakeAt)
  | "withdraw" => some (ofAmount withdraw)
  | "withdraw_from" => some (onSubaccount withdrawFrom)
  | "withdraw_shares" => some ⟨["shares"], fun f => do
      return withdrawShares (← f.get "shares" Amount.ofJson?)⟩
  | "distribute" => some (ofAmount distribute)
  | "lock_stake" => some ⟨["owner", "until"], fun f => do
      return lockStake (← f.get "owner" Address.ofJson?) (← f.get "until" Word.ofJson?)⟩
  | "withdraw_delayed" => some ⟨["id"], fun f => do return withdrawDelayed (← f.get "id" Word.ofJson?)⟩
  | "publish_price" => some ⟨["message", "signatures"], fun f => do
      return publishPrice (← f.get "message" PriceMessage.ofJson?)
        (← f.get "signatures" (Json.listOf? Signature.ofJson?))⟩
  | "emergency_publish" => some ⟨["pair", "price"], fun f => do
      return emergencyPublish (← f.get "pair" CoinPair.ofJson?) (← f.get "price" Amount.ofJson?)⟩
  | "switch_round" => some (onPair switchRound)
  | "peek" => some (onPair peek)
  | "get_price" => some (onPair getPrice)
  | "execute_change" => some ⟨["change"], fun f => do
      return executeChange (← f.get "change" ProtocolChange.ofJson?)⟩
  | _ => none
where
  onPair (action : CoinPair → Action) : ParamsReader Action :=
    ⟨["pair"], fun f => (f.get "pair" CoinPair.ofJson?).map action⟩
  ofAmount (action : Amount → Action) : ParamsReader Action :=
    ⟨["amount"], fun f => (f.get "amount" Amount.ofJson?).map action⟩
  onSubaccount (action : Amount → Address → Action) : ParamsReader Action :=
    ⟨["amount", "subaccount"], fun f => do
      return action (← f.get "amount" Amount.ofJson?) (← f.get "subaccount" Address.ofJson?)⟩

end Action

/-- How the parameters of a question's method are read. -/
def Question.reader? : (method : String) → Option (ParamsReader Question)
  | "get_oracle_registration_info" => some ⟨["owner"], fun f => do
      return registration (← f.get "owner" Address.ofJson?)⟩
  | "get_oracle_owner" => some ⟨["address"], fun f => do
      return ownerOf (← f.get "address" Address.ofJson?)⟩
  | "is_subscribed" => some ⟨["owner", "pair"], fun f => do
      return isSubscribed (← f.get "owner" Address.ofJson?) (← f.get "pair" CoinPair.ofJson?)⟩
  | "can_remove_oracle" => some ⟨["owner"], fun f => do
      return canRemove (← f.get "owner" Address.ofJson?)⟩
  | "get_balance" => some ⟨["owner", "subaccount"], fun f => do
      return balance (← f.get "owner" Address.ofJson?)
        (← f.getD "subaccount" (Json.Fields.nullable Address.ofJson?) none)⟩
  | "pending_withdrawals" => some ⟨["beneficiary"], fun f => do
      return pendingWithdrawals (← f.get "beneficiary" Address.ofJson?)⟩
  | "get_round_info" => some ⟨["pair"], fun f => do return round (← f.get "pair" CoinPair.ofJson?)⟩
  | "get_oracle_round_info" => some ⟨["pair", "address"], fun f => do
      return standing (← f.get "pair" CoinPair.ofJson?) (← f.get "address" Address.ofJson?)⟩
  | "get_pair_config" => some ⟨["pair"], fun f => do return pairParams (← f.get "pair" CoinPair.ofJson?)⟩
  | _ => none

/-- The reader of a method's parameters as a command, if it is the method of one that takes any. -/
def Command.reader? (method : String) : Option (Json → Option Command) :=
  match Action.reader? method with
  | some reader => some fun params => do
    let f ← Json.Fields.of? ("caller" :: reader.names) params
    return act (← f.get "caller" Address.ofJson?) (← reader.read f)
  | none => (Question.reader? method).map fun reader params => do
    return ask (← reader.read (← Json.Fields.of? reader.names params))

/-! ### Answers -/

/-- A payment that waits in the vault, under its number, as a record. -/
def DelayedPayment.pendingJson (x : Nat × DelayedPayment) : Json :=
  .obj [("id", .nat x.1), ("source", x.2.source.toJson), ("amount", Amount.toJson x.2.amount),
    ("unlock_time", .nat x.2.unlockTime)]

/-- A pair in the summary of a network. -/
def PriceFeed.summaryJson (f : PriceFeed) : Json :=
  .obj [("pair", f.pair.toJson), ("round", .nat f.round.number), ("members", .nat f.round.seats.length),
    ("subscribed", .nat f.subscribed.size), ("last_publication_block", .nat f.lastPublicationBlock)]

/-- The parameters of a pair with the lists as they are now. -/
def PriceFeed.paramsJson (f : PriceFeed) : Json :=
  .obj ({ f.params with readers := f.readers.keys, emergencyPublishers := f.emergencyPublishers.keys }.members
    ++ [("subscribed", Address.listToJson f.subscribed.keys)])

/-- A pair's running round, with what co-signers must quote and what it will pay. -/
def PriceFeed.roundJson (f : PriceFeed) (ledger : Ledger) : Json :=
  (((f.roundInfo.toJson.withMember "last_publication_block" (.nat f.lastPublicationBlock)).withMember
    "available_reward_fees" (Amount.toJson (f.availableFees ledger))).withMember
    "fee_account" f.pair.feeAccount.toJson)

namespace Action

def run (a : Action) (caller : Address) (n : Network) (ctx : BlockContext) : Network.Call Json :=
  match a with
  | registerOracle address name =>
    let x := n.registerOracle caller address name ctx
    x.map fun _ => .ofOption OracleEntry.toJson (x.state.registry.get? caller)
  | setOracleName name => (n.setOracleName caller name).map fun _ => .obj [("updated", .bool true)]
  | removeOracle => (n.removeOracle caller).map OracleEntry.toJson
  | subscribe pair =>
    match n.subscribe caller pair ctx with
    | ⟨.error e, n⟩ => .fail n e
    | ⟨.ok (), n⟩ =>
      let address := (n.registry.get? caller).elim .zero (·.address)
      ⟨(n.feed pair).map fun f =>
        .obj [("subscribed", .bool true), ("selected", .bool (f.standing address).selected)], n⟩
  | unsubscribe pair => (n.unsubscribe caller pair).map fun _ => .obj [("subscribed", .bool false)]
  | approve amount =>
    .ok (n.withLedger (n.ledger.approve caller n.staking.account amount))
      (.obj [("spender", n.staking.account.toJson), ("allowance", Amount.toJson amount)])
  | deposit amount beneficiary =>
    (n.deposit caller amount (beneficiary.getD caller) ctx).map DepositReceipt.toJson
  | stakeAt amount subaccount => (n.stakeAt caller amount subaccount ctx).map DepositReceipt.toJson
  | withdraw amount => (n.withdraw caller amount ctx).map WithdrawReceipt.toJson
  | withdrawFrom amount subaccount =>
    (n.withdrawFrom caller amount subaccount ctx).map WithdrawReceipt.toJson
  | withdrawShares shares => (n.withdrawShares caller shares ctx).map WithdrawReceipt.toJson
  | distribute amount => (n.distribute caller amount ctx).map VestingSchedule.toJson
  | lockStake owner expiry => (n.lockStake caller owner expiry ctx).map StakeLock.toJson
  | withdrawDelayed id => (n.withdrawDelayed caller id ctx).map DelayedPayment.toJson
  | publishPrice message signatures =>
    (n.publishPrice caller message signatures ctx).map fun outcome =>
      outcome.toJson.withMember "block" (.nat ctx.number)
  | emergencyPublish pair price =>
    (n.emergencyPublish caller pair price ctx).map fun _ =>
      .obj [("published", .bool true), ("block", .nat ctx.number)]
  | switchRound pair => (n.switchRound caller pair ctx).map SwitchOutcome.toJson
  | peek pair =>
    ⟨(n.peek caller pair ctx).map fun x => .obj [("price", Amount.toJson x.1), ("valid", .bool x.2)], n⟩
  | getPrice pair => ⟨(n.getPrice caller pair ctx).map Amount.toJson, n⟩
  | executeChange change =>
    (n.executeChange caller change ctx).map fun _ => .obj [("executed", .str change.name)]

end Action

/-- Answers a question. Those on registered stakes bring them up to date first. -/
def Question.run (q : Question) (n : Network) (ctx : BlockContext) : Network.Call Json :=
  match q with
  | registration owner =>
    let n := n.refreshStakes ctx
    .ok n (.ofOption OracleEntry.toJson (n.registry.get? owner))
  | ownerOf address => .ok n (.ofOption Address.toJson (n.registry.ownerOf? address))
  | isSubscribed owner pair => ⟨(n.feed pair).map fun f => .bool (f.isSubscribed owner), n⟩
  | canRemove owner => .ok n (.bool (n.canRemoveOracle owner))
  | oracles =>
    let n := n.refreshStakes ctx
    .ok n (.arr (n.registry.entries.map OracleEntry.toJson))
  | balance owner subaccount =>
    .ok n (.obj [
      ("balance", Amount.toJson (subaccount.elim (n.staking.balance owner ctx)
        (n.staking.balanceAt owner · ctx))),
      ("shares", Amount.toJson (n.staking.shares owner)),
      ("locked", Amount.toJson (n.staking.lockedBalance owner ctx)),
      ("collateral", Amount.toJson (n.ledger.balanceOf owner))])
  | pendingWithdrawals beneficiary =>
    .ok n (.arr ((n.staking.pendingWithdrawals beneficiary).map DelayedPayment.pendingJson))
  | round pair => ⟨(n.feed pair).map (·.roundJson n.ledger), n⟩
  | standing pair address => ⟨(n.feed pair).map fun f => (f.standing address).toJson, n⟩
  | pairParams pair => ⟨(n.feed pair).map (·.paramsJson), n⟩
  | summary =>
    .ok n (.obj [("block", .nat ctx.number), ("timestamp", .nat ctx.timestamp),
      ("oracles", .nat n.registry.size), ("pairs", .arr (n.feeds.values.map PriceFeed.summaryJson))])

def Command.run (c : Command) (n : Network) (ctx : BlockContext) : Network.Call Json :=
  match c with
  | act caller action => action.run caller n ctx
  | ask question => question.run n ctx

end PriceOracle
