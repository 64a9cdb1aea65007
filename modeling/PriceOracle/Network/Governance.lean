import PriceOracle.Network.Basic
/-! Applying protocol changes. -/
namespace PriceOracle.Network

def changeFeed (n : Network) (pair : CoinPair) (f : PriceFeed → Except RoundError PriceFeed) : Call Unit :=
  match n.feed pair with
  | .error e => .fail n e
  | .ok feed =>
    match f feed with
    | .error e => .fail n (.round e)
    | .ok feed => .ok (n.withFeed feed) ()

def changeStaking (n : Network) (x : Except StakingError Staking) : Call Unit :=
  match x with
  | .error e => .fail n (.staking e)
  | .ok staking => .ok { n with staking } ()

/-- Starts to track a pair. -/
def registerPair (n : Network) (pair : CoinPair) (params : RoundParams) (ctx : BlockContext) :
    Call Unit :=
  if n.feeds.contains pair then .fail n (.pairAlreadyRegistered pair)
  else
    match PriceFeed.start pair params ctx with
    | .error e => .fail n (.round e)
    | .ok feed => .ok (n.withFeed feed) ()

/-- Sets how many may be subscribed to a pair. Those dropped are told by today's stakes. -/
def setMaxSubscribed (n : Network) (pair : CoinPair) (value : Nat) (ctx : BlockContext) : Call Unit :=
  match n.feed pair with
  | .error e => .fail n e
  | .ok _ =>
    let n := n.refreshStakes ctx
    match n.feed pair with
    | .error e => .fail n e
    | .ok feed =>
      match feed.setMaxSubscribed value n.registry with
      | .error e => .fail n (.round e)
      | .ok (dropped, feed) =>
        let registry := dropped.foldl (fun registry owner => registry.delist owner pair) n.registry
        .ok (({ n with registry }.withFeed feed).record (dropped.map (.oracleUnsubscribed · pair))) ()

def applyPairChange (n : Network) (pair : CoinPair) (change : PairChange) (ctx : BlockContext) :
    Call Unit :=
  match change with
  | .setMinOracles value => n.changeFeed pair (·.setMinOracles value)
  | .setMaxOracles value => n.changeFeed pair (·.setMaxOracles value)
  | .setMaxSubscribed value => n.setMaxSubscribed pair value ctx
  | .setLockPeriod secs => n.changeFeed pair (·.setLockPeriod secs)
  | .setValidPeriod blocks => n.changeFeed pair (·.setValidPeriod blocks)
  | .setEmergencyPeriod blocks => n.changeFeed pair (·.setEmergencyPeriod blocks)
  | .addReader account => n.changeFeed pair (·.addReader account)
  | .removeReader account => n.changeFeed pair (·.removeReader account)
  | .addEmergencyPublisher account => n.changeFeed pair (·.addEmergencyPublisher account)
  | .removeEmergencyPublisher account => n.changeFeed pair (·.removeEmergencyPublisher account)

def applyChange (n : Network) (change : ProtocolChange) (ctx : BlockContext) : Call Unit :=
  match change with
  | .registerPair pair params => n.registerPair pair params ctx
  | .onPair pair change => n.applyPairChange pair change ctx
  | .setMinSubscriptionStake amount => .ok { n with policy := { n.policy with minStake := amount } } ()
  | .setNumIdleRounds rounds => .ok { n with policy := { n.policy with idleRounds := rounds } } ()
  | .setVestingPeriod blocks => n.changeStaking (n.staking.setVestingPeriod blocks)
  | .setWithdrawLockTime secs => n.changeStaking (.ok (n.staking.setWithdrawLockTime secs))
  | .addToStakingWhitelist account => n.changeStaking (n.staking.addToWhitelist account)
  | .removeFromStakingWhitelist account => n.changeStaking (n.staking.removeFromWhitelist account)
  | .addLocker account => n.changeStaking (n.staking.addLocker account)
  | .removeLocker account => n.changeStaking (n.staking.removeLocker account)

def executeChange (n : Network) (caller : Address) (change : ProtocolChange) (ctx : BlockContext) :
    Call Unit :=
  if n.authorizer caller change then
    match n.applyChange change ctx with
    | ⟨.error e, n⟩ => .fail n e
    | ⟨.ok (), n⟩ => .ok (n.record [.protocolChangeExecuted caller change.name]) ()
  else .fail n (.notAuthorizedChanger caller)

end PriceOracle.Network
