import PriceOracle.Feed.Publication
import PriceOracle.Network.Change
import PriceOracle.Network.Event
import PriceOracle.Network.Subscriptions
import PriceOracle.Staking.Basic
/-! The oracle network: the registry, staking and the feeds of all pairs behind one entry. An oracle's
stake is what its owner's own account in the pool is worth; since that moves without any call, stakes
are brought up to date before their order is read. A call records the changes that it commits as
events. -/
namespace PriceOracle

/-- The ledger account of a component, derived from its label. -/
def systemAccount (label : String) : Address := (keccak256 (Bytes.ofString ("moc." ++ label))).account

/-- The ledger account of the staking pool, which depositors approve. -/
def stakingAccount : Address := systemAccount "staking"

def vaultAccount : Address := systemAccount "delay"

structure NetworkParams where
  /-- The account that may apply protocol changes. -/
  governor : Address := .zero
  minSubscriptionStake : Amount := 0
  numIdleRounds : Nat := 1
  staking : StakingParams := {}
deriving DecidableEq, Inhabited

/-- The first condition that the parameters miss. -/
def NetworkParams.validate (p : NetworkParams) : Except NetworkError Unit :=
  if p.governor.isZero then .error (.invalidConfig "governor must not be 0x0")
  else if p.staking.vestingPeriodBlocks = 0 then
    .error (.invalidConfig "vesting period must be non-zero")
  else .ok ()

structure Network where
  registry : Registry
  staking : Staking
  feeds : Feeds
  policy : SubscriptionPolicy
  authorizer : Authorizer
  /-- The events recorded since they were last taken. -/
  events : List Event

namespace Network

/-- What a call answers, and the state it leaves. -/
abbrev Call (α : Type) := Attempt Network NetworkError α

/-- A network without oracles and pairs, whose collateral is on a ledger. -/
def new (params : NetworkParams) (ledger : Ledger) : Except NetworkError Network :=
  match params.validate with
  | .error e => .error e
  | .ok () =>
    match Staking.new stakingAccount params.staking ledger (.new vaultAccount) with
    | .error e => .error (.staking e)
    | .ok staking => .ok {
        registry := .empty
        staking
        feeds := .empty
        policy := ⟨params.minSubscriptionStake, params.numIdleRounds⟩
        authorizer := .governor params.governor
        events := [] }

/-- The network with another rule on who may apply protocol changes. -/
def withAuthorizer (n : Network) (authorizer : Authorizer) : Network := { n with authorizer }

/-! ### Events and parts -/

def record (n : Network) (events : List Event) : Network := { n with events := n.events ++ events }

/-- The events recorded since the last time, in the order of the changes. -/
def takeEvents (n : Network) : List Event × Network := (n.events, { n with events := [] })

def ledger (n : Network) : Ledger := n.staking.ledger

/-- The network after its account holders did something on the ledger. -/
def withLedger (n : Network) (ledger : Ledger) : Network :=
  { n with staking := { n.staking with ledger } }

def feed (n : Network) (pair : CoinPair) : Except NetworkError PriceFeed :=
  match n.feeds.get? pair with
  | some feed => .ok feed
  | none => .error (.unknownPair pair)

def withFeed (n : Network) (feed : PriceFeed) : Network :=
  { n with feeds := n.feeds.insert feed.pair feed }

/-! ### Stakes -/

def stakeChangeEvents (feeds : Feeds) (owner : Address) (change : StakeChange) : List Event :=
  let round (pair : CoinPair) := (feeds.get? pair).elim 0 (·.round.number)
  change.expelled.flatMap (fun (pair, seated) =>
      .oracleUnsubscribed owner pair :: if seated then [.oracleLeftRound owner pair (round pair)] else [])
    ++ change.replaced.flatMap (fun (pair, swap) =>
      [.oracleLeftRound swap.removed pair (round pair), .oracleJoinedRound swap.added pair (round pair)])

/-- Carries a drop of an owner's stake into the rounds. -/
def carryDrop (n : Network) (owner : Address) (previous : Amount) : Network :=
  let (change, registry, feeds) := n.policy.stakeDecreased owner previous n.registry n.feeds
  { n with registry, feeds }.record (stakeChangeEvents feeds owner change)

/-- The registry with every oracle's stake set to what its owner's own account is worth. -/
def restaked (n : Network) (ctx : BlockContext) : Registry :=
  n.registry.entries.foldl (fun registry e =>
    let stake := n.staking.balance e.owner ctx
    if stake = e.stake then registry else registry.restake e stake) n.registry

/-- Brings all stakes up to date, then carries each drop into the rounds. -/
def refreshStakes (n : Network) (ctx : BlockContext) : Network :=
  let dropped := n.registry.entries.filter (fun e => n.staking.balance e.owner ctx < e.stake)
  dropped.foldl (fun n e => n.carryDrop e.owner e.stake) { n with registry := n.restaked ctx }

/-! ### Oracles -/

def registerOracle (n : Network) (caller address : Address) (name : String) (ctx : BlockContext) :
    Call Unit :=
  match n.registry.register caller address name (n.staking.balance caller ctx) none with
  | .error e => .fail n (.registry e)
  | .ok (_, registry) => .ok ({ n with registry }.record [.oracleRegistered caller address name]) ()

/-- Changes the name of the host of the caller's oracle. -/
def setOracleName (n : Network) (caller : Address) (name : String) : Call Unit :=
  match n.registry.setName caller name with
  | .error e => .fail n (.registry e)
  | .ok registry => .ok ({ n with registry }.record [.oracleNameChanged caller name]) ()

def removalEvents (feeds : Feeds) (owner address : Address) : List Event :=
  (feeds.toList.filter (fun x => x.2.isSubscribed owner)).map (fun x => .oracleUnsubscribed owner x.1)
    ++ [.oracleRemoved owner address]

/-- Removes the caller's oracle, once it has sat out enough rounds on every pair. Its subscriptions end,
and its stake stays in the pool. -/
def removeOracle (n : Network) (caller : Address) : Call OracleEntry :=
  match n.registry.remove caller with
  | .error e => .fail n (.registry e)
  | .ok (entry, registry) =>
    if n.policy.canRemove caller n.feeds then
      let feeds := n.feeds.map fun _ feed => if feed.isSubscribed caller then feed.drop caller else feed
      .ok ({ n with registry, feeds }.record (removalEvents n.feeds caller entry.address)) entry
    else .fail n (.notReadyToRemove caller)

def canRemoveOracle (n : Network) (owner : Address) : Bool :=
  n.registry.isRegistered owner && n.policy.canRemove owner n.feeds

/-! ### Subscriptions -/

def subscriptionEvents (owner : Address) (pair : CoinPair) (round : Nat) (outcome : SubscribeOutcome) :
    List Event :=
  (outcome.evicted.elim [] fun evicted => [.oracleUnsubscribed evicted pair])
    ++ .oracleSubscribed owner pair
    :: if outcome.joinedRound then [.oracleJoinedRound owner pair round] else []

def subscribe (n : Network) (caller : Address) (pair : CoinPair) (ctx : BlockContext) : Call Unit :=
  match n.feed pair with
  | .error e => .fail n e
  | .ok _ =>
    let n := n.refreshStakes ctx
    match n.feed pair with
    | .error e => .fail n e
    | .ok feed =>
      match n.policy.subscribe caller feed n.registry with
      | .error e => .fail n e
      | .ok (outcome, feed, registry) =>
        .ok (({ n with registry }.withFeed feed).record
          (subscriptionEvents caller pair feed.round.number outcome)) ()

def unsubscribe (n : Network) (caller : Address) (pair : CoinPair) : Call Unit :=
  match n.feed pair with
  | .error e => .fail n e
  | .ok feed =>
    match SubscriptionPolicy.unsubscribe caller feed n.registry with
    | ⟨.error e, (feed, registry)⟩ => .fail ({ n with registry }.withFeed feed) e
    | ⟨.ok (), (feed, registry)⟩ =>
      .ok (({ n with registry }.withFeed feed).record [.oracleUnsubscribed caller pair]) ()

/-! ### Staking -/

/-- The outcome of a call on staking as one on the network, with the events of a success. -/
def onStaking {α : Type} (n : Network) (x : Attempt Staking StakingError α) (events : α → List Event) :
    Call α :=
  match x with
  | ⟨.error e, staking⟩ => .fail { n with staking } (.staking e)
  | ⟨.ok a, staking⟩ => .ok ({ n with staking }.record (events a)) a

/-- Brings stakes up to date after a success. -/
def refreshing {α : Type} (ctx : BlockContext) (x : Call α) : Call α :=
  match x with
  | ⟨.error e, n⟩ => .fail n e
  | ⟨.ok a, n⟩ => .ok (n.refreshStakes ctx) a

/-- The event of a deposit, unless it minted nothing. -/
def depositEvents (r : DepositReceipt) : List Event :=
  if r.shares = 0 then []
  else [.stakeDeposited r.account.owner r.account.subaccount r.amount r.shares]

/-- The event of a withdrawal, unless it burned nothing. -/
def withdrawalEvents (r : WithdrawReceipt) : List Event :=
  if r.shares = 0 then []
  else [.stakeWithdrawn r.account.owner r.account.subaccount r.amount r.shares r.delayId]

/-- Deposits an amount of the caller's into a beneficiary's own account. -/
def deposit (n : Network) (caller : Address) (amount : Amount) (beneficiary : Address)
    (ctx : BlockContext) : Call DepositReceipt :=
  refreshing ctx (n.onStaking (n.staking.deposit caller amount beneficiary ctx) depositEvents)

/-- Deposits an amount of the caller's into one of its subaccounts. -/
def stakeAt (n : Network) (caller : Address) (amount : Amount) (subaccount : Address)
    (ctx : BlockContext) : Call DepositReceipt :=
  refreshing ctx (n.onStaking (n.staking.stakeAt caller amount subaccount ctx) depositEvents)

/-- Withdraws up to an amount from the caller's own account. -/
def withdraw (n : Network) (caller : Address) (amount : Amount) (ctx : BlockContext) :
    Call WithdrawReceipt :=
  refreshing ctx (n.onStaking (n.staking.withdraw caller amount ctx) withdrawalEvents)

/-- Withdraws up to an amount from one of the caller's subaccounts. -/
def withdrawFrom (n : Network) (caller : Address) (amount : Amount) (subaccount : Address)
    (ctx : BlockContext) : Call WithdrawReceipt :=
  refreshing ctx (n.onStaking (n.staking.withdrawFrom caller amount subaccount ctx) withdrawalEvents)

/-- Burns shares of the caller's own account. -/
def withdrawShares (n : Network) (caller : Address) (shares : Amount) (ctx : BlockContext) :
    Call WithdrawReceipt :=
  refreshing ctx (n.onStaking (n.staking.withdrawShares caller shares ctx) withdrawalEvents)

/-- Starts to vest a reward of the caller's. -/
def distribute (n : Network) (caller : Address) (amount : Amount) (ctx : BlockContext) :
    Call VestingSchedule :=
  n.onStaking (n.staking.distribute caller amount ctx) fun s => [.payEarnings s.amount s.start s.finish]

def lockStake (n : Network) (caller owner : Address) (expiry : Nat) (ctx : BlockContext) :
    Call StakeLock :=
  n.onStaking (n.staking.lockStake caller owner expiry ctx) fun lock =>
    [.stakeLocked owner lock.amount lock.expiry]

def withdrawDelayed (n : Network) (caller : Address) (id : Nat) (ctx : BlockContext) :
    Call DelayedPayment :=
  n.onStaking (n.staking.withdrawDelayed caller id ctx) fun payment =>
    [.delayedPaymentReleased id payment.beneficiary payment.amount]

/-! ### Prices and rounds -/

def publishPrice (n : Network) (caller : Address) (m : PriceMessage) (signatures : List Signature)
    (ctx : BlockContext) : Call PublishOutcome :=
  match n.feed m.pair with
  | .error e => .fail n e
  | .ok feed =>
    match feed.publish caller m signatures ctx with
    | .error e => .fail n (.round e)
    | .ok (outcome, feed) =>
      .ok ((n.withFeed feed).record
        [.pricePublished m.pair caller m.votedOracle m.price ctx.number]) outcome

/-- Submits a price without a quorum. -/
def emergencyPublish (n : Network) (caller : Address) (pair : CoinPair) (price : Amount)
    (ctx : BlockContext) : Call Unit :=
  match n.feed pair with
  | .error e => .fail n e
  | .ok feed =>
    match feed.emergencyPublish caller price ctx with
    | .error e => .fail n (.round e)
    | .ok feed =>
      .ok ((n.withFeed feed).record [.emergencyPricePublished pair caller price ctx.number]) ()

def switchEvents (caller : Address) (pair : CoinPair) (outcome : SwitchOutcome) : List Event :=
  outcome.payouts.map (fun p =>
      .oracleRewardTransfer pair outcome.previousRound p.owner p.address p.amount)
    ++ [.newRound pair caller outcome.round outcome.lockUntil (outcome.selected.map (·.2))]

/-- Pays the running round of a pair and starts the next one. -/
def switchRound (n : Network) (caller : Address) (pair : CoinPair) (ctx : BlockContext) :
    Call SwitchOutcome :=
  match n.feed pair with
  | .error e => .fail n e
  | .ok _ =>
    let n := n.refreshStakes ctx
    match n.feed pair with
    | .error e => .fail n e
    | .ok feed =>
      match feed.switchRound n.registry n.ledger ctx with
      | ⟨.error e, (feed, ledger)⟩ => .fail ((n.withFeed feed).withLedger ledger) (.round e)
      | ⟨.ok outcome, (feed, ledger)⟩ =>
        .ok (((n.withFeed feed).withLedger ledger).record (switchEvents caller pair outcome)) outcome

/-- The price of a pair, and whether it is still valid. -/
def peek (n : Network) (caller : Address) (pair : CoinPair) (ctx : BlockContext) :
    Except NetworkError (Amount × Bool) :=
  match n.feed pair with
  | .error e => .error e
  | .ok feed => (feed.peek caller ctx).mapError .round

def getPrice (n : Network) (caller : Address) (pair : CoinPair) (ctx : BlockContext) :
    Except NetworkError Amount :=
  match n.feed pair with
  | .error e => .error e
  | .ok feed => (feed.getPrice caller ctx).mapError .round

end Network

end PriceOracle
