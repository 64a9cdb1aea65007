import PriceOracle.Feed.Switch
import PriceOracle.Network.Error
/-! Subscriptions across pairs. A pair's list of subscribers and the pairs listed in an oracle's entry
are kept in step here, and a drop of an oracle's stake is carried into the rounds of all pairs. -/
namespace PriceOracle

abbrev Feeds := Table CoinPair PriceFeed

/-- The terms of subscribing and of leaving. -/
structure SubscriptionPolicy where
  /-- The stake that a subscription takes. -/
  minStake : Amount := 0
  /-- How many rounds an oracle must sit out before it may leave. -/
  idleRounds : Nat := 1
deriving DecidableEq, Inhabited

/-- What a drop of stake did to an oracle. -/
structure StakeChange where
  /-- The pairs that it was unsubscribed from, and whether it lost a seat there. -/
  expelled : List (CoinPair × Bool)
  /-- The pairs where its seat went to a subscriber with more stake. -/
  replaced : List (CoinPair × Replacement)
deriving DecidableEq, Inhabited

namespace StakeChange

def none : StakeChange := ⟨[], []⟩

def isEmpty (c : StakeChange) : Bool := c.expelled.isEmpty && c.replaced.isEmpty

end StakeChange

namespace SubscriptionPolicy

/-- Subscribes an owner's oracle to a feed, and lists the pair in its entry. -/
def subscribe (p : SubscriptionPolicy) (owner : Address) (feed : PriceFeed) (registry : Registry) :
    Except NetworkError (SubscribeOutcome × PriceFeed × Registry) :=
  match registry.get? owner with
  | none => .error (.registry (.notRegistered owner))
  | some e =>
    if e.stake < p.minStake then .error (.notEnoughStake e.stake p.minStake)
    else
      match feed.subscribe owner registry with
      | .error err => .error (.round err)
      | .ok (outcome, feed) =>
        let registry := outcome.evicted.elim registry (registry.delist · feed.pair)
        .ok (outcome, feed, registry.enlist owner feed.pair)

/-- Unsubscribes an owner from a feed, and strikes the pair off its entry. -/
def unsubscribe (owner : Address) (feed : PriceFeed) (registry : Registry) :
    Attempt (PriceFeed × Registry) NetworkError Unit :=
  match feed.unsubscribe owner with
  | .error e => .fail (feed, registry) (.round e)
  | .ok feed =>
    match registry.removeSubscription owner feed.pair with
    | .error e => .fail (feed, registry) (.registry e)
    | .ok (_, registry) => .ok (feed, registry) ()

/-- Whether an owner has sat out enough rounds on every pair. -/
def canRemove (p : SubscriptionPolicy) (owner : Address) (feeds : Feeds) : Bool :=
  feeds.values.all (·.isIdle owner p.idleRounds)

/-- Unsubscribes an owner from every pair and takes its seats away. -/
def expelEverywhere (owner : Address) (registry : Registry) (feeds : Feeds) :
    StakeChange × Registry × Feeds :=
  let expelled := feeds.toList.filterMap fun (pair, feed) =>
    let seated := feed.round.seatsOwner owner
    if feed.isSubscribed owner || seated then some (pair, seated) else none
  (⟨expelled, []⟩,
    expelled.foldl (fun registry x => registry.delist owner x.1) registry,
    feeds.map fun _ feed => (feed.expel owner).2)

/-- Passes each of an owner's seats to the best waiting subscriber, where that one has more stake. -/
def yieldEverywhere (owner : Address) (registry : Registry) (feeds : Feeds) :
    StakeChange × Registry × Feeds :=
  let replaced := feeds.toList.filterMap fun (pair, feed) =>
    (feed.yieldSeat? owner registry).map fun x => (pair, x.1)
  (⟨[], replaced⟩, registry,
    feeds.map fun _ feed => (feed.yieldSeat? owner registry).elim feed (·.2))

/-- Carries a drop of an owner's stake into the rounds. Below the stake that a subscription takes, the
oracle leaves all pairs; else it may lose seats to subscribers with more stake. -/
def stakeDecreased (p : SubscriptionPolicy) (owner : Address) (previous : Amount) (registry : Registry)
    (feeds : Feeds) : StakeChange × Registry × Feeds :=
  match registry.get? owner with
  | none => (.none, registry, feeds)
  | some e =>
    if previous ≤ e.stake then (.none, registry, feeds)
    else if e.stake < p.minStake then expelEverywhere owner registry feeds
    else yieldEverywhere owner registry feeds

end SubscriptionPolicy

end PriceOracle
