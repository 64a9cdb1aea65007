import PriceOracle.Feed.Basic
import PriceOracle.Registry.Basic
/-! Subscriptions to a feed, and how stakes decide over seats between two switches. A newcomer to a full
list takes the place of its tail if it has strictly more stake, and joins the running round if there is
a free seat. Stakes are compared in the registry's order. -/
namespace PriceOracle

structure SubscribeOutcome where
  /-- The owner that lost its place on a full list. -/
  evicted : Option Address
  /-- The newcomer took a seat in the running round. -/
  joinedRound : Bool
deriving DecidableEq, Inhabited

/-- A seat that passed from one oracle to another. -/
structure Replacement where
  /-- The owner that lost the seat, and its points with it. -/
  removed : Address
  /-- The owner that took it. -/
  added : Address
deriving DecidableEq, Inhabited

namespace PriceFeed

/-- The registered subscribers, from the highest stake down. -/
def ranked (f : PriceFeed) (registry : Registry) : List OracleEntry :=
  registry.entries.filter (fun e => f.isSubscribed e.owner)

/-- Strikes an owner off the list. Its seat stays, marked as excluded. -/
def drop (f : PriceFeed) (owner : Address) : PriceFeed :=
  { f with subscribed := f.subscribed.erase owner, round := f.round.setExcluded owner true }

/-- Who must leave the list for a newcomer with a given stake. -/
def evictionFor (f : PriceFeed) (registry : Registry) (stake : Amount) :
    Except RoundError (Option Address) :=
  if f.subscribed.size < f.params.maxSubscribed then .ok none
  else
    match (f.ranked registry).getLast? with
    | none => .ok none
    | some tail =>
      if tail.stake < stake then .ok (some tail.owner)
      else .error (.notEnoughStakeToAdd stake tail.stake)

/-- Puts an owner on the list. One that still has a seat keeps it, no longer excluded. -/
def enlist (f : PriceFeed) (owner address : Address) : Bool × PriceFeed :=
  let f := { f with subscribed := f.subscribed.add owner }
  if f.round.seatsOwner owner then
    (false, { f with round := f.round.setExcluded owner false })
  else if f.round.seats.length < f.params.maxOracles then (true, f.seat owner address)
  else (false, f)

def subscribe (f : PriceFeed) (owner : Address) (registry : Registry) :
    Except RoundError (SubscribeOutcome × PriceFeed) :=
  match registry.get? owner with
  | none => .error (.notRegistered owner)
  | some e =>
    if f.isSubscribed owner then .error (.alreadySubscribed owner)
    else
      match f.evictionFor registry e.stake with
      | .error err => .error err
      | .ok evicted =>
        let (joinedRound, f) := (evicted.elim f f.drop).enlist owner e.address
        .ok (⟨evicted, joinedRound⟩, f)

/-- Unsubscribes an owner. Its seat and its points stay until the switch. -/
def unsubscribe (f : PriceFeed) (owner : Address) : Except RoundError PriceFeed :=
  if f.isSubscribed owner then .ok (f.drop owner) else .error (.notSubscribed owner)

/-- Unsubscribes an owner, takes its seat away and answers whether it had one. -/
def expel (f : PriceFeed) (owner : Address) : Bool × PriceFeed :=
  (f.round.seatsOwner owner,
    { f with subscribed := f.subscribed.erase owner, round := f.round.unseat owner })

/-- The subscriber without a seat that has the highest stake. -/
def bestWaiting? (f : PriceFeed) (registry : Registry) : Option OracleEntry :=
  (f.ranked registry).find? (fun e => !f.round.seatsOwner e.owner)

/-- Passes an owner's seat to the best waiting subscriber, if that one has strictly more stake. -/
def yieldSeat? (f : PriceFeed) (owner : Address) (registry : Registry) :
    Option (Replacement × PriceFeed) :=
  if f.round.seatsOwner owner then
    match registry.get? owner, f.bestWaiting? registry with
    | some e, some candidate =>
      if e.stake < candidate.stake then
        some (⟨owner, candidate.owner⟩,
          { f with round := f.round.unseat owner }.seat candidate.owner candidate.address)
      else none
    | _, _ => none
  else none

/-- Sets how many may be subscribed, drops those with the lowest stakes that are too many, and answers
who was dropped, the lowest first. -/
def setMaxSubscribed (f : PriceFeed) (value : Nat) (registry : Registry) :
    Except RoundError (List Address × PriceFeed) :=
  match f.withParams ({ · with maxSubscribed := value }) with
  | .error e => .error e
  | .ok f =>
    let dropped := ((f.ranked registry).map (·.owner)).reverse.take (f.subscribed.size - value)
    .ok (dropped, dropped.foldl drop f)

end PriceFeed

end PriceOracle
