import PriceOracle.Feed.Basic
import PriceOracle.PriceMessage
import PriceOracle.Round.Quorum
/-! Publishing and reading prices. A price is accepted from a member of the round with the signatures of
more than half the seats, once for each state of the feed: the message names the block of the last
publication. When publications are missing for long enough, a privileged account may publish alone. -/
namespace PriceOracle

structure PublishOutcome where
  /-- The owner of the proposing oracle. -/
  owner : Address
  /-- Its points, this one included. -/
  points : Nat
  /-- Who signed, in ascending order. -/
  signers : List Address
deriving DecidableEq, Inhabited

namespace PriceFeed

def setPrice (f : PriceFeed) (price : Amount) (ctx : BlockContext) : PriceFeed :=
  { f with
    currentPrice := price
    lastPublicationBlock := ctx.number
    publicationTimestamp := ctx.timestamp }

/-- The seat of the caller, if it may propose this message now. -/
def proposerSeat (f : PriceFeed) (caller : Address) (m : PriceMessage) (ctx : BlockContext) :
    Except RoundError Seat :=
  if m.version ≠ PriceMessage.currentVersion then .error (.unsupportedVersion m.version)
  else if m.pair ≠ f.pair then .error (.pairMismatch f.pair m.pair)
  else if m.price = 0 then .error .zeroPrice
  else if caller ≠ m.votedOracle then .error (.notVotedOracle caller m.votedOracle)
  else if m.lastPublicationBlock ≠ f.lastPublicationBlock then
    .error (.staleBlock f.lastPublicationBlock m.lastPublicationBlock)
  else if ctx.number ≤ f.lastPublicationBlock then .error (.alreadyPublishedInBlock ctx.number)
  else
    match f.round.seatByAddress? caller with
    | none => .error (.voterNotInRound caller)
    | some seat => .ok seat

/-- Those who certify a message, if they are more than half the seats. -/
def certifiers (f : PriceFeed) (m : PriceMessage) (signatures : List Signature) :
    Except RoundError (List Address) :=
  let members := f.round.seats.length
  if signatures.length ≤ members / 2 then .error (.notEnoughSignatures signatures.length members)
  else verifySignatures m.signingHash f.round.seatsAddress signatures

/-- Accepts a certified price and gives its proposer a point. -/
def publish (f : PriceFeed) (caller : Address) (m : PriceMessage) (signatures : List Signature)
    (ctx : BlockContext) : Except RoundError (PublishOutcome × PriceFeed) :=
  match f.proposerSeat caller m ctx with
  | .error e => .error e
  | .ok seat =>
    match f.certifiers m signatures with
    | .error e => .error e
    | .ok signers =>
      .ok (⟨seat.owner, seat.points + 1, signers⟩,
        { f with round := f.round.award seat.owner }.setPrice m.price ctx)

/-- Accepts a price without a quorum. -/
def emergencyPublish (f : PriceFeed) (caller : Address) (price : Amount) (ctx : BlockContext) :
    Except RoundError PriceFeed :=
  if ¬ f.emergencyPublishers.contains caller then .error (.notWhitelisted caller)
  else if price = 0 then .error .zeroPrice
  else if ctx.number < Word.satAdd f.lastPublicationBlock f.params.emergencyPeriod then
    .error (.emergencyPeriodNotStarted f.lastPublicationBlock f.params.emergencyPeriod)
  else .ok (f.setPrice price ctx)

/-- The price, and whether it is still valid. -/
def peek (f : PriceFeed) (caller : Address) (ctx : BlockContext) : Except RoundError (Amount × Bool) :=
  if f.readers.contains caller then
    .ok (f.currentPrice, ctx.number - f.lastPublicationBlock ≤ f.params.validPeriod)
  else .error (.notWhitelisted caller)

def getPrice (f : PriceFeed) (caller : Address) (ctx : BlockContext) : Except RoundError Amount :=
  match f.peek caller ctx with
  | .error e => .error e
  | .ok (price, true) => .ok price
  | .ok (_, false) => .error (.priceExpired f.lastPublicationBlock)

end PriceFeed

end PriceOracle
