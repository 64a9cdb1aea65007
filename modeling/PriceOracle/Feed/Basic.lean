import PriceOracle.Block
import PriceOracle.Crypto.Keccak
import PriceOracle.Round.Basic
import PriceOracle.Round.Params
/-! The price feed of a pair: who is subscribed, the running round, the price, and who may read it or
publish it in an emergency. -/
namespace PriceOracle

/-- The account on the ledger that collects the fees of a pair. -/
def CoinPair.feeAccount (pair : CoinPair) : Address :=
  (keccak256 (Bytes.ofString "moc.fees" ++ pair.bytes)).account

/-- The rounds and the price of a pair. -/
structure PriceFeed where
  pair : CoinPair
  params : RoundParams
  round : Round
  subscribed : KeySet Address
  /-- The last round in which an owner took a seat. -/
  lastSelected : Table Address Nat
  currentPrice : Amount
  lastPublicationBlock : Nat
  publicationTimestamp : Nat
  readers : KeySet Address
  emergencyPublishers : KeySet Address
deriving DecidableEq, Inhabited

/-- A round as readers see it. -/
structure RoundInfo where
  number : Nat
  lockUntil : Nat
  /-- The addresses that the oracles report from. -/
  selected : List Address
  totalPoints : Nat
  belowMinimum : Bool
deriving DecidableEq, Inhabited

/-- How an oracle stands in a round. -/
structure OracleStanding where
  points : Nat
  selected : Bool
  excluded : Bool
deriving DecidableEq, Inhabited

namespace PriceFeed

/-- A feed that starts with the bootstrap price, as if published now. -/
def start (pair : CoinPair) (params : RoundParams) (ctx : BlockContext) :
    Except RoundError PriceFeed :=
  match params.validate with
  | .error e => .error e
  | .ok () => .ok {
      pair, params
      round := .initial
      subscribed := .empty
      lastSelected := .empty
      currentPrice := params.bootstrapPrice
      lastPublicationBlock := ctx.number
      publicationTimestamp := ctx.timestamp
      readers := .ofList params.readers
      emergencyPublishers := .ofList params.emergencyPublishers }

def isSubscribed (f : PriceFeed) (owner : Address) : Bool := f.subscribed.contains owner

def roundInfo (f : PriceFeed) : RoundInfo where
  number := f.round.number
  lockUntil := f.round.lockUntil
  selected := f.round.seats.map (·.address)
  totalPoints := f.round.totalPoints
  belowMinimum := f.round.belowMinimum

/-- How the oracle that reports from an address stands in the running round. -/
def standing (f : PriceFeed) (address : Address) : OracleStanding :=
  match f.round.seatByAddress? address with
  | some s => ⟨s.points, true, s.excluded⟩
  | none => ⟨0, false, false⟩

/-- Whether an owner has no seat and took none in the last `rounds` rounds. -/
def isIdle (f : PriceFeed) (owner : Address) (rounds : Nat) : Bool :=
  !f.round.seatsOwner owner &&
    (f.lastSelected.get? owner).all (fun n => Word.satAdd n rounds ≤ f.round.number)

/-- Gives an owner's oracle a seat in the running round. -/
def seat (f : PriceFeed) (owner address : Address) : PriceFeed :=
  { f with
    round := f.round.seat owner address
    lastSelected := f.lastSelected.insert owner f.round.number }

/-! ### Parameters -/

/-- Changes parameters, if the new ones fit together. -/
def withParams (f : PriceFeed) (change : RoundParams → RoundParams) : Except RoundError PriceFeed :=
  match (change f.params).validate with
  | .error e => .error e
  | .ok () => .ok { f with params := change f.params }

/-- Sets below which size a round is flagged. -/
def setMinOracles (f : PriceFeed) (value : Nat) : Except RoundError PriceFeed :=
  f.withParams ({ · with minOracles := value })

/-- Sets how many oracles the next round selects. A larger running round keeps its seats. -/
def setMaxOracles (f : PriceFeed) (value : Nat) : Except RoundError PriceFeed :=
  f.withParams ({ · with maxOracles := value })

/-- Sets the least duration of later rounds. -/
def setLockPeriod (f : PriceFeed) (secs : Nat) : Except RoundError PriceFeed :=
  f.withParams ({ · with lockPeriod := secs })

/-- Sets for how many blocks a price is valid. -/
def setValidPeriod (f : PriceFeed) (blocks : Nat) : Except RoundError PriceFeed :=
  f.withParams ({ · with validPeriod := blocks })

/-- Sets how long publications must be missing before an emergency price. -/
def setEmergencyPeriod (f : PriceFeed) (blocks : Nat) : Except RoundError PriceFeed :=
  f.withParams ({ · with emergencyPeriod := blocks })

/-! ### Privileged accounts -/

/-- Adds an account to a list of privileged ones. -/
def grant (accounts : KeySet Address) (account : Address) : Except RoundError (KeySet Address) :=
  if account.isZero then .error .zeroAddress
  else if accounts.contains account then .error (.alreadyWhitelisted account)
  else .ok (accounts.add account)

def revoke (accounts : KeySet Address) (account : Address) : Except RoundError (KeySet Address) :=
  if accounts.contains account then .ok (accounts.erase account) else .error (.notWhitelisted account)

def addReader (f : PriceFeed) (account : Address) : Except RoundError PriceFeed :=
  (grant f.readers account).map fun readers => { f with readers }

def removeReader (f : PriceFeed) (account : Address) : Except RoundError PriceFeed :=
  (revoke f.readers account).map fun readers => { f with readers }

def addEmergencyPublisher (f : PriceFeed) (account : Address) : Except RoundError PriceFeed :=
  (grant f.emergencyPublishers account).map fun emergencyPublishers => { f with emergencyPublishers }

def removeEmergencyPublisher (f : PriceFeed) (account : Address) : Except RoundError PriceFeed :=
  (revoke f.emergencyPublishers account).map fun emergencyPublishers => { f with emergencyPublishers }

end PriceFeed

end PriceOracle
