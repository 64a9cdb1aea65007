import PriceOracle.Attempt
import PriceOracle.Feed.Subscription
import PriceOracle.Staking.Ledger
/-! Switching rounds. The fees collected so far are paid to the seats of the round that ends, in
proportion to their points and rounded down; then the subscribers with the highest stakes take the seats
of the next round. Without points nothing is paid, and the fees wait. -/
namespace PriceOracle

/-- A reward for a seat of the round that ended. -/
structure Payout where
  owner : Address
  address : Address
  points : Nat
  amount : Amount
deriving DecidableEq, Inhabited

structure SwitchOutcome where
  /-- The number of the round that ended. -/
  previousRound : Nat
  /-- The number of the round that started. -/
  round : Nat
  lockUntil : Nat
  /-- Its owners and their reporting addresses, from the highest stake down. -/
  selected : List (Address × Address)
  payouts : List Payout
  distributed : Amount
  belowMinimum : Bool
deriving DecidableEq, Inhabited

/-! ### Rewards -/

/-- The rewards of a round's seats out of some fees. Seats without points, or whose part rounds down to
nothing, get none. -/
def Round.payouts (r : Round) (fees : Amount) : Except RoundError (List Payout) :=
  if r.totalPoints = 0 ∨ fees = 0 then .ok []
  else
    (r.seats.filter (0 < ·.points)).foldrM (fun s rest =>
      match Amount.mulDiv? s.points fees r.totalPoints with
      | none => .error .overflow
      | some amount =>
        .ok (if amount = 0 then rest else ⟨s.owner, s.address, s.points, amount⟩ :: rest)) []

variable {L : Type} [CollateralLedger L]

/-- The sum of some payouts, if every recipient can hold its one. -/
def payable (ledger : L) (payouts : List Payout) : Except RoundError Amount :=
  payouts.foldlM (fun total p =>
    match Amount.add? (CollateralLedger.balanceOf ledger p.owner) p.amount, Amount.add? total p.amount with
    | some _, some total => .ok total
    | _, _ => .error .overflow) 0

/-- Takes back a payout, if the ledger lets it. -/
def takeBack (fees : Address) (ledger : L) (p : Payout) : L :=
  (CollateralLedger.transfer ledger p.owner fees p.amount).toOption.getD ledger

/-- Transfers payouts. When one fails, those before it, which are `done` with the last one first, are
taken back. -/
def transferAll (fees : Address) (ledger : L) (done : List Payout) :
    List Payout → Attempt L StakingError Unit
  | [] => .ok ledger ()
  | p :: rest =>
    match CollateralLedger.transfer ledger fees p.owner p.amount with
    | .ok ledger => transferAll fees ledger (p :: done) rest
    | .error e => .fail (done.foldl (takeBack fees) ledger) e

/-- Pays payouts out of a fee account, all or none, and answers their sum. -/
def payAll (fees : Address) (ledger : L) (payouts : List Payout) : Attempt L RoundError Amount :=
  match payable ledger payouts with
  | .error e => .fail ledger e
  | .ok total =>
    let paid := transferAll fees ledger [] payouts
    ⟨(paid.result.mapError .ledger).map fun () => total, paid.state⟩

/-! ### The switch -/

namespace PriceFeed

/-- What the next switch has to distribute. -/
def availableFees (f : PriceFeed) (ledger : L) : Amount :=
  CollateralLedger.balanceOf ledger f.pair.feeAccount

/-- Owners and reporting addresses of the subscribers that the next round selects. -/
def selection (f : PriceFeed) (registry : Registry) : List (Address × Address) :=
  ((f.ranked registry).take f.params.maxOracles).map (fun e => (e.owner, e.address))

/-- Starts the next round with the oracles that are selected. -/
def nextRound (f : PriceFeed) (selected : List (Address × Address)) (lockUntil : Nat) : PriceFeed :=
  let number := f.round.number + 1
  { f with
    round := ⟨number, lockUntil, selected.map (fun s => .fresh s.1 s.2),
      selected.length < f.params.minOracles⟩
    lastSelected := selected.foldl (fun t s => t.insert s.1 number) f.lastSelected }

/-- Ends the running round, pays its rewards and starts the next one. -/
def switchRound (f : PriceFeed) (registry : Registry) (ledger : L) (ctx : BlockContext) :
    Attempt (PriceFeed × L) RoundError SwitchOutcome :=
  if ctx.timestamp ≤ f.round.lockUntil then .fail (f, ledger) (.roundLockActive f.round.lockUntil)
  else
    match Word.add? ctx.timestamp f.params.lockPeriod with
    | none => .fail (f, ledger) .overflow
    | some lockUntil =>
      match f.round.payouts (f.availableFees ledger) with
      | .error e => .fail (f, ledger) e
      | .ok payouts =>
        match payAll f.pair.feeAccount ledger payouts with
        | ⟨.error e, ledger⟩ => .fail (f, ledger) e
        | ⟨.ok distributed, ledger⟩ =>
          let selected := f.selection registry
          let next := f.nextRound selected lockUntil
          .ok (next, ledger) {
            previousRound := f.round.number
            round := next.round.number
            lockUntil, selected, payouts, distributed
            belowMinimum := next.round.belowMinimum }

end PriceFeed

end PriceOracle
