import PriceOracle.Amount
/-! Linear release of a reward. -/
namespace PriceOracle

/-- A reward released evenly from block `start` to block `finish`. -/
structure VestingSchedule where
  amount : Amount
  start : Nat
  /-- From this block on the whole amount is released. -/
  finish : Nat
  /-- The part that was already folded into the pool's collateral. -/
  released : Amount
deriving DecidableEq, Inhabited

namespace VestingSchedule

/-- The schedule of no reward. -/
def none : VestingSchedule := ⟨0, 0, 0, 0⟩

/-- What is released by block `now`. -/
def vested (s : VestingSchedule) (now : Nat) : Amount :=
  if s.finish ≤ now then s.amount
  else if now ≤ s.start then 0
  else (Amount.mulDiv? s.amount (now - s.start) (s.finish - s.start)).getD s.amount

/-- What is released by block `now` and not yet folded in. -/
def unreleased (s : VestingSchedule) (now : Nat) : Amount := s.vested now - s.released

/-- What is not yet folded in, released or not. -/
def remaining (s : VestingSchedule) : Amount := s.amount - s.released

/-- Whether the schedule still runs at block `now`. -/
def isActive (s : VestingSchedule) (now : Nat) : Bool := now < s.finish

end VestingSchedule

end PriceOracle
