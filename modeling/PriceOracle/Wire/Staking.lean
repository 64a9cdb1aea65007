import PriceOracle.Staking.Basic
import PriceOracle.Wire.Scalar
/-! The JSON forms of what staking takes and answers. -/
namespace PriceOracle

/-- A list of addresses that may be left out. -/
def Json.Fields.addresses (f : Json.Fields) (name : String) : Option (List Address) :=
  f.getD name Address.listOfJson? []

def StakeAccount.toJson (a : StakeAccount) : Json :=
  .obj [("owner", a.owner.toJson), ("subaccount", a.subaccount.toJson)]

def VestingSchedule.toJson (s : VestingSchedule) : Json :=
  .obj [("amount", Amount.toJson s.amount), ("start", .nat s.start), ("end", .nat s.finish),
    ("released", Amount.toJson s.released)]

def VestingSchedule.ofJson? (j : Json) : Option VestingSchedule := do
  let f ← Json.Fields.of? ["amount", "start", "end", "released"] j
  return {
    amount := ← f.get "amount" Amount.ofJson?
    start := ← f.get "start" Word.ofJson?
    finish := ← f.get "end" Word.ofJson?
    released := ← f.get "released" Amount.ofJson? }

namespace StakingParams

def members (p : StakingParams) : List (String × Json) :=
  [("vesting_period_blocks", .nat p.vestingPeriodBlocks),
    ("withdraw_lock_time_secs", .nat p.withdrawLockTimeSecs),
    ("whitelist", Address.listToJson p.whitelist), ("lockers", Address.listToJson p.lockers)]

/-- The parameters from the fields of a record. Each one has a default. -/
def ofFields? (f : Json.Fields) : Option StakingParams := do
  let base : StakingParams := {}
  return {
    vestingPeriodBlocks := ← f.getD "vesting_period_blocks" Word.ofJson? base.vestingPeriodBlocks
    withdrawLockTimeSecs := ← f.getD "withdraw_lock_time_secs" Word.ofJson? base.withdrawLockTimeSecs
    whitelist := ← f.addresses "whitelist"
    lockers := ← f.addresses "lockers" }

def ofJson? (j : Json) : Option StakingParams := do
  ofFields? (← Json.Fields.of?
    ["vesting_period_blocks", "withdraw_lock_time_secs", "whitelist", "lockers"] j)

end StakingParams

def DepositReceipt.toJson (r : DepositReceipt) : Json :=
  .obj [("account", r.account.toJson), ("amount", Amount.toJson r.amount),
    ("shares", Amount.toJson r.shares)]

def WithdrawReceipt.toJson (r : WithdrawReceipt) : Json :=
  .obj [("account", r.account.toJson), ("amount", Amount.toJson r.amount),
    ("shares", Amount.toJson r.shares), ("delay_id", .ofOption .nat r.delayId)]

def StakeLock.toJson (l : StakeLock) : Json :=
  .obj [("amount", Amount.toJson l.amount), ("until", .nat l.expiry)]

def DelayedPayment.toJson (p : DelayedPayment) : Json :=
  .obj [("source", p.source.toJson), ("beneficiary", p.beneficiary.toJson),
    ("amount", Amount.toJson p.amount), ("unlock_time", .nat p.unlockTime)]

end PriceOracle
