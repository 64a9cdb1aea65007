import PriceOracle.Staking.Error
import PriceOracle.Staking.Vesting
/-! The share pool. Holders own shares and the pool owns collateral; a holder's balance is its part of
the collateral available now, rounded down: the settled collateral and what the running schedule has
released. Reading computes the release anew, and writing first folds it into the collateral.

Rounding always favours the pool, and the dust goes to the last holder out. Collateral that is left when
the last share is burned waits in the reserve for the next distribution. -/
namespace PriceOracle

/-- A holder of shares: an owner and one of its subaccounts. -/
structure StakeAccount where
  owner : Address
  subaccount : Address
deriving DecidableEq, Inhabited

namespace StakeAccount

/-- The owner's own account, which is its own subaccount. -/
def own (owner : Address) : StakeAccount := ⟨owner, owner⟩

instance : Ranked StakeAccount where
  rank a := rank (a.owner, a.subaccount)
  rank_injective {a b} h := by
    have := rank_injective h
    cases a; cases b; simp_all

end StakeAccount

/-- Shares, the collateral behind them, and the running reward. -/
structure SharePool where
  shares : Table StakeAccount Amount
  totalShares : Amount
  /-- Collateral that is settled on the holders. -/
  collateral : Amount
  schedule : VestingSchedule
  /-- Collateral that waits for the next distribution. -/
  reserve : Amount
  /-- Over how many blocks the next distribution vests. -/
  period : Nat
deriving DecidableEq, Inhabited

namespace SharePool

def new (period : Nat) : Except StakingError SharePool :=
  if period = 0 then .error (.invalidConfig "vesting period must be non-zero")
  else .ok ⟨.empty, 0, 0, .none, 0, period⟩

def setPeriod (p : SharePool) (period : Nat) : Except StakingError SharePool :=
  if period = 0 then .error (.invalidConfig "vesting period must be non-zero")
  else .ok { p with period }

/-! ### Reading -/

def sharesOf (p : SharePool) (account : StakeAccount) : Amount := (p.shares.get? account).getD 0

/-- The collateral behind the shares at block `now`. -/
def available (p : SharePool) (now : Nat) : Amount :=
  Amount.satAdd p.collateral (p.schedule.unreleased now)

/-- All collateral the pool answers for, released or not. -/
def held (p : SharePool) : Amount :=
  Amount.satAdd (Amount.satAdd p.collateral p.schedule.remaining) p.reserve

/-- What an account's shares are worth at block `now`. -/
def balanceOf (p : SharePool) (account : StakeAccount) (now : Nat) : Amount :=
  if p.totalShares = 0 then 0
  else (Amount.mulDiv? (p.sharesOf account) (p.available now) p.totalShares).getD 0

/-- The shares that a deposit would mint at block `now`. -/
def previewDeposit (p : SharePool) (amount : Amount) (now : Nat) : Except StakingError Amount :=
  let available := p.available now
  if p.totalShares = 0 ∨ available = 0 then .ok amount
  else
    match Amount.mulDiv? amount p.totalShares available with
    | some shares => .ok shares
    | none => .error .overflow

/-- The collateral that burning shares of an account would release at block `now`. -/
def previewWithdraw (p : SharePool) (account : StakeAccount) (shares : Amount) (now : Nat) :
    Except StakingError Amount :=
  let held := p.sharesOf account
  if held < shares then .error (.insufficientShares shares held)
  else if shares = 0 then .ok 0
  else
    match Amount.mulDiv? shares (p.available now) p.totalShares with
    | some amount => .ok amount
    | none => .error .overflow

/-- The shares of an account that are worth an amount, rounded down, and at most all of them. -/
def sharesForCollateral (p : SharePool) (account : StakeAccount) (amount : Amount) (now : Nat) :
    Amount :=
  let available := p.available now
  if p.totalShares = 0 ∨ available = 0 then 0
  else min ((Amount.mulDiv? amount p.totalShares available).getD Amount.max) (p.sharesOf account)

/-! ### Writing -/

/-- Folds what the schedule has released into the collateral. -/
def settle (p : SharePool) (now : Nat) : SharePool :=
  let due := p.schedule.unreleased now
  { p with
    collateral := Amount.satAdd p.collateral due
    schedule := { p.schedule with released := Amount.satAdd p.schedule.released due } }

/-- Moves all collateral, released or not, to the reserve and ends the schedule. -/
def parkResidual (p : SharePool) : SharePool :=
  { p with
    reserve := Amount.satAdd p.reserve (Amount.satAdd p.collateral p.schedule.remaining)
    collateral := 0
    schedule := { p.schedule with
      released := p.schedule.amount
      finish := min p.schedule.finish p.schedule.start } }

/-- Books a deposit and answers the shares it minted. One that would mint none changes nothing, and the
caller must not move its collateral. -/
def deposit (p : SharePool) (account : StakeAccount) (amount : Amount) (now : Nat) :
    Except StakingError (Amount × SharePool) :=
  if amount = 0 then .ok (0, p)
  else
    match p.previewDeposit amount now with
    | .error e => .error e
    | .ok minted =>
      if minted = 0 then .ok (0, p)
      else
        match Amount.add? (p.available now) amount, Amount.add? p.totalShares minted with
        | some collateral, some totalShares =>
          let settled := p.settle now
          let backed :=
            if p.totalShares = 0 then { settled.parkResidual with collateral := amount }
            else { settled with collateral }
          .ok (minted, { backed with
            totalShares
            shares := p.shares.insert account (p.sharesOf account + minted) })
        | _, _ => .error .overflow

/-- Burns shares and answers the collateral they release. -/
def withdrawShares (p : SharePool) (account : StakeAccount) (shares : Amount) (now : Nat) :
    Except StakingError (Amount × SharePool) :=
  match p.previewWithdraw account shares now with
  | .error e => .error e
  | .ok released =>
    if shares = 0 then .ok (0, p)
    else
      let settled := p.settle now
      let held := p.sharesOf account
      let burned := { settled with
        shares :=
          if held = shares then p.shares.erase account else p.shares.insert account (held - shares)
        totalShares := p.totalShares - shares
        collateral := settled.collateral - released }
      .ok (released, if burned.totalShares = 0 then burned.parkResidual else burned)

/-- Whether a distribution may start at block `now`: somebody holds shares and no schedule runs. -/
def checkDistribute (p : SharePool) (now : Nat) : Except StakingError Unit :=
  if p.totalShares = 0 ∨ p.schedule.isActive now then .error .notReadyToDistribute else .ok ()

/-- Starts vesting an amount and the reserve over the period. -/
def distribute (p : SharePool) (amount : Amount) (now : Nat) :
    Except StakingError (VestingSchedule × SharePool) :=
  match p.checkDistribute now with
  | .error e => .error e
  | .ok () =>
    if amount = 0 then .error .zeroAmount
    else
      match Amount.add? amount p.reserve, Word.add? now p.period with
      | some earnings, some finish =>
        let schedule := ⟨earnings, now, finish, 0⟩
        .ok (schedule, { p.settle now with reserve := 0, schedule })
      | _, _ => .error .overflow

end SharePool

end PriceOracle
