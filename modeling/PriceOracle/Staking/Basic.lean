import PriceOracle.Attempt
import PriceOracle.Block
import PriceOracle.Staking.DelayVault
import PriceOracle.Staking.SharePool
/-! Staking: the share pool together with the ledger and the delay vault. Collateral enters from the
depositor's balance against an allowance granted to the pool's account, and leaves through the vault. -/
namespace PriceOracle

structure StakingParams where
  /-- Blocks over which a distribution vests. -/
  vestingPeriodBlocks : Nat := 10
  /-- Seconds that a withdrawal stays in the vault. -/
  withdrawLockTimeSecs : Nat := 3600
  /-- Callers that may act on subaccounts other than themselves. -/
  whitelist : List Address := []
  /-- Callers that may lock stake. -/
  lockers : List Address := []
deriving DecidableEq, Inhabited

structure DepositReceipt where
  account : StakeAccount
  /-- Collateral moved into the pool; none if nothing was minted. -/
  amount : Amount
  shares : Amount
deriving DecidableEq, Inhabited

structure WithdrawReceipt where
  account : StakeAccount
  /-- Collateral moved into the vault. -/
  amount : Amount
  shares : Amount
  /-- The vault's payment, unless nothing was released. -/
  delayId : Option Nat
deriving DecidableEq, Inhabited

/-- Stake that its owner may not withdraw before a moment. -/
structure StakeLock where
  amount : Amount
  expiry : Nat
deriving DecidableEq, Inhabited

/-- Adds an account to a list of privileged ones. -/
def enroll (accounts : KeySet Address) (account : Address) : Except StakingError (KeySet Address) :=
  if account.isZero then .error .zeroAddress
  else if accounts.contains account then .error (.alreadyWhitelisted account)
  else .ok (accounts.add account)

def dismiss (accounts : KeySet Address) (account : Address) : Except StakingError (KeySet Address) :=
  if accounts.contains account then .ok (accounts.erase account) else .error (.notWhitelisted account)

structure Staking where
  /-- The pool's account on the ledger, which depositors approve. -/
  account : Address
  pool : SharePool
  ledger : Ledger
  vault : DelayVault
  withdrawLockTime : Nat
  whitelist : KeySet Address
  lockers : KeySet Address
  locks : Table Address StakeLock
deriving DecidableEq, Inhabited

namespace Staking

/-- Staking with an empty pool, on a ledger and with a vault. -/
def new (account : Address) (params : StakingParams) (ledger : Ledger) (vault : DelayVault) :
    Except StakingError Staking :=
  if account.isZero then .error .zeroAddress
  else
    match SharePool.new params.vestingPeriodBlocks with
    | .error e => .error e
    | .ok pool => .ok {
        account, pool, ledger, vault
        withdrawLockTime := params.withdrawLockTimeSecs
        whitelist := .ofList params.whitelist
        lockers := .ofList params.lockers
        locks := .empty }

/-! ### Reading -/

def balance (s : Staking) (owner : Address) (ctx : BlockContext) : Amount :=
  s.pool.balanceOf (.own owner) ctx.number

/-- What a subaccount is worth. -/
def balanceAt (s : Staking) (owner subaccount : Address) (ctx : BlockContext) : Amount :=
  s.pool.balanceOf ⟨owner, subaccount⟩ ctx.number

def shares (s : Staking) (owner : Address) : Amount := s.pool.sharesOf (.own owner)

/-- What an owner may not withdraw now. -/
def lockedBalance (s : Staking) (owner : Address) (ctx : BlockContext) : Amount :=
  match s.locks.get? owner with
  | some lock => if ctx.timestamp < lock.expiry then lock.amount else 0
  | none => 0

/-- The payments in the vault that wait for a beneficiary. -/
def pendingWithdrawals (s : Staking) (beneficiary : Address) : List (Nat × DelayedPayment) :=
  s.vault.pending beneficiary

/-- Whether an account may act on other subaccounts. -/
def isWhitelisted (s : Staking) (account : Address) : Bool := s.whitelist.contains account

/-! ### Deposits -/

/-- Whether a caller may act on a subaccount. -/
def checkSubaccount (s : Staking) (caller subaccount : Address) : Except StakingError Unit :=
  if subaccount.isZero then .error .zeroAddress
  else if subaccount ≠ caller ∧ ¬ s.whitelist.contains caller then .error (.notWhitelisted caller)
  else .ok ()

/-- Pulls a deposit from the caller, then books it for an account. One that would mint no shares moves
nothing. -/
def bookDeposit (s : Staking) (caller : Address) (account : StakeAccount) (amount : Amount)
    (ctx : BlockContext) : Attempt Staking StakingError DepositReceipt :=
  match if amount = 0 then .ok 0 else s.pool.previewDeposit amount ctx.number with
  | .error e => .fail s e
  | .ok expected =>
    if expected = 0 then .ok s ⟨account, 0, 0⟩
    else
      match s.ledger.transferFrom s.account caller s.account amount with
      | .error e => .fail s e
      | .ok ledger =>
        let s := { s with ledger }
        match s.pool.deposit account amount ctx.number with
        | .error e => .fail s e
        | .ok (shares, pool) => .ok { s with pool } ⟨account, amount, shares⟩

/-- A deposit from the caller into a beneficiary's own account. -/
def deposit (s : Staking) (caller : Address) (amount : Amount) (beneficiary : Address)
    (ctx : BlockContext) : Attempt Staking StakingError DepositReceipt :=
  if beneficiary.isZero then .fail s .zeroAddress
  else s.bookDeposit caller (.own beneficiary) amount ctx

/-- A deposit from the caller into one of its subaccounts. -/
def stakeAt (s : Staking) (caller : Address) (amount : Amount) (subaccount : Address)
    (ctx : BlockContext) : Attempt Staking StakingError DepositReceipt :=
  match s.checkSubaccount caller subaccount with
  | .error e => .fail s e
  | .ok () => s.bookDeposit caller ⟨caller, subaccount⟩ amount ctx

/-! ### Withdrawals -/

/-- What a lock forbids: a withdrawal from an own account that leaves less than is locked. -/
def checkLock (s : Staking) (account : StakeAccount) (amount : Amount) (ctx : BlockContext) :
    Except StakingError Unit :=
  if account.owner = account.subaccount then
    let locked := s.lockedBalance account.owner ctx
    if s.balance account.owner ctx - amount < locked then
      .error (.stakeLocked locked ((s.locks.get? account.owner).elim 0 (·.expiry)))
    else .ok ()
  else .ok ()

/-- Moves what shares release into the vault, then burns them. Shares that release nothing are kept. -/
def release (s : Staking) (account : StakeAccount) (shares : Amount) (ctx : BlockContext) :
    Attempt Staking StakingError WithdrawReceipt :=
  match s.pool.previewWithdraw account shares ctx.number with
  | .error e => .fail s e
  | .ok amount =>
    if amount = 0 then .ok s ⟨account, 0, 0, none⟩
    else
      match s.checkLock account amount ctx with
      | .error e => .fail s e
      | .ok () =>
        match Word.add? ctx.timestamp s.withdrawLockTime with
        | none => .fail s .overflow
        | some unlockTime =>
          match s.vault.deposit s.ledger s.account account.owner amount unlockTime with
          | .error e => .fail s e
          | .ok (id, vault, ledger) =>
            let s := { s with vault, ledger }
            match s.pool.withdrawShares account shares ctx.number with
            | .error e => .fail s e
            | .ok (released, pool) => .ok { s with pool } ⟨account, released, shares, some id⟩

/-- Withdraws up to an amount from the caller's own account. -/
def withdraw (s : Staking) (caller : Address) (amount : Amount) (ctx : BlockContext) :
    Attempt Staking StakingError WithdrawReceipt :=
  s.release (.own caller) (s.pool.sharesForCollateral (.own caller) amount ctx.number) ctx

/-- Withdraws up to an amount from one of the caller's subaccounts. -/
def withdrawFrom (s : Staking) (caller : Address) (amount : Amount) (subaccount : Address)
    (ctx : BlockContext) : Attempt Staking StakingError WithdrawReceipt :=
  match s.checkSubaccount caller subaccount with
  | .error e => .fail s e
  | .ok () =>
    let account := ⟨caller, subaccount⟩
    s.release account (s.pool.sharesForCollateral account amount ctx.number) ctx

/-- Burns shares of the caller's own account. -/
def withdrawShares (s : Staking) (caller : Address) (shares : Amount) (ctx : BlockContext) :
    Attempt Staking StakingError WithdrawReceipt :=
  s.release (.own caller) shares ctx

def withdrawDelayed (s : Staking) (caller : Address) (id : Nat) (ctx : BlockContext) :
    Attempt Staking StakingError DelayedPayment :=
  match s.vault.withdraw s.ledger caller id ctx.timestamp with
  | .error e => .fail s e
  | .ok (payment, vault, ledger) => .ok { s with vault, ledger } payment

/-! ### Rewards and locks -/

/-- Pulls a reward from the caller, then starts vesting it. -/
def distribute (s : Staking) (caller : Address) (amount : Amount) (ctx : BlockContext) :
    Attempt Staking StakingError VestingSchedule :=
  match s.pool.checkDistribute ctx.number with
  | .error e => .fail s e
  | .ok () =>
    if amount = 0 then .fail s .zeroAmount
    else
      match s.ledger.transferFrom s.account caller s.account amount with
      | .error e => .fail s e
      | .ok ledger =>
        let s := { s with ledger }
        match s.pool.distribute amount ctx.number with
        | .error e => .fail s e
        | .ok (schedule, pool) => .ok { s with pool } schedule

/-- Locks what an owner's own account is worth now, in place of an earlier lock. -/
def lockStake (s : Staking) (caller owner : Address) (expiry : Nat) (ctx : BlockContext) :
    Attempt Staking StakingError StakeLock :=
  if s.lockers.contains caller then
    let lock := ⟨s.balance owner ctx, expiry⟩
    .ok { s with locks := s.locks.insert owner lock } lock
  else .fail s (.notWhitelisted caller)

/-! ### Parameters -/

/-- Sets how long later withdrawals stay in the vault. -/
def setWithdrawLockTime (s : Staking) (secs : Nat) : Staking := { s with withdrawLockTime := secs }

/-- Sets over how many blocks later distributions vest. -/
def setVestingPeriod (s : Staking) (blocks : Nat) : Except StakingError Staking :=
  (s.pool.setPeriod blocks).map fun pool => { s with pool }

/-- Lets an account act on other subaccounts. -/
def addToWhitelist (s : Staking) (account : Address) : Except StakingError Staking :=
  (enroll s.whitelist account).map fun whitelist => { s with whitelist }

def removeFromWhitelist (s : Staking) (account : Address) : Except StakingError Staking :=
  (dismiss s.whitelist account).map fun whitelist => { s with whitelist }

def addLocker (s : Staking) (account : Address) : Except StakingError Staking :=
  (enroll s.lockers account).map fun lockers => { s with lockers }

def removeLocker (s : Staking) (account : Address) : Except StakingError Staking :=
  (dismiss s.lockers account).map fun lockers => { s with lockers }

end Staking

end PriceOracle
