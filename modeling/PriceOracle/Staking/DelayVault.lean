import PriceOracle.Staking.Ledger
/-! The vault that holds withdrawn collateral until it may be collected. -/
namespace PriceOracle

/-- Collateral that waits for its beneficiary. -/
structure DelayedPayment where
  /-- The account it came from. -/
  source : Address
  /-- The account that may collect it. -/
  beneficiary : Address
  amount : Amount
  /-- The first moment at which it may be collected. -/
  unlockTime : Nat
deriving DecidableEq, Inhabited

/-- Payments by their ids, and the account on the ledger that holds them. -/
structure DelayVault where
  account : Address
  payments : Table Nat DelayedPayment
  nextId : Nat
deriving DecidableEq, Inhabited

namespace DelayVault

/-- An empty vault, whose first payment will have the id 1. -/
def new (account : Address) : DelayVault := ⟨account, .empty, 1⟩

def get? (v : DelayVault) (id : Nat) : Option DelayedPayment := v.payments.get? id

/-- Moves an amount into the vault for a beneficiary and answers the payment's id. -/
def deposit (v : DelayVault) (ledger : Ledger) (source beneficiary : Address) (amount : Amount)
    (unlockTime : Nat) : Except StakingError (Nat × DelayVault × Ledger) :=
  if amount = 0 then .error .zeroAmount
  else if beneficiary.isZero then .error .zeroAddress
  else
    match ledger.transfer source v.account amount with
    | .error e => .error e
    | .ok ledger =>
      let payment := ⟨source, beneficiary, amount, unlockTime⟩
      .ok (v.nextId,
        { v with payments := v.payments.insert v.nextId payment, nextId := v.nextId + 1 }, ledger)

/-- Pays a payment out to its beneficiary, who must be the caller. -/
def withdraw (v : DelayVault) (ledger : Ledger) (caller : Address) (id now : Nat) :
    Except StakingError (DelayedPayment × DelayVault × Ledger) :=
  match v.payments.get? id with
  | none => .error (.invalidId id)
  | some payment =>
    if payment.beneficiary ≠ caller then .error (.invalidId id)
    else if now < payment.unlockTime then .error (.notExpired payment.unlockTime)
    else
      match ledger.transfer v.account payment.beneficiary payment.amount with
      | .error e => .error e
      | .ok ledger => .ok (payment, { v with payments := v.payments.erase id }, ledger)

/-- The payments that wait for a beneficiary, in the order of their ids. -/
def pending (v : DelayVault) (beneficiary : Address) : List (Nat × DelayedPayment) :=
  v.payments.toList.filter (fun p => p.2.beneficiary = beneficiary)

end DelayVault

end PriceOracle
