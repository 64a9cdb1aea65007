import PriceOracle.Staking.Error
/-! The collateral ledger: what every account holds, what it lets others move, and how much there is. -/
namespace PriceOracle

/-- Balances, allowances and the total supply. An account without an entry holds nothing. -/
structure Ledger where
  balances : Table Address Amount
  allowances : Table (Address × Address) Amount
  totalSupply : Amount
deriving DecidableEq, Inhabited

namespace Ledger

def empty : Ledger := ⟨.empty, .empty, 0⟩

def balanceOf (l : Ledger) (account : Address) : Amount := (l.balances.get? account).getD 0

/-- What `spender` may still move for `owner`. -/
def allowance (l : Ledger) (owner spender : Address) : Amount :=
  (l.allowances.get? (owner, spender)).getD 0

/-- Moves an amount between accounts. A transfer to oneself is checked and changes nothing. -/
def transfer (l : Ledger) (source target : Address) (amount : Amount) : Except StakingError Ledger :=
  let available := l.balanceOf source
  if available < amount then .error (.insufficientBalance source amount available)
  else
    match Amount.add? (l.balanceOf target) amount with
    | none => .error .overflow
    | some credited =>
      if source = target then .ok l
      else .ok { l with
        balances := (l.balances.insert source (available - amount)).insert target credited }

/-- Lets `spender` move up to an amount for `owner`, instead of what it could before. -/
def approve (l : Ledger) (owner spender : Address) (amount : Amount) : Ledger :=
  { l with allowances := l.allowances.insert (owner, spender) amount }

/-- Moves an amount on behalf of its holder, and takes it off the spender's allowance. -/
def transferFrom (l : Ledger) (spender source target : Address) (amount : Amount) :
    Except StakingError Ledger :=
  let allowed := l.allowance source spender
  if allowed < amount then .error (.insufficientAllowance amount allowed)
  else
    match l.transfer source target amount with
    | .error e => .error e
    | .ok l => .ok (l.approve source spender (allowed - amount))

/-- Creates an amount for an account. -/
def mint (l : Ledger) (target : Address) (amount : Amount) : Except StakingError Ledger :=
  match Amount.add? l.totalSupply amount, Amount.add? (l.balanceOf target) amount with
  | some supply, some balance =>
    .ok { l with totalSupply := supply, balances := l.balances.insert target balance }
  | _, _ => .error .overflow

end Ledger

/-- What rewards are paid from: something that tells balances and moves collateral. -/
class CollateralLedger (L : Type) where
  balanceOf : L → Address → Amount
  /-- A transfer that fails changes nothing. -/
  transfer : L → Address → Address → Amount → Except StakingError L

instance : CollateralLedger Ledger := ⟨Ledger.balanceOf, Ledger.transfer⟩

end PriceOracle
