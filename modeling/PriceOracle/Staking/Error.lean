import PriceOracle.Address
import PriceOracle.Amount
import PriceOracle.Fault
/-! What can go wrong with collateral: on the ledger, in the pool, in the vault and with stake locks. -/
namespace PriceOracle

/-- Why a call on collateral was refused. -/
inductive StakingError where
  | zeroAmount
  | zeroAddress
  /-- A debit exceeds what the account holds. -/
  | insufficientBalance (account : Address) (needed available : Amount)
  /-- A delegated debit exceeds what was approved. -/
  | insufficientAllowance (needed available : Amount)
  /-- A burn exceeds the holder's shares. -/
  | insufficientShares (needed available : Amount)
  /-- The last schedule is still running, or nobody holds shares. -/
  | notReadyToDistribute
  | notWhitelisted (account : Address)
  | alreadyWhitelisted (account : Address)
  /-- A withdrawal would leave less than is locked. -/
  | stakeLocked (locked : Amount) (expiry : Nat)
  /-- No such payment, or it is somebody else's. -/
  | invalidId (id : Nat)
  /-- The payment is still locked. -/
  | notExpired (unlockTime : Nat)
  | invalidConfig (detail : String)
  | overflow
deriving DecidableEq

namespace StakingError

def name : StakingError → String
  | zeroAmount => "ZeroAmount"
  | zeroAddress => "ZeroAddress"
  | insufficientBalance .. => "InsufficientBalance"
  | insufficientAllowance .. => "InsufficientAllowance"
  | insufficientShares .. => "InsufficientShares"
  | notReadyToDistribute => "NotReadyToDistribute"
  | notWhitelisted _ => "NotWhitelisted"
  | alreadyWhitelisted _ => "AlreadyWhitelisted"
  | stakeLocked .. => "StakeLocked"
  | invalidId _ => "InvalidId"
  | notExpired _ => "NotExpired"
  | invalidConfig _ => "InvalidConfig"
  | overflow => "Overflow"

def message : StakingError → String
  | zeroAmount => "amount is zero"
  | zeroAddress => "account must not be 0x0"
  | insufficientBalance account needed available =>
    "insufficient balance for " ++ toString account ++ ": need " ++ toString needed ++ ", have "
      ++ toString available
  | insufficientAllowance needed available =>
    "insufficient allowance: need " ++ toString needed ++ ", have " ++ toString available
  | insufficientShares needed available =>
    "insufficient shares: need " ++ toString needed ++ ", have " ++ toString available
  | notReadyToDistribute => "not ready to distribute"
  | notWhitelisted account => "address is not whitelisted: " ++ toString account
  | alreadyWhitelisted account => "account already whitelisted: " ++ toString account
  | stakeLocked locked expiry =>
    "stake not available for withdrawal: " ++ toString locked ++ " locked until " ++ toString expiry
  | invalidId id => "invalid delayed payment id " ++ toString id
  | notExpired unlockTime => "delayed payment not expired: unlocks at " ++ toString unlockTime
  | invalidConfig detail => "invalid staking config: " ++ detail
  | overflow => "arithmetic overflow in staking calculation"

def kind : StakingError → FaultKind
  | zeroAmount | zeroAddress | invalidConfig _ | overflow => .inputValidation
  | notWhitelisted _ | invalidId _ => .authorization
  | insufficientBalance .. | insufficientAllowance .. | insufficientShares .. | notReadyToDistribute
  | alreadyWhitelisted _ | stakeLocked .. | notExpired _ => .stateInvariant

end StakingError

end PriceOracle
