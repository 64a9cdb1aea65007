import PriceOracle.Address
import PriceOracle.Amount
import PriceOracle.Fault
/-! What can go wrong in the registry of oracles. -/
namespace PriceOracle

/-- Why the registry refused a call. -/
inductive RegistryError where
  /-- The owner is the address nobody controls. -/
  | zeroOwner
  /-- The reporting address is the one nobody controls. -/
  | zeroReporter
  | ownerAlreadyRegistered (owner : Address)
  | addressAlreadyRegistered (address : Address)
  | notRegistered (owner : Address)
  /-- The hint given with a change was wrong. -/
  | invalidHint (cause : RegistryError)
  /-- The hinted predecessor is no oracle. -/
  | invalidPrevEntry (owner : Address)
  /-- The hinted predecessor is not the predecessor. -/
  | wrongPrevEntry (expected got : Option Address)
  /-- A decrease exceeds the stake. -/
  | stakeUnderflow (stake decrease : Amount)
  | overflow
deriving DecidableEq

namespace RegistryError

/-- A place in the order, by its predecessor. -/
def place : Option Address → String
  | none => "None"
  | some owner => "Some(" ++ toString owner ++ ")"

def name : RegistryError → String
  | zeroOwner | zeroReporter => "ZeroAddress"
  | ownerAlreadyRegistered _ => "OwnerAlreadyRegistered"
  | addressAlreadyRegistered _ => "AddressAlreadyRegistered"
  | notRegistered _ => "NotRegistered"
  | invalidHint _ => "InvalidHint"
  | invalidPrevEntry _ => "InvalidPrevEntry"
  | wrongPrevEntry .. => "WrongPrevEntry"
  | stakeUnderflow .. => "StakeUnderflow"
  | overflow => "Overflow"

def message : RegistryError → String
  | zeroOwner => "owner address cannot be 0x0"
  | zeroReporter => "oracle address cannot be 0x0"
  | ownerAlreadyRegistered owner => "owner " ++ toString owner ++ " already registered"
  | addressAlreadyRegistered address => "oracle " ++ toString address ++ " already registered"
  | notRegistered owner => "oracle not registered: " ++ toString owner
  | invalidHint cause => "invalid position hint: " ++ cause.message
  | invalidPrevEntry owner => "invalid prev entry " ++ toString owner
  | wrongPrevEntry expected got => "wrong prev entry: expected " ++ place expected ++ ", got " ++ place got
  | stakeUnderflow stake decrease =>
    "stake underflow: stake " ++ toString stake ++ ", decrease " ++ toString decrease
  | overflow => "arithmetic overflow in stake update"

def kind : RegistryError → FaultKind
  | zeroOwner | zeroReporter | stakeUnderflow .. | overflow => .inputValidation
  | ownerAlreadyRegistered _ | addressAlreadyRegistered _ | notRegistered _ | invalidHint _
  | invalidPrevEntry _ | wrongPrevEntry .. => .stateInvariant

end RegistryError

end PriceOracle
