/-! The four categories that every failure of the network falls into. -/
namespace PriceOracle

/-- Why a call was refused. -/
inductive FaultKind where
  /-- Malformed input, refused before any state is looked at. -/
  | inputValidation
  /-- The caller lacks ownership, a whitelist entry or governance approval. -/
  | authorization
  /-- Valid in general, but not in the present state. -/
  | stateInvariant
  /-- The signatures do not certify the publication. -/
  | quorum
deriving DecidableEq, Repr

namespace FaultKind

/-- The stable identifier that callers see. -/
def label : FaultKind → String
  | inputValidation => "INPUT_VALIDATION"
  | authorization => "AUTHORIZATION"
  | stateInvariant => "STATE_INVARIANT"
  | quorum => "QUORUM"

/-- The name that stands for the category in data. -/
def name : FaultKind → String
  | inputValidation => "input_validation"
  | authorization => "authorization"
  | stateInvariant => "state_invariant"
  | quorum => "quorum"

def all : List FaultKind := [inputValidation, authorization, stateInvariant, quorum]

def ofName? (s : String) : Option FaultKind := all.find? (·.name == s)

end FaultKind

end PriceOracle
