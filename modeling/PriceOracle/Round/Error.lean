import PriceOracle.Pair
import PriceOracle.Staking.Error
/-! What can go wrong with a pair's rounds and prices. -/
namespace PriceOracle

/-- Why a call on a pair was refused. -/
inductive RoundError where
  | unsupportedVersion (version : Nat)
  | pairMismatch (expected got : CoinPair)
  | zeroPrice
  | notVotedOracle (caller voted : Address)
  /-- The message was made against another publication. -/
  | staleBlock (expected got : Nat)
  | alreadyPublishedInBlock (block : Nat)
  | voterNotInRound (voter : Address)
  | notEnoughSignatures (got members : Nat)
  | cannotRecoverSignature (index : Nat)
  /-- The signers do not ascend strictly. -/
  | notUniqueOrNotOrdered (index : Nat)
  | signerNotInRound (signer : Address)
  | roundLockActive (lockUntil : Nat)
  | notWhitelisted (account : Address)
  | alreadyWhitelisted (account : Address)
  | zeroAddress
  | emergencyPeriodNotStarted (lastPublicationBlock period : Nat)
  | priceExpired (lastPublicationBlock : Nat)
  | alreadySubscribed (owner : Address)
  | notSubscribed (owner : Address)
  /-- The list is full, and the newcomer has no more stake than its tail. -/
  | notEnoughStakeToAdd (stake minStake : Amount)
  | notRegistered (owner : Address)
  | invalidConfig (detail : String)
  | overflow
  /-- A reward could not be paid. -/
  | ledger (cause : StakingError)
deriving DecidableEq

namespace RoundError

def name : RoundError → String
  | unsupportedVersion _ => "UnsupportedVersion"
  | pairMismatch .. => "PairMismatch"
  | zeroPrice => "ZeroPrice"
  | notVotedOracle .. => "NotVotedOracle"
  | staleBlock .. => "StaleBlock"
  | alreadyPublishedInBlock _ => "AlreadyPublishedInBlock"
  | voterNotInRound _ => "VoterNotInRound"
  | notEnoughSignatures .. => "NotEnoughSignatures"
  | cannotRecoverSignature _ => "CannotRecoverSignature"
  | notUniqueOrNotOrdered _ => "NotUniqueOrNotOrdered"
  | signerNotInRound _ => "SignerNotInRound"
  | roundLockActive _ => "RoundLockActive"
  | notWhitelisted _ => "NotWhitelisted"
  | alreadyWhitelisted _ => "AlreadyWhitelisted"
  | zeroAddress => "ZeroAddress"
  | emergencyPeriodNotStarted .. => "EmergencyPeriodNotStarted"
  | priceExpired _ => "PriceExpired"
  | alreadySubscribed _ => "AlreadySubscribed"
  | notSubscribed _ => "NotSubscribed"
  | notEnoughStakeToAdd .. => "NotEnoughStakeToAdd"
  | notRegistered _ => "NotRegistered"
  | invalidConfig _ => "InvalidConfig"
  | overflow => "Overflow"
  | ledger _ => "Ledger"

def message : RoundError → String
  | unsupportedVersion version =>
    "unsupported message version " ++ toString version ++ ", only V3 is accepted"
  | pairMismatch expected got =>
    "coin pair mismatch: expected " ++ toString expected ++ ", got " ++ toString got
  | zeroPrice => "price must be positive and non-zero"
  | notVotedOracle caller voted =>
    "sender " ++ toString caller ++ " does not match the voted oracle " ++ toString voted
  | staleBlock expected got =>
    "block number does not match the last publication block: expected " ++ toString expected ++ ", got "
      ++ toString got
  | alreadyPublishedInBlock block => "a price was already published in block " ++ toString block
  | voterNotInRound voter => "voter oracle " ++ toString voter ++ " is not part of this round"
  | notEnoughSignatures got members =>
    "signature count " ++ toString got ++ " must exceed 50% of " ++ toString members ++ " round members"
  | cannotRecoverSignature index => "cannot recover signature #" ++ toString index
  | notUniqueOrNotOrdered index =>
    "signatures are not unique or not ordered by address at #" ++ toString index
  | signerNotInRound signer => "address of signer " ++ toString signer ++ " not part of this round"
  | roundLockActive lockUntil => "the current round lock period is active until " ++ toString lockUntil
  | notWhitelisted account => "address is not whitelisted: " ++ toString account
  | alreadyWhitelisted account => "account already whitelisted: " ++ toString account
  | zeroAddress => "account must not be 0x0"
  | emergencyPeriodNotStarted lastPublicationBlock period =>
    "emergency publish period didn't start: last publication at " ++ toString lastPublicationBlock
      ++ ", period " ++ toString period
  | priceExpired lastPublicationBlock =>
    "price expired: published at block " ++ toString lastPublicationBlock
  | alreadySubscribed owner =>
    "oracle " ++ toString owner ++ " is already subscribed to this coin pair"
  | notSubscribed owner => "oracle " ++ toString owner ++ " is not subscribed to this coin pair"
  | notEnoughStakeToAdd stake minStake =>
    "not enough stake to add: " ++ toString stake ++ " does not exceed " ++ toString minStake
  | notRegistered owner => "oracle not registered: " ++ toString owner
  | invalidConfig detail => "invalid round config: " ++ detail
  | overflow => "arithmetic overflow in reward calculation"
  | ledger cause => "ledger error: " ++ cause.message

def kind : RoundError → FaultKind
  | unsupportedVersion _ | pairMismatch .. | zeroPrice | zeroAddress | invalidConfig _ | overflow =>
    .inputValidation
  | notVotedOracle .. | voterNotInRound _ | notWhitelisted _ => .authorization
  | notEnoughSignatures .. | cannotRecoverSignature _ | notUniqueOrNotOrdered _ | signerNotInRound _ =>
    .quorum
  | staleBlock .. | alreadyPublishedInBlock _ | roundLockActive _ | alreadyWhitelisted _
  | emergencyPeriodNotStarted .. | priceExpired _ | alreadySubscribed _ | notSubscribed _
  | notEnoughStakeToAdd .. | notRegistered _ => .stateInvariant
  | ledger cause => cause.kind

end RoundError

end PriceOracle
