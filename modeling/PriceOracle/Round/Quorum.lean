import PriceOracle.Crypto.Signature
import PriceOracle.Round.Error
/-! Sets of signatures. A list of signatures certifies a hash for a round if each one recovers, the
signers ascend strictly and each of them has a seat. Strict ascent leaves no room for a repeated
signer. -/
namespace PriceOracle

/-- The signers of a list of signatures, of which the first is number `index` and has a signer above
`above`. The first signature that fails decides the error. -/
def signersFrom (hash : Hash) (isMember : Address → Bool) (index : Nat) (above : Option Address) :
    List Signature → Except RoundError (List Address)
  | [] => .ok []
  | signature :: rest =>
    match recoverSigner hash signature with
    | .error _ => .error (.cannotRecoverSignature index)
    | .ok signer =>
      if above.any (signer.toNat ≤ ·.toNat) then .error (.notUniqueOrNotOrdered index)
      else if isMember signer then
        (signersFrom hash isMember (index + 1) (some signer) rest).map (signer :: ·)
      else .error (.signerNotInRound signer)

/-- The signers of a list of signatures, in ascending order. -/
def verifySignatures (hash : Hash) (isMember : Address → Bool) (signatures : List Signature) :
    Except RoundError (List Address) :=
  signersFrom hash isMember 0 none signatures

end PriceOracle
