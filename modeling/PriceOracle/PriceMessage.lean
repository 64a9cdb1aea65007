import PriceOracle.Amount
import PriceOracle.Crypto.Signature
import PriceOracle.Pair
/-! The message that certifies a price: 148 bytes, every field big-endian and of fixed width. The
version stands at byte 0, the pair at 32, the price at 64, the address of the proposing oracle at 96 and
the block of the last publication at 116. -/
namespace PriceOracle

/-- What the co-signers of a publication certify. -/
structure PriceMessage where
  version : Nat
  pair : CoinPair
  price : Amount
  /-- The address of the proposer, who must also submit. -/
  votedOracle : Address
  /-- The publication block that the proposer saw. -/
  lastPublicationBlock : Nat
deriving DecidableEq, Inhabited

namespace PriceMessage

/-- The only version in use. -/
def currentVersion : Nat := 3

/-- The 148 bytes. -/
def encode (m : PriceMessage) : Bytes :=
  Bytes.ofNat 32 m.version ++ m.pair.bytes ++ Bytes.ofNat 32 m.price ++ m.votedOracle.bytes
    ++ Bytes.ofNat 32 m.lastPublicationBlock

/-- The hash that co-signers sign. -/
def signingHash (m : PriceMessage) : Hash := signedMessageHash m.encode

def sign (m : PriceMessage) (key : SigningKey) : Signature := key.sign m.signingHash

theorem length_encode (m : PriceMessage) : m.encode.length = 148 := by
  simp [encode, Address.bytes, m.pair.length_eq]

end PriceMessage

end PriceOracle
