import PriceOracle.PriceMessage
import PriceOracle.Wire.Scalar
/-! The JSON forms of price messages and signatures. -/
namespace PriceOracle

def Signature.toJson (g : Signature) : Json :=
  .obj [("v", .nat g.v.toNat), ("r", g.r.toJson), ("s", g.s.toJson)]

def Signature.ofJson? (j : Json) : Option Signature := do
  let f ← Json.Fields.of? ["v", "r", "s"] j
  return ⟨← f.get "v" byteOfJson?, ← f.get "r" Hash.ofJson?, ← f.get "s" Hash.ofJson?⟩

def PriceMessage.toJson (m : PriceMessage) : Json :=
  .obj [("version", .nat m.version), ("pair", m.pair.toJson), ("price", m.price.toJson),
    ("voted_oracle", m.votedOracle.toJson), ("last_publication_block", .nat m.lastPublicationBlock)]

def PriceMessage.ofJson? (j : Json) : Option PriceMessage := do
  let f ← Json.Fields.of? ["version", "pair", "price", "voted_oracle", "last_publication_block"] j
  return {
    version := ← f.get "version" Word.ofJson?
    pair := ← f.get "pair" CoinPair.ofJson?
    price := ← f.get "price" Amount.ofJson?
    votedOracle := ← f.get "voted_oracle" Address.ofJson?
    lastPublicationBlock := ← f.get "last_publication_block" Word.ofJson? }

end PriceOracle
