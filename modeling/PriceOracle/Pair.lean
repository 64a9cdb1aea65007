import PriceOracle.Fault
import PriceOracle.Table
import PriceOracle.Text.Quoted
import PriceOracle.Text.Utf8
/-! Coin pairs. A pair is 32 bytes: its ASCII name from the left, then zeros. Pairs stand in the order
of their bytes. -/
namespace PriceOracle

structure CoinPair where
  bytes : Bytes
  length_eq : bytes.length = 32
deriving DecidableEq

namespace CoinPair

/-- The texts that name a pair: not empty, at most 32 characters, all of them ASCII and none NUL. -/
def IsName (cs : List Char) : Prop :=
  cs ≠ [] ∧ cs.length ≤ 32 ∧ ∀ c ∈ cs, c.toNat < 128 ∧ c ≠ '\x00'

-- the characters of the text are tried, not all there are
instance (cs : List Char) : Decidable (IsName cs) :=
  haveI := List.decidableBAll (fun c : Char => c.toNat < 128 ∧ c ≠ '\x00') cs
  inferInstanceAs (Decidable (_ ∧ _))

def ofName? (s : String) : Option CoinPair :=
  if h : IsName s.toList then
    some ⟨s.toList.map (fun c => UInt8.ofNat c.toNat) ++ List.replicate (32 - s.toList.length) 0, by
      have := h.2.1
      simp only [List.length_append, List.length_map, List.length_replicate]
      omega⟩
  else none

/-- The pair with given bytes, if there are 32 of them. -/
def ofBytes? (bs : Bytes) : Option CoinPair := if h : bs.length = 32 then some ⟨bs, h⟩ else none

/-- The name: the bytes before the first zero, read as text. -/
def name (p : CoinPair) : String := String.ofList (Utf8.lossy (p.bytes.takeWhile (· != 0)))

instance : Inhabited CoinPair := ⟨⟨List.replicate 32 0, List.length_replicate⟩⟩

instance : ToString CoinPair := ⟨name⟩

theorem ext {p q : CoinPair} (h : p.bytes = q.bytes) : p = q := by
  cases p; cases q; cases h; rfl

instance : Ranked CoinPair where
  rank p := p.bytes.toNat
  rank_injective {p q} h := ext (Bytes.toNat_injective (p.length_eq.trans q.length_eq.symm) h)

end CoinPair

structure InvalidPairName where
  name : String
deriving DecidableEq

def InvalidPairName.message (e : InvalidPairName) : String :=
  "invalid coin pair name: " ++ String.ofList (Text.quoted e.name.toList)

/-- A wrong name is malformed input. -/
def InvalidPairName.kind (_ : InvalidPairName) : FaultKind := .inputValidation

/-- The pair with a given name, or the fault that there is none. -/
def CoinPair.ofName (s : String) : Except InvalidPairName CoinPair :=
  match ofName? s with
  | some p => .ok p
  | none => .error ⟨s⟩

end PriceOracle
