import PriceOracle.Address
import PriceOracle.Amount
import PriceOracle.Json.Record
import PriceOracle.Pair
/-! The JSON forms of numbers, amounts, addresses, digests and pairs. Amounts are hexadecimal strings,
since most JSON readers lose digits of long numbers; counts, heights and times are numbers. -/
namespace PriceOracle

def Word.ofJson? : Json → Option Nat := Json.nat? Word.limit

def byteOfJson? (j : Json) : Option UInt8 := (j.nat? 256).map UInt8.ofNat

/-- The written form of an amount: `0x` and its digits without leading zeros. -/
def Amount.text (a : Amount) : List Char := '0' :: 'x' :: Hex.minimal a

/-- Reads one to 64 digits or blanks, with or without the marker. -/
def Amount.ofText? (cs : List Char) : Option Amount :=
  let digits := Hex.unmarked cs
  if digits ≠ [] ∧ digits.length ≤ 64 then Hex.spacedNumber? digits else none

def Amount.toJson (a : Amount) : Json := .str (String.ofList a.text)

def Amount.ofJson? (j : Json) : Option Amount := j.str?.bind (Amount.ofText? ·.toList)

def Address.toJson (a : Address) : Json := .str (toString a)

def Address.ofJson? (j : Json) : Option Address := j.str?.bind (Address.ofText? ·.toList)

def Hash.toJson (h : Hash) : Json := .str (String.ofList h.text)

def Hash.ofJson? (j : Json) : Option Hash := j.str?.bind (Hash.ofText? ·.toList)

def CoinPair.toJson (p : CoinPair) : Json := .str p.name

def CoinPair.ofJson? (j : Json) : Option CoinPair := j.str?.bind CoinPair.ofName?

def Address.listToJson (xs : List Address) : Json := .arr (xs.map toJson)

def Address.listOfJson? : Json → Option (List Address) := Json.listOf? ofJson?

/-- Something that may be absent, as null. -/
def Json.ofOption {α : Type} (f : α → Json) : Option α → Json
  | none => .null
  | some a => f a

end PriceOracle
