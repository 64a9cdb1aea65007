import PriceOracle.Bytes
/-! Hexadecimal text of numbers and of byte strings. Digits are written in lower case and read in
either case. In the text of a number blanks may stand between the digits; they count as part of its
length. -/
namespace PriceOracle.Hex

/-- The digit for a value below 16. -/
def digit (n : Nat) : Char :=
  if n < 10 then Char.ofNat (48 + n) else Char.ofNat (87 + n)

def digit? (c : Char) : Option Nat :=
  if '0' ≤ c ∧ c ≤ '9' then some (c.toNat - 48)
  else if 'a' ≤ c ∧ c ≤ 'f' then some (c.toNat - 87)
  else if 'A' ≤ c ∧ c ≤ 'F' then some (c.toNat - 55)
  else none

/-- The last `width` digits of a number. -/
def padded : (width : Nat) → (n : Nat) → List Char
  | 0, _ => []
  | width + 1, n => padded width (n / 16) ++ [digit (n % 16)]

/-- How many digits a number needs; zero needs one. -/
def width (n : Nat) : Nat := if n = 0 then 1 else Nat.log2 n / 4 + 1

/-- A number without leading zeros. -/
def minimal (n : Nat) : List Char := padded (width n) n

/-- The number that a run of digits spells; nothing if some character is no digit. -/
def number? (cs : List Char) : Option Nat :=
  cs.foldlM (fun n c => (digit? c).map (n * 16 + ·)) 0

def ofBytes (bs : Bytes) : List Char := bs.flatMap (fun b => padded 2 b.toNat)

def bytes? : List Char → Option Bytes
  | [] => some []
  | [_] => none
  | a :: b :: rest => do
    let hi ← digit? a
    let lo ← digit? b
    return UInt8.ofNat (hi * 16 + lo) :: (← bytes? rest)

/-- Whether a character may stand between digits. -/
def isBlank (c : Char) : Bool := c = ' ' || c = '\t' || c = '\n' || c = '\r'

/-- The digits of a text with blanks. Digits fill bytes two at a time, and the length of the whole text
decides which half of a byte is the first one's. So with an odd number of blanks the last digit would
fill half a byte, and it is dropped. Nothing if a character is neither digit nor blank. -/
def spaced? (cs : List Char) : Option (List Char) :=
  let digits := cs.filter (!isBlank ·)
  if digits.all (fun c => (digit? c).isSome) then
    some (if (cs.length - digits.length) % 2 = 0 then digits else digits.dropLast)
  else none

/-- The number that a text with blanks spells. -/
def spacedNumber? (cs : List Char) : Option Nat := (spaced? cs).bind number?

/-- The number of exactly `width` digits that a text of that length spells, for even `width`. Blanks
leave digits missing at the end, and those are zeros. -/
def fixedNumber? (width : Nat) (cs : List Char) : Option Nat := do
  guard (cs.length = width)
  let digits ← spaced? cs
  return (← number? digits) <<< (4 * (width - digits.length))

/-- Drops one leading marker `0x`. -/
def unmarked : List Char → List Char
  | '0' :: 'x' :: rest => rest
  | cs => cs

end PriceOracle.Hex
