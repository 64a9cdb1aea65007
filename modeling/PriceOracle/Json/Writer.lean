import PriceOracle.Binary64.Shortest
import PriceOracle.Json.Basic
import PriceOracle.Text.Hex
/-! Writing JSON without blanks. The canonical form of a value has the members of every object in
ascending order of their names, so it does not depend on the order in which they were given. -/
namespace PriceOracle.Json

/-- One character of a string. Only the quotation mark, the backslash and controls are escaped. -/
def escaped (c : Char) : List Char :=
  if c = '\x22' then ['\\', '\x22']
  else if c = '\\' then ['\\', '\\']
  else if c = '\x08' then ['\\', 'b']
  else if c = '\x0c' then ['\\', 'f']
  else if c = '\n' then ['\\', 'n']
  else if c = '\r' then ['\\', 'r']
  else if c = '\t' then ['\\', 't']
  else if c.toNat < 0x20 then ['\\', 'u', '0', '0'] ++ Hex.padded 2 c.toNat
  else [c]

def quoted (s : String) : List Char := '\x22' :: s.toList.flatMap escaped ++ ['\x22']

/-- The decimal digits of a whole number, after a minus sign if it is negative. -/
def decimal (i : Int) : List Char :=
  if i < 0 then '-' :: Nat.toDigits 10 i.natAbs else Nat.toDigits 10 i.natAbs

mutual

/-- The text of a value. -/
def written : Json → List Char
  | .null => ['n', 'u', 'l', 'l']
  | .bool true => ['t', 'r', 'u', 'e']
  | .bool false => ['f', 'a', 'l', 's', 'e']
  | .int i => decimal i
  | .float x => x.text.toList
  | .str s => quoted s
  | .arr xs => '[' :: (writtenItems xs ++ [']'])
  | .obj ms => '\x7b' :: (writtenMembers ms ++ ['\x7d'])

/-- The texts of items, with commas between them. -/
def writtenItems : List Json → List Char
  | [] => []
  | [x] => written x
  | x :: xs => written x ++ ',' :: writtenItems xs

/-- The texts of members, with commas between them. -/
def writtenMembers : List (String × Json) → List Char
  | [] => []
  | [(k, v)] => quoted k ++ ':' :: written v
  | (k, v) :: ms => quoted k ++ ':' :: written v ++ ',' :: writtenMembers ms

end

/-- Puts a member in its place among members in ascending order of their names. -/
def place (m : String × Json) : List (String × Json) → List (String × Json)
  | [] => [m]
  | x :: xs => if m.1 < x.1 then m :: x :: xs else x :: place m xs

mutual

/-- The value with the members of every object in ascending order of their names. -/
def canonical : Json → Json
  | .arr xs => .arr (canonicalItems xs)
  | .obj ms => .obj (canonicalMembers ms)
  | j => j

def canonicalItems : List Json → List Json
  | [] => []
  | x :: xs => canonical x :: canonicalItems xs

/-- The canonical forms of members, in ascending order of the names. -/
def canonicalMembers : List (String × Json) → List (String × Json)
  | [] => []
  | (k, v) :: ms => place (k, canonical v) (canonicalMembers ms)

end

/-- The text of a value as a string. -/
def text (j : Json) : String := String.ofList (written j)

end PriceOracle.Json
