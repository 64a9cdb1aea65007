import PriceOracle.Text.Hex
import PriceOracle.Text.Hidden
/-! Text between quotation marks, as it stands in messages: the mark and the backslash are preceded by
a backslash, common controls have letters of their own, and other hidden characters are written by
their code. -/
namespace PriceOracle.Text

/-- One character between the marks `mark`. -/
def escaped (mark c : Char) : List Char :=
  if c = '\x00' then ['\\', '0']
  else if c = '\t' then ['\\', 't']
  else if c = '\r' then ['\\', 'r']
  else if c = '\n' then ['\\', 'n']
  else if c = '\\' then ['\\', '\\']
  else if c = mark then ['\\', mark]
  else if isHidden c then ['\\', 'u', '\x7b'] ++ Hex.minimal c.toNat ++ ['\x7d']
  else [c]

/-- A text between double quotation marks. -/
def quoted (cs : List Char) : List Char := ['\x22'] ++ cs.flatMap (escaped '\x22') ++ ['\x22']

/-- A single character between apostrophes. -/
def quotedChar (c : Char) : List Char := ['\x27'] ++ escaped '\x27' c ++ ['\x27']

end PriceOracle.Text
