import PriceOracle.Bytes
/-! Reading bytes as UTF-8 text. A stretch of bytes that begins a character but does not finish it is
read as one replacement character; so is a byte that begins none. -/
namespace PriceOracle.Utf8

/-- Stands for bytes that are no text. -/
def replacement : Char := Char.ofNat 0xfffd

/-- For a first byte: how many bytes must follow, and the range of the next one. -/
def followers (b : UInt8) : Option (Nat × UInt8 × UInt8) :=
  if b < 0x80 then some (0, 0x80, 0xbf)
  else if b < 0xc2 then none
  else if b < 0xe0 then some (1, 0x80, 0xbf)
  else if b = 0xe0 then some (2, 0xa0, 0xbf)
  else if b = 0xed then some (2, 0x80, 0x9f)
  else if b < 0xf0 then some (2, 0x80, 0xbf)
  else if b = 0xf0 then some (3, 0x90, 0xbf)
  else if b < 0xf4 then some (3, 0x80, 0xbf)
  else if b = 0xf4 then some (3, 0x80, 0x8f)
  else none

/-- The value bits of a first byte with the given number of followers. -/
def leadBits (b : UInt8) : Nat → Nat
  | 0 => b.toNat
  | 1 => b.toNat % 32
  | 2 => b.toNat % 16
  | _ => b.toNat % 8

/-- Reads text, where `missing` more bytes, the next one from `lo` to `hi`, finish the character whose
value so far is `value`. -/
def read (missing : Nat) (value : Nat) (lo hi : UInt8) : Bytes → List Char
  | [] => if missing = 0 then [] else [replacement]
  | b :: rest =>
    if missing ≠ 0 ∧ lo ≤ b ∧ b ≤ hi then
      let value := value * 64 + b.toNat % 64
      if missing = 1 then Char.ofNat value :: read 0 0 0x80 0xbf rest
      else read (missing - 1) value 0x80 0xbf rest
    else
      let cut := if missing = 0 then [] else [replacement]
      match followers b with
      | none => cut ++ replacement :: read 0 0 0x80 0xbf rest
      | some (0, _, _) => cut ++ Char.ofNat b.toNat :: read 0 0 0x80 0xbf rest
      | some (n, lo, hi) => cut ++ read n (leadBits b n) lo hi rest

/-- The text of a byte string. -/
def lossy (bs : Bytes) : List Char := read 0 0 0x80 0xbf bs

end PriceOracle.Utf8
