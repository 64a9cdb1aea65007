import PriceOracle.Address
/-! The Keccak-256 hash function: the sponge over the permutation of 25 lanes of 64 bits, with 136 bytes
absorbed at a time and the padding that begins with the byte 1. -/
namespace PriceOracle

namespace Keccak

/-- The 25 lanes; lane `(x, y)` stands at `x + 5 * y`. -/
abbrev Lanes := Vector UInt64 25

/-- The lane at `(x, y)`, counted around the sheet. -/
def lane (a : Lanes) (x y : Nat) : UInt64 := a.get ⟨x % 5 + 5 * (y % 5), by omega⟩

/-- The lanes given by a function of their place. -/
def tabulate (f : Nat → Nat → UInt64) : Lanes := .ofFn fun i => f (i.val % 5) (i.val / 5)

/-- Turns a word to the left. -/
def rotate (w : UInt64) (n : Nat) : UInt64 :=
  if n = 0 then w else (w <<< UInt64.ofNat n) ||| (w >>> UInt64.ofNat (64 - n))

/-- How far each lane is turned. -/
def offsets : Vector Nat 25 := #v[
  0, 1, 62, 28, 27,
  36, 44, 6, 55, 20,
  3, 10, 43, 25, 39,
  41, 45, 15, 21, 8,
  18, 2, 61, 56, 14]

def roundConstants : List UInt64 := [
  0x0000000000000001, 0x0000000000008082, 0x800000000000808a, 0x8000000080008000,
  0x000000000000808b, 0x0000000080000001, 0x8000000080008081, 0x8000000000008009,
  0x000000000000008a, 0x0000000000000088, 0x0000000080008009, 0x000000008000000a,
  0x000000008000808b, 0x800000000000008b, 0x8000000000008089, 0x8000000000008003,
  0x8000000000008002, 0x8000000000000080, 0x000000000000800a, 0x800000008000000a,
  0x8000000080008081, 0x8000000000008080, 0x0000000080000001, 0x8000000080008008]

/-- Adds to each lane the parities of two neighbouring columns. -/
def theta (a : Lanes) : Lanes :=
  let parity : Vector UInt64 5 := .ofFn fun x =>
    lane a x 0 ^^^ lane a x 1 ^^^ lane a x 2 ^^^ lane a x 3 ^^^ lane a x 4
  let column (x : Nat) : UInt64 := parity.get ⟨x % 5, by omega⟩
  let spread : Vector UInt64 5 := .ofFn fun x => column (x + 4) ^^^ rotate (column (x + 1)) 1
  tabulate fun x y => lane a x y ^^^ spread.get ⟨x % 5, by omega⟩

/-- Turns every lane and moves it to its new place. -/
def rhoPi (a : Lanes) : Lanes :=
  tabulate fun x y =>
    rotate (lane a (x + 3 * y) x) (offsets.get ⟨(x + 3 * y) % 5 + 5 * (x % 5), by omega⟩)

/-- Mixes each lane with the next two of its row. -/
def chi (a : Lanes) : Lanes :=
  tabulate fun x y => lane a x y ^^^ (~~~ lane a (x + 1) y &&& lane a (x + 2) y)

def round (a : Lanes) (constant : UInt64) : Lanes :=
  let a := chi (rhoPi (theta a))
  a.set 0 (a[0] ^^^ constant)

/-- The permutation: all rounds in turn. -/
def permute (a : Lanes) : Lanes := roundConstants.foldl round a

/-- How many bytes are absorbed at a time. -/
def rate : Nat := 136

/-- The word that eight bytes spell, least significant first. -/
def littleEndian (bs : Bytes) : UInt64 := UInt64.ofNat (Bytes.toNat bs.reverse)

/-- Adds a block to the first lanes and permutes. -/
def absorb (a : Lanes) (block : Bytes) : Lanes :=
  permute (.ofFn fun i => a[i] ^^^ littleEndian ((block.drop (8 * i.val)).take 8))

/-- A message filled up to whole blocks: a byte 1, zeros, and the top bit of the last byte. -/
def padded (message : Bytes) : Bytes :=
  let free := rate - message.length % rate
  if free = 1 then message ++ [0x81]
  else message ++ 1 :: List.replicate (free - 2) 0 ++ [0x80]

def absorbAll (a : Lanes) : (blocks : Nat) → Bytes → Lanes
  | 0, _ => a
  | blocks + 1, bs => absorbAll (absorb a (bs.take rate)) blocks (bs.drop rate)

/-- The eight bytes of a word, least significant first. -/
def wordBytes (w : UInt64) : Bytes := (Bytes.ofNat 8 w.toNat).reverse

/-- The 32 bytes of a message's digest. -/
def digest (message : Bytes) : Bytes :=
  let text := padded message
  let a := absorbAll (.replicate 25 0) (text.length / rate) text
  [a[0], a[1], a[2], a[3]].flatMap wordBytes

end Keccak

def keccak256 (message : Bytes) : Hash := Hash.ofNat (Keccak.digest message).toNat

/-- What is hashed for a signature over `message`: a fixed opening, the length in decimal digits, and
the message. The opening begins with a byte that begins no transaction. -/
def signedText (message : Bytes) : Bytes :=
  0x19 :: Bytes.ofString "Ethereum Signed Message:\n" ++ Bytes.ofText (Nat.toDigits 10 message.length)
    ++ message

def signedMessageHash (message : Bytes) : Hash := keccak256 (signedText message)

end PriceOracle
