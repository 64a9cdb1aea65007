import PriceOracle.Bytes
/-! The SHA-256 hash function, and message authentication codes made with it. -/
namespace PriceOracle.Sha256

/-- Turns a word to the right. -/
def rotate (w n : UInt32) : UInt32 := (w >>> n) ||| (w <<< (32 - n))

/-- The fractional parts of the cube roots of the first 64 primes. -/
def roundConstants : Vector UInt32 64 := #v[
  0x428a2f98, 0x71374491, 0xb5c0fbcf, 0xe9b5dba5, 0x3956c25b, 0x59f111f1, 0x923f82a4, 0xab1c5ed5,
  0xd807aa98, 0x12835b01, 0x243185be, 0x550c7dc3, 0x72be5d74, 0x80deb1fe, 0x9bdc06a7, 0xc19bf174,
  0xe49b69c1, 0xefbe4786, 0x0fc19dc6, 0x240ca1cc, 0x2de92c6f, 0x4a7484aa, 0x5cb0a9dc, 0x76f988da,
  0x983e5152, 0xa831c66d, 0xb00327c8, 0xbf597fc7, 0xc6e00bf3, 0xd5a79147, 0x06ca6351, 0x14292967,
  0x27b70a85, 0x2e1b2138, 0x4d2c6dfc, 0x53380d13, 0x650a7354, 0x766a0abb, 0x81c2c92e, 0x92722c85,
  0xa2bfe8a1, 0xa81a664b, 0xc24b8b70, 0xc76c51a3, 0xd192e819, 0xd6990624, 0xf40e3585, 0x106aa070,
  0x19a4c116, 0x1e376c08, 0x2748774c, 0x34b0bcb5, 0x391c0cb3, 0x4ed8aa4a, 0x5b9cca4f, 0x682e6ff3,
  0x748f82ee, 0x78a5636f, 0x84c87814, 0x8cc70208, 0x90befffa, 0xa4506ceb, 0xbef9a3f7, 0xc67178f2]

/-- The fractional parts of the square roots of the first eight primes. -/
def start : Vector UInt32 8 := #v[
  0x6a09e667, 0xbb67ae85, 0x3c6ef372, 0xa54ff53a, 0x510e527f, 0x9b05688c, 0x1f83d9ab, 0x5be0cd19]

/-- The first words of a block's schedule: its own sixteen, then each from four earlier ones. -/
def scheduleTo (block : Bytes) : (count : Nat) → Vector UInt32 count
  | 0 => #v[]
  | n + 1 =>
    let ws := scheduleTo block n
    if h : 16 ≤ n then
      let a := ws[n - 15]
      let b := ws[n - 2]
      ws.push (ws[n - 16] + (rotate a 7 ^^^ rotate a 18 ^^^ (a >>> 3)) + ws[n - 7]
        + (rotate b 17 ^^^ rotate b 19 ^^^ (b >>> 10)))
    else ws.push (UInt32.ofNat (Bytes.toNat ((block.drop (4 * n)).take 4)))

/-- One round, with a word of the schedule and a constant. -/
def round (s : Vector UInt32 8) (w k : UInt32) : Vector UInt32 8 :=
  let e := s[4]
  let a := s[0]
  let t := s[7] + (rotate e 6 ^^^ rotate e 11 ^^^ rotate e 25) + ((e &&& s[5]) ^^^ (~~~ e &&& s[6])) + k + w
  let u := (rotate a 2 ^^^ rotate a 13 ^^^ rotate a 22) + ((a &&& s[1]) ^^^ (a &&& s[2]) ^^^ (s[1] &&& s[2]))
  #v[t + u, a, s[1], s[2], s[3] + t, e, s[5], s[6]]

/-- Works a block into the state. -/
def compress (s : Vector UInt32 8) (block : Bytes) : Vector UInt32 8 :=
  let rounds := ((scheduleTo block 64).zip roundConstants).toList
  let t := rounds.foldl (fun t r => round t r.1 r.2) s
  s.zipWith (· + ·) t

/-- A message filled up to whole blocks of 64 bytes: the byte `0x80`, zeros, and the length in bits. -/
def padded (message : Bytes) : Bytes :=
  message ++ 0x80 :: List.replicate ((119 - message.length % 64) % 64) 0
    ++ Bytes.ofNat 8 (8 * message.length)

def compressAll (s : Vector UInt32 8) : (blocks : Nat) → Bytes → Vector UInt32 8
  | 0, _ => s
  | blocks + 1, bs => compressAll (compress s (bs.take 64)) blocks (bs.drop 64)

/-- The 32 bytes of a message's digest. -/
def digest (message : Bytes) : Bytes :=
  let text := padded message
  (compressAll start (text.length / 64) text).toList.flatMap (fun w => Bytes.ofNat 4 w.toNat)

/-- The authentication code of a message under a key. -/
def authCode (key message : Bytes) : Bytes :=
  let key := if 64 < key.length then digest key else key
  let key := key ++ List.replicate (64 - key.length) 0
  digest (key.map (· ^^^ 0x5c) ++ digest (key.map (· ^^^ 0x36) ++ message))

end PriceOracle.Sha256
