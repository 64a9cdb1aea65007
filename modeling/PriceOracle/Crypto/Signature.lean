import PriceOracle.Crypto.Curve
import PriceOracle.Crypto.Keccak
import PriceOracle.Crypto.Sha256
import PriceOracle.Text.Quoted
/-! Recoverable signatures. A signature of a hash names its signer: the account of the public key that
it recovers to, which is the last 20 bytes of the hash of that key's coordinates. Signing draws its
nonce from the key and the hash, so a key has one signature for each hash. -/
namespace PriceOracle

/-- A recoverable signature; `v` is 27 or 28, by the parity of the nonce point. -/
structure Signature where
  v : UInt8
  r : Hash
  s : Hash
deriving DecidableEq, Inhabited

/-- What can be wrong with keys and signatures. -/
inductive CryptoError where
  /-- `v` is neither 27 nor 28. -/
  | invalidRecoveryId (v : UInt8)
  /-- `r` and `s` are no signature, or no key recovers from them. -/
  | recovery
  /-- A secret that is zero or not below the group's order. -/
  | invalidSecretKey
  /-- A text that spells no secret. -/
  | invalidInput (detail : String)
deriving DecidableEq

def CryptoError.name : CryptoError → String
  | invalidRecoveryId _ => "InvalidRecoveryId"
  | recovery => "Recovery"
  | invalidSecretKey => "InvalidSecretKey"
  | invalidInput _ => "InvalidInput"

def CryptoError.message : CryptoError → String
  | invalidRecoveryId v => "invalid recovery id: " ++ toString v.toNat
  | recovery => "cannot recover signature"
  | invalidSecretKey => "invalid secret key"
  | invalidInput detail => "invalid input: " ++ detail

def accountOfKey (x y : Nat) : Address := (keccak256 (Bytes.ofNat 32 x ++ Bytes.ofNat 32 y)).account

/-- The account that signed `hash`. Both halves must be positive and below the group's order; `s` may
lie in its upper half. -/
def recoverSigner (hash : Hash) (signature : Signature) : Except CryptoError Address :=
  if signature.v ≠ 27 ∧ signature.v ≠ 28 then .error (.invalidRecoveryId signature.v)
  else
    let r := signature.r.toNat
    let s := signature.s.toNat
    if r = 0 ∨ s = 0 ∨ Curve.order ≤ r ∨ Curve.order ≤ s then .error .recovery
    else
      match Curve.lift? r (signature.v = 28) with
      | none => .error .recovery
      | some point =>
        let w := Curve.invMod Curve.order r
        let onBase := (Curve.order - hash.toNat % Curve.order) * w % Curve.order
        let onPoint := s * w % Curve.order
        match ((Curve.Point.base.scale onBase).add (point.scale onPoint)).affine? with
        | none => .error .recovery
        | some (x, y) => .ok (accountOfKey x y)

/-! ### Signing -/

structure SigningKey where
  secret : Nat
  pos : 0 < secret
  lt_order : secret < Curve.order

namespace SigningKey

def ofNat (n : Nat) : Except CryptoError SigningKey :=
  if h : 0 < n ∧ n < Curve.order then .ok ⟨n, h.1, h.2⟩ else .error .invalidSecretKey

/-- Drops markers `0x`, however many. -/
def unmarked : List Char → List Char
  | '0' :: 'x' :: rest => unmarked rest
  | cs => cs

/-- The first byte that is no digit, and where it stands. -/
def misfit? (i : Nat) : Bytes → Option (Char × Nat)
  | [] => none
  | b :: bs =>
    let c := Char.ofNat b.toNat
    if (Hex.digit? c).isSome then misfit? (i + 1) bs else some (c, i)

/-- The key spelt by 64 digits after any markers. -/
def ofHex (secret : String) : Except CryptoError SigningKey :=
  let digits := Bytes.ofText (unmarked secret.toList)
  if digits.length % 2 = 1 then .error (.invalidInput "Odd number of digits")
  else
    match misfit? 0 digits with
    | some (c, i) => .error (.invalidInput
        ("Invalid character " ++ String.ofList (Text.quotedChar c) ++ " at position " ++ toString i))
    | none =>
      if digits.length = 64 then
        ofNat ((Hex.number? (digits.map (fun b => Char.ofNat b.toNat))).getD 0)
      else .error (.invalidInput "secret must be 32 bytes")

def address (key : SigningKey) : Address :=
  match (Curve.Point.base.scale key.secret).affine? with
  | some (x, y) => accountOfKey x y
  | none => .zero

/-- The key as it may be shown: by its account only. -/
def shown (key : SigningKey) : String :=
  "SigningKey \x7b address: " ++ toString key.address ++ " \x7d"

/-- The state of the generator of nonces: a key and a value of 32 bytes each. -/
structure Generator where
  key : Bytes
  value : Bytes

def Generator.mix (g : Generator) (seed : Bytes) : Generator :=
  let step (g : Generator) (mark : UInt8) : Generator :=
    let key := Sha256.authCode g.key (g.value ++ mark :: seed)
    ⟨key, Sha256.authCode key g.value⟩
  let g := step g 0
  if seed = [] then g else step g 1

def generator (key : SigningKey) (hash : Nat) : Generator :=
  Generator.mix ⟨List.replicate 32 0, List.replicate 32 1⟩
    (Bytes.ofNat 32 key.secret ++ Bytes.ofNat 32 hash)

/-- The signature made with a given nonce, with `s` in the lower half; nothing if the nonce is out of
range or a half comes out zero. -/
def signWith? (key : SigningKey) (hash nonce : Nat) : Option Signature :=
  if nonce = 0 ∨ Curve.order ≤ nonce then none
  else
    match (Curve.Point.base.scale nonce).affine? with
    | none => none
    | some (x, y) =>
      let r := x % Curve.order
      let s := Curve.invMod Curve.order nonce * (hash + r * key.secret) % Curve.order
      if r = 0 ∨ s = 0 then none
      else
        let high : Bool := Curve.order / 2 < s
        let odd : Bool := y % 2 = 1
        let id := (if Curve.order ≤ x then 2 else 0) + (if odd != high then 1 else 0)
        some ⟨UInt8.ofNat (27 + id), Hash.ofNat r, Hash.ofNat (if high then Curve.order - s else s)⟩

/-- Draws nonces until one makes a signature. -/
def signFrom (key : SigningKey) (hash : Nat) : (tries : Nat) → Generator → Signature
  | 0, _ => default
  | tries + 1, g =>
    let value := Sha256.authCode g.key g.value
    match signWith? key hash (Bytes.toNat value) with
    | some signature => signature
    | none => signFrom key hash tries (Generator.mix ⟨g.key, value⟩ [])

/-- The key's signature of a hash. That eight nonces in a row fail is beyond all odds. -/
def sign (key : SigningKey) (hash : Hash) : Signature :=
  let reduced := hash.toNat % Curve.order
  signFrom key reduced 8 (generator key reduced)

end SigningKey

end PriceOracle
