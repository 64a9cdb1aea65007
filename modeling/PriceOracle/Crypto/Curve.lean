/-! The curve `y² = x³ + 7` over the field of integers modulo a prime, with a base point of prime order:
the group that accounts sign with. Points are computed in coordinates `(X, Y, Z)` standing for the
point `(X / Z², Y / Z³)`, so that only the last step divides. -/
namespace PriceOracle.Curve

def fieldSize : Nat := 0xfffffffffffffffffffffffffffffffffffffffffffffffffffffffefffffc2f

/-- The order of the base point, and of every other point but the neutral one. -/
def order : Nat := 0xfffffffffffffffffffffffffffffffebaaedce6af48a03bbfd25e8cd0364141

/-! ### Arithmetic modulo a number -/

/-- `b ^ e` modulo `m`, from the lowest of `bits` bits of the exponent up. -/
def powMod (m : Nat) : (bits : Nat) → (b e acc : Nat) → Nat
  | 0, _, _, acc => acc
  | bits + 1, b, e, acc => powMod m bits (b * b % m) (e / 2) (if e % 2 = 1 then acc * b % m else acc)

/-- The inverse modulo a prime below `2 ^ 256`; of zero it is zero. -/
def invMod (m a : Nat) : Nat := powMod m 256 (a % m) (m - 2) 1

def sub (a b : Nat) : Nat := (a + (fieldSize - b % fieldSize)) % fieldSize

def mul (a b : Nat) : Nat := a * b % fieldSize

/-- A square root in the field, of a number that has one. -/
def sqrt (a : Nat) : Nat := powMod fieldSize 256 (a % fieldSize) ((fieldSize + 1) / 4) 1

/-! ### Points -/

/-- A point in scaled coordinates; `z = 0` is the neutral point. -/
structure Point where
  x : Nat
  y : Nat
  z : Nat

def Point.neutral : Point := ⟨1, 1, 0⟩

def Point.base : Point where
  x := 0x79be667ef9dcbbac55a06295ce870b07029bfcdb2dce28d959f2815b16f81798
  y := 0x483ada7726a3c4655da4fbfc0e1108a8fd17b448a68554199c47d08ffb10d4b8
  z := 1

def Point.double (p : Point) : Point :=
  if p.z = 0 ∨ p.y = 0 then .neutral else
  let yy := mul p.y p.y
  let s := mul 4 (mul p.x yy)
  let m := mul 3 (mul p.x p.x)
  let x := sub (mul m m) (2 * s)
  ⟨x, sub (mul m (sub s x)) (mul 8 (mul yy yy)), mul 2 (mul p.y p.z)⟩

def Point.add (p q : Point) : Point :=
  if p.z = 0 then q
  else if q.z = 0 then p
  else
    let pz := mul p.z p.z
    let qz := mul q.z q.z
    let u := mul p.x qz
    let v := mul q.x pz
    let s := mul p.y (mul qz q.z)
    let t := mul q.y (mul pz p.z)
    if u = v then (if s = t then p.double else .neutral)
    else
      let h := sub v u
      let r := sub t s
      let hh := mul h h
      let hhh := mul h hh
      let w := mul u hh
      let x := sub (sub (mul r r) hhh) (2 * w)
      ⟨x, sub (mul r (sub w x)) (mul s hhh), mul h (mul p.z q.z)⟩

/-- `n` times a point, from the highest of `bits` bits of `n` down. -/
def Point.times (p : Point) (n : Nat) : (bits : Nat) → Point
  | 0 => .neutral
  | bits + 1 =>
    let q := (times p (n / 2) bits).double
    if n % 2 = 1 then q.add p else q

/-- A number below `2 ^ 256` times a point. -/
def Point.scale (p : Point) (n : Nat) : Point := p.times n 256

/-- The coordinates of a point that is not neutral. -/
def Point.affine? (p : Point) : Option (Nat × Nat) :=
  if p.z = 0 then none else
  let w := invMod fieldSize p.z
  let ww := mul w w
  some (mul p.x ww, mul p.y (mul ww w))

/-- The point with first coordinate `x` whose second coordinate is odd or even as asked. -/
def lift? (x : Nat) (odd : Bool) : Option Point :=
  let square := (mul x (mul x x) + 7) % fieldSize
  let y := sqrt square
  if mul y y = square then some ⟨x, if (y % 2 = 1) = odd then y else sub 0 y, 1⟩ else none

end PriceOracle.Curve
