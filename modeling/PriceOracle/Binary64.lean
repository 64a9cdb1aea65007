/-! Double precision numbers as bit patterns, computed with natural numbers only. A finite magnitude
is a whole number of units, and a unit is a power of two; rounding goes to the nearest magnitude, a tie
to the even number of units. -/
namespace PriceOracle

/-- A double precision number, by its 64 bits. -/
structure Binary64 where
  bits : UInt64
deriving DecidableEq, Inhabited

namespace Binary64

/-! ### Magnitudes

The lower 63 bits order the magnitudes: zero first, infinity last. -/

def infinity : Nat := 0x7ff <<< 52

/-- The magnitude nearest to `num / den`, for positive `den`. -/
def nearest (num den : Nat) : Nat :=
  if num = 0 then 0 else
  let guess : Int := (Nat.log2 num : Int) - Nat.log2 den - 52
  let scaled (e : Int) : Nat × Nat :=
    if 0 ≤ e then (num, den <<< e.toNat) else (num <<< (-e).toNat, den)
  let full : Bool := 1 <<< 52 ≤ (scaled guess).1 / (scaled guess).2
  let unit : Int := max (if full then guess else guess - 1) (-1074)
  let (n, d) := scaled unit
  let q := n / d
  let r := n % d
  let units := if d < 2 * r ∨ (2 * r = d ∧ q % 2 = 1) then q + 1 else q
  min ((unit + 1074).toNat <<< 52 + units) infinity

/-- How many units a finite magnitude has, and the exponent of the unit. -/
def units (mag : Nat) : Nat × Int :=
  let e : Nat := mag >>> 52
  if e = 0 then (mag, -1074) else (mag % (1 <<< 52) + (1 <<< 52), (e : Int) - 1075)

def fraction (mag : Nat) : Nat × Nat :=
  let (m, e) := units mag
  if 0 ≤ e then (m <<< e.toNat, 1) else (m, 1 <<< (-e).toNat)

/-- The product of finite magnitudes, rounded. -/
def mul (a b : Nat) : Nat :=
  nearest ((fraction a).1 * (fraction b).1) ((fraction a).2 * (fraction b).2)

/-- The quotient of a finite magnitude by a positive one, rounded. -/
def div (a b : Nat) : Nat :=
  nearest ((fraction a).1 * (fraction b).2) ((fraction a).2 * (fraction b).1)

/-- `10 ^ n`, rounded. -/
def powerOfTen (n : Nat) : Nat := nearest (Nat.pow 10 n) 1

/-- The magnitude read from `significand · 10 ^ exponent`: the significand is rounded, then multiplied
or divided by a rounded power of ten, and each step rounds again. Nothing if it runs over. -/
def ofDecimal? (significand : Nat) (exponent : Int) : Option Nat :=
  scale (nearest significand 1) exponent
where
  scale (mag : Nat) (exponent : Int) : Option Nat :=
    if 0 ≤ exponent then
      if exponent ≤ 308 then
        let product := mul mag (powerOfTen exponent.toNat)
        if product < infinity then some product else none
      else if mag = 0 then some 0 else none
    else if -308 ≤ exponent then some (div mag (powerOfTen (-exponent).toNat))
    else if mag = 0 then some 0
    else scale (div mag (powerOfTen 308)) (exponent + 308)
  termination_by (-exponent).toNat

/-! ### Signed numbers -/

def ofMagnitude (negative : Bool) (mag : Nat) : Binary64 :=
  ⟨UInt64.ofNat (mag + if negative then 1 <<< 63 else 0)⟩

def isNegative (x : Binary64) : Bool := 1 <<< 63 ≤ x.bits.toNat

/-- The bits without the sign. -/
def magnitude (x : Binary64) : Nat := x.bits.toNat % (1 <<< 63)

end Binary64

end PriceOracle
