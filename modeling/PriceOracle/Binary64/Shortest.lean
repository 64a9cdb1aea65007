import PriceOracle.Binary64
/-! The shortest decimal text of a double precision number: the fewest digits that read back as the
number, and of those the nearest to it. -/
namespace PriceOracle.Binary64

/-- The number of the first power of ten above `num / den`, counted from `start`. -/
def magnitudeFrom (num den : Nat) : (tries : Nat) → (start : Int) → Int
  | 0, start => start
  | tries + 1, start =>
    let below := if 0 ≤ start then num < den * Nat.pow 10 start.toNat else num * Nat.pow 10 (-start).toNat < den
    if below then start else magnitudeFrom num den tries (start + 1)

/-- Drops trailing zeros, and counts them. -/
def stripped : (fuel : Nat) → (digits : Nat) → (exponent : Int) → Nat × Int
  | 0, digits, exponent => (digits, exponent)
  | fuel + 1, digits, exponent =>
    if digits % 10 = 0 ∧ digits ≠ 0 then stripped fuel (digits / 10) (exponent + 1)
    else (digits, exponent)

/-- Of the two points of the grid of `10 ^ exponent` around a magnitude, the one that reads back, and
the nearer if both do; a tie goes to the even one. -/
def onGrid? (mag : Nat) (exponent : Int) : Option Nat :=
  let (m, e) := units mag
  let lower := if m = 1 <<< 52 ∧ -1074 < e then 1 else 2
  -- In quarters of a unit, over the common denominator of unit and grid.
  let unit := 1 <<< (e - 2 + 1076).toNat
  let (unit, grid, whole) :=
    if 0 ≤ exponent then (unit, Nat.pow 10 exponent.toNat, 1 <<< 1076)
    else (unit * Nat.pow 10 (-exponent).toNat, 1, 1 <<< 1076)
  let value := 4 * m * unit
  let lo := (4 * m - lower) * unit
  let hi := (4 * m + 2) * unit
  let step := grid * whole
  let q := value / step
  let inside (d : Nat) : Bool :=
    if m % 2 = 0 then lo ≤ d * step && d * step ≤ hi else lo < d * step && d * step < hi
  let down := value - q * step
  let up := (q + 1) * step - value
  match inside q, inside (q + 1) with
  | true, true => some (if down < up ∨ (down = up ∧ q % 2 = 0) then q else q + 1)
  | true, false => some q
  | false, true => some (q + 1)
  | false, false => none

/-- Tries grids from `count` digits on, for a magnitude below `10 ^ top`. -/
def digitsFrom (mag : Nat) (top : Int) : (tries : Nat) → (count : Nat) → Nat × Int
  | 0, _ => (0, 0)
  | tries + 1, count =>
    match onGrid? mag (top - count) with
    | some d => stripped 20 d (top - count)
    | none => digitsFrom mag top tries (count + 1)

/-- The shortest digits of a positive finite magnitude, as `digits · 10 ^ exponent`. -/
def shortest (mag : Nat) : Nat × Int :=
  let (num, den) := fraction mag
  let guess := ((Nat.log2 num : Int) - Nat.log2 den) * 30103 / 100000 - 1
  digitsFrom mag (magnitudeFrom num den 4 guess) 17 1

/-- The written form of a finite number: positional from `0.00001` to below `10 ^ 16`, with a digit
after the point, and with a signed exponent elsewhere. -/
def text (x : Binary64) : String :=
  let sign := if x.isNegative then "-" else ""
  let body :=
    if x.magnitude = 0 then "0.0" else
    let (digits, exponent) := shortest x.magnitude
    let ds := toString digits
    let point := ds.length + exponent
    if 0 ≤ exponent ∧ point ≤ 16 then ds ++ String.ofList (List.replicate exponent.toNat '0') ++ ".0"
    else if 0 < point ∧ point ≤ 16 then
      String.ofList (ds.toList.take point.toNat) ++ "." ++ String.ofList (ds.toList.drop point.toNat)
    else if -5 < point ∧ point ≤ 0 then
      "0." ++ String.ofList (List.replicate (-point).toNat '0') ++ ds
    else
      let rest := String.ofList (ds.toList.drop 1)
      String.ofList (ds.toList.take 1) ++ (if rest = "" then "" else "." ++ rest)
        ++ (if 0 < point then "e+" else "e") ++ toString (point - 1)
  sign ++ body

end PriceOracle.Binary64
