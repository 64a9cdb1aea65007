/-! Amounts of collateral, shares and prices are natural numbers below `2 ^ 256`; block heights,
timestamps and counters are natural numbers below `2 ^ 64`. The operations here keep a result inside
its range: a checked one answers nothing when the exact result does not fit, a saturating one answers
the largest value that does. -/
namespace PriceOracle

/-- A quantity of collateral, shares or price. -/
abbrev Amount := Nat

namespace Amount

/-- The first number that is not an amount. -/
def limit : Nat := 1 <<< 256

def max : Amount := limit - 1

def add? (a b : Amount) : Option Amount := if a + b < limit then some (a + b) else none

def sub? (a b : Amount) : Option Amount := if b ≤ a then some (a - b) else none

/-- The sum, or the largest amount if the sum is none. -/
def satAdd (a b : Amount) : Amount := min (a + b) max

/-- `a * b / c` rounded down, computed without losing digits of the product: nothing if `c` is zero or
the quotient is no amount. -/
def mulDiv? (a b c : Amount) : Option Amount :=
  if c = 0 then none
  else if a * b / c < limit then some (a * b / c)
  else none

theorem add?_eq_some {a b s : Nat} : add? a b = some s ↔ a + b = s ∧ s < limit := by
  simp only [add?]
  split
  · constructor
    · rintro ⟨⟩
      exact ⟨rfl, by assumption⟩
    · rintro ⟨rfl, -⟩
      rfl
  · constructor
    · rintro ⟨⟩
    · rintro ⟨rfl, h⟩
      contradiction

theorem mulDiv?_eq_some {a b c q : Nat} :
    mulDiv? a b c = some q ↔ c ≠ 0 ∧ a * b / c = q ∧ q < limit := by
  simp only [mulDiv?]
  split
  · simp_all
  · split
    · constructor
      · rintro ⟨⟩
        exact ⟨by assumption, rfl, by assumption⟩
      · rintro ⟨-, rfl, -⟩
        rfl
    · constructor
      · rintro ⟨⟩
      · rintro ⟨-, rfl, h⟩
        contradiction

theorem satAdd_of_lt {a b : Nat} (h : a + b < limit) : satAdd a b = a + b := by
  rw [satAdd, max]
  lia

end Amount

namespace Word

/-- The first number that does not fit a 64-bit word. -/
def limit : Nat := 1 <<< 64

def max : Nat := limit - 1

def add? (a b : Nat) : Option Nat := if a + b < limit then some (a + b) else none

def satAdd (a b : Nat) : Nat := min (a + b) max

def satMul (a b : Nat) : Nat := min (a * b) max

end Word

end PriceOracle
