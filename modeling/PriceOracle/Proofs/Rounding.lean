import Mathlib.Data.Nat.ModEq
import Mathlib.Tactic.Linarith
import Mathlib.Tactic.Zify
/-! Quotients that are rounded down. Rounding before a sum loses, but less than one for every number that is
rounded. An amount that is converted at one rate and back at another is one that was rounded twice: what comes
back is at most the amount, and what is lost is bounded by what the first rounding cut off. -/
namespace PriceOracle

/-! ### Sums -/

theorem sum_div_le (total : Nat) (xs : List Nat) : (xs.map (· / total)).sum ≤ xs.sum / total := by
  induction xs with
  | nil => exact Nat.zero_le _
  | cons x xs ih =>
    rw [List.map_cons, List.sum_cons, List.sum_cons]
    calc x / total + (xs.map (· / total)).sum
      _ ≤ x / total + xs.sum / total := Nat.add_le_add_left ih _
      _ ≤ (x + xs.sum) / total := Nat.div_add_div_le_add_div

theorem div_lt_sum_div_add (total : Nat) {xs : List Nat} (hne : xs ≠ []) :
    xs.sum / total < (xs.map (· / total)).sum + xs.length := by
  induction xs with
  | nil => exact absurd rfl hne
  | cons x xs ih =>
    rw [List.map_cons, List.sum_cons, List.sum_cons, List.length_cons]
    by_cases hnil : xs = []
    · -- nothing is lost on a single quotient
      subst hnil
      simp
    · have hrest := ih hnil
      have hround := Nat.add_div_le_div_add_div_add_one x xs.sum total
      omega

/-! ### There and back -/

/-- At one to one nothing is lost. -/
theorem mul_div_eq_of_imp {n total : Nat} (hn : total = 0 → n = 0) : n * total / total = n := by
  rcases Nat.eq_zero_or_pos total with h0 | hpos
  · rw [h0, hn h0]
  · exact Nat.mul_div_cancel n hpos

section

/-! An amount is converted into `part`, and that back into its part in `total` of `whole`. At this rate the
amount is worth `part` or more, but by no more than `cut`. -/

variable {amount part whole total cut : Nat}

theorem back_le (hpart : part * whole ≤ amount * total) : part * whole / total ≤ amount :=
  Nat.div_le_of_le_mul (by rwa [Nat.mul_comm total])

/-- What is lost, less the unit that the way back may cut off, is worth less than the cut. -/
theorem lost_mul_lt (hpos : 0 < total) (hcut : amount * total < part * whole + cut) :
    ((amount : ℤ) - (part * whole / total : ℕ) - 1) * total < cut := by
  have hback := Nat.lt_div_mul_add (a := part * whole) hpos
  generalize part * whole / total = back at *
  zify at hcut hback
  linarith

/-- Where the amount joins the whole and its part the total, neither bound moves: the same is added on both
sides. -/
theorem joined_mul_le (hpart : part * whole ≤ amount * total) :
    part * (whole + amount) ≤ amount * (total + part) := by
  linarith

theorem lt_joined_mul_add (hcut : amount * total < part * whole + cut) :
    amount * (total + part) < part * (whole + amount) + cut := by
  linarith

end

end PriceOracle
