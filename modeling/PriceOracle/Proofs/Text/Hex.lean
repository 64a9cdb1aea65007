import Mathlib.Tactic.IntervalCases
import PriceOracle.Text.Hex
/-! Hexadecimal digits read back. What is written has no blanks, so every digit counts, and a number is the
same again if there are digits enough for it. -/
namespace PriceOracle.Hex

theorem digit?_digit {n : Nat} (h : n < 16) : digit? (digit n) = some n := by
  interval_cases n <;> rfl

theorem isBlank_digit {n : Nat} (h : n < 16) : isBlank (digit n) = false := by
  interval_cases n <;> rfl

@[simp]
theorem length_padded (w n : Nat) : (padded w n).length = w := by
  induction w generalizing n with
  | zero => rfl
  | succ w ih => simp [padded, ih]

theorem forall_mem_padded {p : Char → Prop} (h : ∀ d < 16, p (digit d)) (w n : Nat) :
    ∀ c ∈ padded w n, p c := by
  induction w generalizing n with
  | zero => exact fun c hc => nomatch hc
  | succ w ih =>
    intro c hc
    rcases List.mem_append.1 hc with hc | hc
    · exact ih (n / 16) c hc
    · rw [List.mem_singleton.1 hc]
      exact h (n % 16) (Nat.mod_lt n (by decide))

theorem number?_padded (w n : Nat) : number? (padded w n) = some (n % 16 ^ w) := by
  induction w generalizing n with
  | zero =>
    rw [padded, Nat.pow_zero, Nat.mod_one]
    rfl
  | succ w ih =>
    have hfront : (padded w (n / 16)).foldlM (fun n c => (digit? c).map (n * 16 + ·)) 0
        = some (n / 16 % 16 ^ w) := ih (n / 16)
    have hlast := digit?_digit (Nat.mod_lt n (by decide : 0 < 16))
    have hsplit : n % 16 ^ (w + 1) = n % 16 + 16 * (n / 16 % 16 ^ w) := by
      rw [Nat.pow_succ', Nat.mod_mul]
    rw [number?, padded, List.foldlM_append, hfront, hsplit]
    simp [hlast]
    lia

theorem spaced?_padded (w n : Nat) : spaced? (padded w n) = some (padded w n) := by
  have hkept : (padded w n).filter (!isBlank ·) = padded w n := by
    refine List.filter_eq_self.2 (forall_mem_padded (fun d hd => ?_) w n)
    rw [isBlank_digit hd]
    rfl
  have hdigits : (padded w n).all (fun c => (digit? c).isSome) = true := by
    refine List.all_eq_true.2 (forall_mem_padded (fun d hd => ?_) w n)
    rw [digit?_digit hd]
    rfl
  simp only [spaced?, hkept, hdigits, if_true, Nat.sub_self, Nat.zero_mod]

theorem spacedNumber?_padded (w n : Nat) : spacedNumber? (padded w n) = some (n % 16 ^ w) := by
  rw [spacedNumber?, spaced?_padded, Option.bind_some, number?_padded]

theorem fixedNumber?_padded (w n : Nat) : fixedNumber? w (padded w n) = some (n % 16 ^ w) := by
  simp [fixedNumber?, spaced?_padded, number?_padded]

/-! ### Numbers without leading zeros -/

theorem lt_pow_width (n : Nat) : n < 16 ^ width n := by
  rw [width]
  split
  case isTrue h =>
    rw [h]
    decide
  case isFalse h =>
    have hbits : n < 2 ^ (4 * (n.log2 / 4 + 1)) :=
      (Nat.log2_lt h).1 (by lia)
    rwa [Nat.pow_mul] at hbits

theorem width_pos (n : Nat) : 0 < width n := by
  rw [width]
  split <;> lia

theorem width_le {n w : Nat} (hw : 0 < w) (h : n < 16 ^ w) : width n ≤ w := by
  rw [width]
  split
  case isTrue => exact hw
  case isFalse hn =>
    rw [show (16 : Nat) = 2 ^ 4 from rfl, ← Nat.pow_mul] at h
    have := (Nat.log2_lt hn).2 h
    lia

theorem spacedNumber?_minimal (n : Nat) : spacedNumber? (minimal n) = some n := by
  rw [minimal, spacedNumber?_padded, Nat.mod_eq_of_lt (lt_pow_width n)]

end PriceOracle.Hex
