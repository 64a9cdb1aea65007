import PriceOracle.Staking.Vesting
/-! The curve of a linear release. It never falls, stays below the amount and is the whole amount from the last
block on, whatever the fields of the schedule are. The differences and the quotient behind it are computed only
where they are defined, so checking each of them changes nothing. -/
namespace PriceOracle.VestingSchedule

variable {s : VestingSchedule} {now later : Nat}

/-! ### Bounds -/

theorem part_le (s : VestingSchedule) (h : now ≤ s.finish) :
    s.amount * (now - s.start) / (s.finish - s.start) ≤ s.amount := by
  refine Nat.div_le_of_le_mul ?_
  rw [Nat.mul_comm]
  exact Nat.mul_le_mul_right _ (Nat.sub_le_sub_right h _)

theorem vested_between (hstart : s.start < now) (hfinish : now < s.finish) :
    s.vested now = (Amount.mulDiv? s.amount (now - s.start) (s.finish - s.start)).getD s.amount := by
  rw [vested, if_neg (Nat.not_le.2 hfinish), if_neg (Nat.not_le.2 hstart)]

theorem vested_le (s : VestingSchedule) (now : Nat) : s.vested now ≤ s.amount := by
  rw [vested]
  split
  · exact Nat.le_refl _
  · rename_i hfinish
    split
    · exact Nat.zero_le _
    · cases hq : Amount.mulDiv? s.amount (now - s.start) (s.finish - s.start) with
      | none => exact Nat.le_refl _
      | some q =>
        obtain ⟨-, rfl, -⟩ := Amount.mulDiv?_eq_some.1 hq
        exact s.part_le (Nat.le_of_not_le hfinish)

theorem unreleased_le_remaining (s : VestingSchedule) (now : Nat) : s.unreleased now ≤ s.remaining :=
  Nat.sub_le_sub_right (s.vested_le now) _

/-- From the last block on the whole amount is released. -/
theorem vested_of_finish_le (h : s.finish ≤ now) : s.vested now = s.amount := by rw [vested, if_pos h]

theorem unreleased_of_inactive (h : ¬ s.isActive now) : s.unreleased now = s.remaining := by
  simp only [isActive, decide_eq_true_eq, Nat.not_lt] at h
  rw [unreleased, vested_of_finish_le h, remaining]

theorem vested_mono (s : VestingSchedule) (h : now ≤ later) : s.vested now ≤ s.vested later := by
  by_cases hended : s.finish ≤ later
  · rw [vested_of_finish_le hended]
    exact s.vested_le now
  · by_cases hbefore : now ≤ s.start
    · have hnow : s.vested now = 0 := by rw [vested, if_neg (by omega), if_pos hbefore]
      rw [hnow]
      exact Nat.zero_le _
    · have hstart : s.start < now := Nat.lt_of_not_le hbefore
      have hfinish : later < s.finish := Nat.lt_of_not_le hended
      have hnow := vested_between hstart (Nat.lt_of_le_of_lt h hfinish)
      have hlater := vested_between (Nat.lt_of_lt_of_le hstart h) hfinish
      rw [hlater]
      cases hq : Amount.mulDiv? s.amount (later - s.start) (s.finish - s.start) with
      | none => exact s.vested_le now
      | some q =>
        obtain ⟨hne, rfl, hlt⟩ := Amount.mulDiv?_eq_some.1 hq
        have hle : s.amount * (now - s.start) / (s.finish - s.start)
            ≤ s.amount * (later - s.start) / (s.finish - s.start) :=
          Nat.div_le_div_right (Nat.mul_le_mul_left _ (Nat.sub_le_sub_right h _))
        rw [hnow, Amount.mulDiv?_eq_some.2 ⟨hne, rfl, Nat.lt_of_le_of_lt hle hlt⟩]
        exact hle

theorem unreleased_mono (s : VestingSchedule) (h : now ≤ later) : s.unreleased now ≤ s.unreleased later :=
  Nat.sub_le_sub_right (s.vested_mono h) _

/-! ### Between the first and the last block -/

/-- While a schedule over an amount runs, the quotient is defined. -/
theorem mulDiv?_of_running (ha : s.amount < Amount.limit) (hstart : s.start < now) (hfinish : now < s.finish) :
    Amount.mulDiv? s.amount (now - s.start) (s.finish - s.start)
      = some (s.amount * (now - s.start) / (s.finish - s.start)) := by
  have hduration : s.finish - s.start ≠ 0 := by omega
  have hfits := Nat.lt_of_le_of_lt (s.part_le (Nat.le_of_lt hfinish)) ha
  exact Amount.mulDiv?_eq_some.2 ⟨hduration, rfl, hfits⟩

/-- What is released is the part of the amount that the blocks so far are of all, rounded down. -/
theorem vested_of_running (ha : s.amount < Amount.limit) (hstart : s.start < now) (hfinish : now < s.finish) :
    s.vested now = s.amount * (now - s.start) / (s.finish - s.start) := by
  rw [vested_between hstart hfinish, mulDiv?_of_running ha hstart hfinish, Option.getD_some]

theorem vested_bounds (ha : s.amount < Amount.limit) (hstart : s.start < now) (hfinish : now < s.finish) :
    s.vested now * (s.finish - s.start) ≤ s.amount * (now - s.start) ∧
      s.amount * (now - s.start) < (s.vested now + 1) * (s.finish - s.start) := by
  have hduration : 0 < s.finish - s.start := by omega
  rw [vested_of_running ha hstart hfinish, Nat.add_mul, Nat.one_mul]
  exact ⟨Nat.div_mul_le_self _ _, Nat.lt_div_mul_add hduration⟩

/-! ### Checked computation -/

/-- How many blocks one is after another, if it is. -/
def blocksSince? (first now : Nat) : Option Nat := if first ≤ now then some (now - first) else Option.none

/-- What is released by block `now`, computed with checks: nothing if a difference of blocks would be negative,
the divisor zero or the quotient no amount. -/
def vested? (s : VestingSchedule) (now : Nat) : Option Amount :=
  if s.finish ≤ now then some s.amount
  else if now ≤ s.start then some 0
  else do
    let elapsed ← blocksSince? s.start now
    let duration ← blocksSince? s.start s.finish
    Amount.mulDiv? s.amount elapsed duration

/-- No check ever fails. -/
theorem vested?_eq_some (ha : s.amount < Amount.limit) (now : Nat) : s.vested? now = some (s.vested now) := by
  rw [vested?]
  split
  · rename_i hended
    rw [vested_of_finish_le hended]
  · rename_i hrunning
    split
    · rename_i hbefore
      rw [vested, if_neg hrunning, if_pos hbefore]
    · have hstart : s.start < now := by omega
      have hfinish : now < s.finish := by omega
      have helapsed : blocksSince? s.start now = some (now - s.start) := if_pos (by omega)
      have hduration : blocksSince? s.start s.finish = some (s.finish - s.start) := if_pos (by omega)
      rw [helapsed, hduration, vested_of_running ha hstart hfinish]
      exact mulDiv?_of_running ha hstart hfinish

/-! ### The curve -/

/-- For every schedule over an amount, also one that ends before it starts or counts more as released than there
is: more blocks never release less, never more than the amount, and from the last block on all of it; the same
holds for what is not yet folded in, within what remains. No difference of blocks on the way is negative, no
divisor zero and no quotient too large for an amount. Strictly between the first and the last block the release is
in proportion to the blocks, but for less than one unit. -/
theorem vested_curve {s : VestingSchedule} (ha : s.amount < Amount.limit) {now later : Nat} (h : now ≤ later) :
    s.vested now ≤ s.vested later ∧ s.vested later ≤ s.amount ∧
      s.unreleased now ≤ s.unreleased later ∧ s.unreleased later ≤ s.remaining ∧
      (s.finish ≤ later → s.vested later = s.amount) ∧
      s.vested? now = some (s.vested now) ∧ s.vested? later = some (s.vested later) ∧
      (s.start < later → later < s.finish →
        s.vested later * (s.finish - s.start) ≤ s.amount * (later - s.start) ∧
        s.amount * (later - s.start) < (s.vested later + 1) * (s.finish - s.start)) :=
  ⟨s.vested_mono h, s.vested_le later, s.unreleased_mono h, s.unreleased_le_remaining later,
    vested_of_finish_le, vested?_eq_some ha now, vested?_eq_some ha later, vested_bounds ha⟩

/-- The largest amount vests over seven blocks, and a little of it is folded in already. -/
theorem vested_curve_of_largest :
    let s : VestingSchedule := ⟨Amount.max, 2, 9, 5⟩
    s.amount < Amount.limit ∧ 4 ≤ 8 ∧ s.vested 4 ≤ s.vested 8 ∧ s.vested 8 < s.amount ∧
      0 < s.unreleased 4 ∧ s.unreleased 4 ≤ s.unreleased 8 ∧ s.unreleased 8 ≤ s.remaining ∧
      s.vested? 8 = some (s.vested 8) ∧
      s.vested 8 * 7 ≤ Amount.max * 6 ∧ Amount.max * 6 < (s.vested 8 + 1) * 7 := by
  intro s
  have ha : s.amount < Amount.limit := by decide
  obtain ⟨hmono, -, hunreleased, hremaining, -, -, hchecked, hpart⟩ := vested_curve ha (show 4 ≤ 8 by decide)
  obtain ⟨hbelow, habove⟩ := hpart (by decide) (by decide)
  exact ⟨ha, by decide, hmono, by decide +kernel, by decide +kernel, hunreleased, hremaining, hchecked, hbelow,
    habove⟩

end PriceOracle.VestingSchedule
