import Mathlib.Algebra.BigOperators.Ring.List
import Mathlib.Algebra.Order.BigOperators.Group.List
import Mathlib.Algebra.Order.Ring.Canonical
import Mathlib.Algebra.Order.Group.Nat
import PriceOracle.Feed.Switch
import PriceOracle.Proofs.Rounding
import PriceOracle.Proofs.Round.Seats
/-! How fees are shared out in proportion to points. Every part is a quotient rounded down. Without rounding
the parts would sum to the fees; rounding loses less than one unit for every seat that earned points, so no
more than the fees is shared out, and less than one unit for each such seat stays behind. -/
namespace PriceOracle.Round

/-- A seat's part of some fees. -/
def part (r : Round) (fees : Amount) (s : Seat) : Amount := s.points * fees / r.totalPoints

def earners (r : Round) : List Seat := r.seats.filter (0 < ·.points)

/-- The rewards that some fees come to: one for every seat whose part is not nothing, in the order of the
seats. -/
def shares (r : Round) (fees : Amount) : List Payout :=
  (r.earners.filter (r.part fees · ≠ 0)).map fun s => ⟨s.owner, s.address, s.points, r.part fees s⟩

variable {r : Round} {fees : Amount} {s : Seat}

/-! ### Points -/

theorem sum_points_earners (r : Round) : (r.earners.map (·.points)).sum = r.totalPoints := by
  obtain ⟨number, lockUntil, seats, belowMinimum⟩ := r
  simp only [earners, totalPoints]
  induction seats with
  | nil => rfl
  | cons s seats ih =>
    rw [List.foldr_cons, ← ih, List.filter_cons]
    by_cases hp : 0 < s.points
    · simp [hp]
    · simp [Nat.eq_zero_of_not_pos hp]

theorem mem_earners : s ∈ r.earners ↔ s ∈ r.seats ∧ 0 < s.points := by
  simp [earners]

theorem points_le_totalPoints (hs : s ∈ r.earners) : s.points ≤ r.totalPoints := by
  rw [← sum_points_earners]
  exact List.le_sum_of_mem (List.mem_map_of_mem hs)

theorem earners_eq_nil (h : r.totalPoints = 0) : r.earners = [] := by
  rw [List.eq_nil_iff_forall_not_mem]
  intro s hs
  have hle := points_le_totalPoints hs
  have hpos := (mem_earners.1 hs).2
  omega

/-! ### Sums of parts -/

theorem sum_shares (r : Round) (fees : Amount) :
    ((r.shares fees).map (·.amount)).sum = ((r.earners.map (·.points * fees)).map (· / r.totalPoints)).sum := by
  simp only [shares, List.map_map, Function.comp_def]
  show _ = (r.earners.map (r.part fees)).sum
  induction r.earners with
  | nil => rfl
  | cons s seats ih =>
    simp only [List.filter_cons]
    split
    · rw [List.map_cons, List.sum_cons, ih, List.map_cons, List.sum_cons]
    · rename_i hs
      have hs : r.part fees s = 0 := by simpa using hs
      rw [ih, List.map_cons, List.sum_cons, hs, Nat.zero_add]

/-- Before they are rounded down the parts sum to the fees. -/
theorem sum_points_mul (r : Round) (fees : Amount) :
    (r.earners.map (·.points * fees)).sum = r.totalPoints * fees := by
  rw [List.sum_map_mul_right, sum_points_earners]

theorem sum_shares_le (r : Round) (fees : Amount) : ((r.shares fees).map (·.amount)).sum ≤ fees := by
  rw [sum_shares]
  refine Nat.le_trans (sum_div_le _ _) ?_
  rw [sum_points_mul]
  rcases Nat.eq_zero_or_pos r.totalPoints with hzero | hpos
  · simp [hzero]
  · rw [Nat.mul_div_cancel_left _ hpos]

theorem lt_sum_shares_add (h : r.totalPoints ≠ 0) (fees : Amount) :
    fees < ((r.shares fees).map (·.amount)).sum + r.earners.length := by
  have hpos : 0 < r.totalPoints := Nat.pos_of_ne_zero h
  have hne : r.earners.map (·.points * fees) ≠ [] := by
    intro hnil
    rw [← sum_points_earners, List.map_eq_nil_iff.1 hnil] at h
    exact h rfl
  have hlt := div_lt_sum_div_add r.totalPoints hne
  rwa [sum_points_mul, Nat.mul_div_cancel_left _ hpos, List.length_map, ← sum_shares] at hlt

/-! ### Computing the shares -/

theorem part_le (hs : s ∈ r.earners) : r.part fees s ≤ fees := by
  have hle := points_le_totalPoints hs
  have hpos : 0 < r.totalPoints := Nat.lt_of_lt_of_le (mem_earners.1 hs).2 hle
  refine Nat.div_le_of_le_mul ?_
  exact Nat.mul_le_mul_right fees hle

theorem mulDiv?_part (hfees : fees < Amount.limit) (hs : s ∈ r.earners) :
    Amount.mulDiv? s.points fees r.totalPoints = some (r.part fees s) := by
  have hpos : 0 < r.totalPoints := Nat.lt_of_lt_of_le (mem_earners.1 hs).2 (points_le_totalPoints hs)
  have hfit : s.points * fees / r.totalPoints < Amount.limit := Nat.lt_of_le_of_lt (part_le hs) hfees
  rw [Amount.mulDiv?, if_neg (Nat.ne_of_gt hpos), if_pos hfit]
  rfl

theorem foldrM_eq_ok {α β ε : Type} {f : α → β → Except ε β} {g : α → β → β} {xs : List α}
    (h : ∀ x ∈ xs, ∀ b, f x b = .ok (g x b)) (b : β) : xs.foldrM f b = .ok (xs.foldr g b) := by
  induction xs with
  | nil => rfl
  | cons x xs ih =>
    rw [List.foldrM_cons, ih fun y hy => h y (List.mem_cons_of_mem _ hy)]
    exact h x (List.mem_cons_self ..) _

/-- One reward after the other, seats without a part being passed over. -/
theorem foldr_eq_shares (r : Round) (fees : Amount) :
    r.earners.foldr (fun s rest => if r.part fees s = 0 then rest
      else (⟨s.owner, s.address, s.points, r.part fees s⟩ : Payout) :: rest) [] = r.shares fees := by
  unfold shares
  induction r.earners with
  | nil => rfl
  | cons s seats ih =>
    rw [List.foldr_cons, ih, List.filter_cons]
    by_cases hs : r.part fees s = 0
    · simp [hs]
    · simp [hs]

/-- The rewards of a round are its shares; without points, or without fees, there are none. -/
theorem payouts_eq_shares (r : Round) (hfees : fees < Amount.limit) : r.payouts fees = .ok (r.shares fees) := by
  unfold payouts
  split
  · rename_i h
    rcases h with hzero | hnone
    · simp [shares, earners_eq_nil hzero]
    · simp [shares, part, hnone]
  · rw [← foldr_eq_shares]
    refine foldrM_eq_ok (fun s hs rest => ?_) []
    rw [mulDiv?_part hfees hs]

end PriceOracle.Round
