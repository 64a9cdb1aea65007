import Mathlib.Tactic.Ring
import PriceOracle.Proofs.Staking.Conservation
import PriceOracle.Proofs.Staking.Tally
/-! Withdrawing in parts. Every burn is rounded down, and what it cuts off stays with the shares that are left, so
each part is burned at a rate no lower than the one before it. The parts together never release more than the
whole at once: what a part cuts off comes back to the next ones only for their share in the pool. And each part
loses less than one unit, so the parts fall short by less than their number. -/
namespace PriceOracle

/-! ### Rounding -/

section

/-! Of `s + k + m` shares in `r + b`, first `s` are burned for `r`, and then `k` of the others out of `b`. -/

variable {s k m r b x : Nat}

/-- What the first burn cuts off is shared with those who stay. -/
theorem two_burns_mul_le (hfirst : r * (s + k + m) ≤ s * (r + b)) (hsecond : x * (k + m) ≤ k * b)
    (hpos : 0 < k + m) : (r + x) * (s + k + m) ≤ (s + k) * (r + b) := by
  have hrate : r * (k + m) ≤ s * b := by linarith
  have hrest : r * m + x * s ≤ s * b := by
    refine Nat.le_of_mul_le_mul_right ?_ hpos
    calc (r * m + x * s) * (k + m)
        = r * (k + m) * m + x * (k + m) * s := by ring
      _ ≤ s * b * m + k * b * s := Nat.add_le_add (Nat.mul_le_mul_right _ hrate) (Nat.mul_le_mul_right _ hsecond)
      _ = s * b * (k + m) := by ring
  linarith

/-- The second burn is at no lower a rate than the first, and each cuts off less than one. -/
theorem lt_two_burns_mul (hfirst : r * (s + k + m) ≤ s * (r + b)) (hcut : s * (r + b) < (r + 1) * (s + k + m))
    (hcut' : k * b < (x + 1) * (k + m)) (hpos : 0 < k + m) :
    (s + k) * (r + b) < (r + x + 2) * (s + k + m) := by
  have hrate : r * (k + m) ≤ s * b := by linarith
  have hsecond : k * (r + b) < (x + 1) * (s + k + m) := by
    refine Nat.lt_of_mul_lt_mul_right (a := k + m) ?_
    calc k * (r + b) * (k + m)
        = k * (r * (k + m)) + k * b * (k + m) := by ring
      _ ≤ k * (s * b) + k * b * (k + m) := Nat.add_le_add_right (Nat.mul_le_mul_left _ hrate) _
      _ = k * b * (s + k + m) := by ring
      _ < (x + 1) * (k + m) * (s + k + m) := Nat.mul_lt_mul_of_pos_right hcut' (by omega)
      _ = (x + 1) * (s + k + m) * (k + m) := by ring
  linarith

end

/-- Burning `first` and then `rest` of `total` shares releases as much as burning them at once, or one less. -/
theorem two_burns {first rest total : Nat} (amount : Nat) (h : first + rest ≤ total) :
    first * amount / total + rest * (amount - first * amount / total) / (total - first)
        ≤ (first + rest) * amount / total ∧
      (first + rest) * amount / total
        ≤ first * amount / total + rest * (amount - first * amount / total) / (total - first) + 1 := by
  rcases Nat.eq_zero_or_pos (total - first) with hnone | hothers
  · obtain rfl : rest = 0 := by omega
    simp
  obtain ⟨m, rfl⟩ := Nat.exists_eq_add_of_le h
  have hpos : 0 < first + rest + m := by omega
  have hle : first * amount / (first + rest + m) ≤ amount :=
    Nat.div_le_of_le_mul (Nat.mul_le_mul_right _ (by omega))
  have hfirst := Nat.div_mul_le_self (first * amount) (first + rest + m)
  have hcut := Nat.lt_mul_div_succ (first * amount) hpos
  rw [Nat.mul_comm (first + rest + m)] at hcut
  generalize first * amount / (first + rest + m) = r at *
  obtain ⟨b, rfl⟩ := Nat.exists_eq_add_of_le hle
  have hkept : first + rest + m - first = rest + m := by omega
  rw [hkept] at hothers
  rw [hkept, Nat.add_sub_cancel_left]
  have hsecond := Nat.div_mul_le_self (rest * b) (rest + m)
  have hcut' := Nat.lt_mul_div_succ (rest * b) hothers
  rw [Nat.mul_comm (rest + m)] at hcut'
  generalize rest * b / (rest + m) = x at *
  refine ⟨(Nat.le_div_iff_mul_le hpos).2 (two_burns_mul_le hfirst hsecond hothers), ?_⟩
  exact Nat.le_of_lt_succ ((Nat.div_lt_iff_lt_mul hpos).2 (lt_two_burns_mul hfirst hcut hcut' hothers))

namespace SharePool

variable {p p' : SharePool} {account : StakeAccount} {shares first rest : Amount} {now : Nat}

/-! ### One burn -/

/-- The shares of all accounts, less some of one account's. -/
def sharesWithout (p : SharePool) (account : StakeAccount) (shares : Amount) : Table StakeAccount Amount :=
  if shares = 0 then p.shares
  else if p.sharesOf account = shares then p.shares.erase account
  else p.shares.insert account (p.sharesOf account - shares)

theorem get?_sharesWithout (p : SharePool) (account : StakeAccount) (shares : Amount) (holder : StakeAccount) :
    (p.sharesWithout account shares).get? holder =
      if holder = account ∧ shares ≠ 0 then
        if p.sharesOf account = shares then none else some (p.sharesOf account - shares)
      else p.shares.get? holder := by
  unfold sharesWithout
  by_cases hzero : shares = 0
  · simp [hzero]
  · by_cases hall : p.sharesOf account = shares
    · simp [hzero, hall, Table.get?_erase]
    · simp [hzero, hall, Table.get?_insert]

/-- What burning shares of an account leaves. Nothing is said of what is available to nobody. -/
structure Burned (p : SharePool) (account : StakeAccount) (shares : Amount) (now : Nat) (p' : SharePool) :
    Prop where
  tallied : p'.Tallied
  totalShares : p'.totalShares = p.totalShares - shares
  kept : p'.shares = p.sharesWithout account shares
  available : p'.totalShares ≠ 0 →
    p'.available now = p.available now - shares * p.available now / p.totalShares

theorem Burned.sharesOf (h : p.Burned account shares now p') :
    p'.sharesOf account = p.sharesOf account - shares := by
  rw [SharePool.sharesOf, h.kept, get?_sharesWithout]
  by_cases hzero : shares = 0
  · simp [hzero, SharePool.sharesOf]
  · by_cases hall : p.sharesOf account = shares
    · simp [hzero, hall]
    · simp [hzero, hall]

theorem Burned.sharesWithout (h : p.Burned account first now p') (hle : first + rest ≤ p.sharesOf account) :
    p'.sharesWithout account rest = p.sharesWithout account (first + rest) := by
  refine Table.ext fun holder => ?_
  rw [get?_sharesWithout, get?_sharesWithout, h.sharesOf, h.kept, get?_sharesWithout]
  by_cases heq : holder = account
  · by_cases hfirst : first = 0 <;> by_cases hrest : rest = 0
    · simp [hfirst, hrest]
    · simp [heq, hfirst, hrest]
    · simp [heq, hfirst, hrest]
    · have hall : p.sharesOf account - first = rest ↔ p.sharesOf account = first + rest := by lia
      have hnone : first + rest ≠ 0 := by lia
      simp only [heq, hrest, hall, hnone, Nat.sub_sub, ne_eq, not_false_eq_true, and_self, ↓reduceIte]
  · simp [heq]

theorem withdrawShares_zero (p : SharePool) (account : StakeAccount) (now : Nat) :
    p.previewWithdraw account 0 now = .ok 0 ∧ p.withdrawShares account 0 now = .ok (0, p) := by
  simp [withdrawShares, previewWithdraw]

theorem withdrawShares_of_ne_zero {released : Amount} (hshares : shares ≠ 0)
    (hp : p.previewWithdraw account shares now = .ok released) :
    p.withdrawShares account shares now = .ok (released,
      if (p.burn account shares released now).totalShares = 0
        then (p.burn account shares released now).parkResidual
        else p.burn account shares released now) := by
  simp only [withdrawShares, hp, hshares, ↓reduceIte]
  rfl

theorem Tallied.burned (h : p.Tallied) (hle : shares ≤ p.sharesOf account) (now : Nat) :
    p.previewWithdraw account shares now = .ok (shares * p.available now / p.totalShares) ∧
      ∃ p', p.withdrawShares account shares now = .ok (shares * p.available now / p.totalShares, p') ∧
        p.Burned account shares now p' := by
  by_cases hzero : shares = 0
  · subst hzero
    have hnothing : 0 * p.available now / p.totalShares = 0 := by rw [Nat.zero_mul, Nat.zero_div]
    obtain ⟨hpreview, hw⟩ := p.withdrawShares_zero account now
    rw [hnothing]
    refine ⟨hpreview, p, hw, h, rfl, (if_pos rfl).symm, fun _ => ?_⟩
    rw [hnothing, Nat.sub_zero]
  have hall := h.sharesOf_le account
  have hpos : p.totalShares ≠ 0 := by lia
  have hpart : shares * p.available now / p.totalShares ≤ p.available now :=
    Nat.div_le_of_le_mul (Nat.mul_le_mul_right _ (hle.trans hall))
  have hquotient : Amount.mulDiv? shares (p.available now) p.totalShares
      = some (shares * p.available now / p.totalShares) :=
    Amount.mulDiv?_eq_some.2 ⟨hpos, rfl, Nat.lt_of_le_of_lt hpart (p.available_lt now)⟩
  have hpreview : p.previewWithdraw account shares now = .ok (shares * p.available now / p.totalShares) := by
    simp only [previewWithdraw, Nat.not_lt.2 hle, hzero, hquotient, ↓reduceIte]
  have hw := withdrawShares_of_ne_zero hzero hpreview
  refine ⟨hpreview, _, hw, h.withdrawShares hw, ?_, ?_, ?_⟩
  · split <;> rfl
  · rw [sharesWithout, if_neg hzero]
    split <;> rfl
  · split
    · rename_i hlast
      exact fun hne => absurd hlast hne
    · exact fun _ => h.available_burn _ _

/-! ### Burning in parts -/

/-- Burns shares of an account in parts, one after the other at one block, and answers what they release in
all. -/
def withdrawParts (p : SharePool) (account : StakeAccount) (now : Nat) :
    List Amount → Except StakingError (Amount × SharePool)
  | [] => .ok (0, p)
  | shares :: rest =>
    match p.withdrawShares account shares now with
    | .error e => .error e
    | .ok (released, p') =>
      (p'.withdrawParts account now rest).map fun (total, q) => (released + total, q)

/-- Parts that an account has can be burned one after the other. They release no more than they would at once,
and less than their number short of it. -/
theorem Tallied.withdrawParts (parts : List Amount) : ∀ {p : SharePool}, p.Tallied →
    parts.sum ≤ p.sharesOf account →
    ∃ total q, p.withdrawParts account now parts = .ok (total, q) ∧
      total ≤ parts.sum * p.available now / p.totalShares ∧
      (parts ≠ [] → parts.sum * p.available now / p.totalShares < total + parts.length) ∧
      q.totalShares = p.totalShares - parts.sum ∧ q.shares = p.sharesWithout account parts.sum := by
  induction parts with
  | nil =>
    intro p _ _
    exact ⟨0, p, rfl, Nat.zero_le _, fun hne => absurd rfl hne, rfl, by simp [sharesWithout]⟩
  | cons shares parts ih =>
    intro p h hle
    rw [List.sum_cons] at hle ⊢
    have hfirst : shares ≤ p.sharesOf account := by lia
    obtain ⟨-, p', hw, hburned⟩ := h.burned hfirst now
    have hleft : parts.sum ≤ p'.sharesOf account := by
      rw [hburned.sharesOf]
      lia
    obtain ⟨total, q, hq, htotal, hclose, hcount, hkept⟩ := ih hburned.tallied hleft
    obtain ⟨hlow, hhigh⟩ := two_burns (p.available now) (hle.trans (h.sharesOf_le account))
    -- the other parts at once, also where the first one took the last shares
    have hrest : parts.sum * p'.available now / p'.totalShares
        = parts.sum * (p.available now - shares * p.available now / p.totalShares)
          / (p.totalShares - shares) := by
      by_cases hlast : p'.totalShares = 0
      · rw [← hburned.totalShares, hlast, Nat.div_zero, Nat.div_zero]
      · rw [hburned.available hlast, hburned.totalShares]
    rw [← hrest] at hlow hhigh
    refine ⟨shares * p.available now / p.totalShares + total, q, ?_, by lia, fun _ => ?_, ?_, ?_⟩
    · rw [SharePool.withdrawParts, hw]
      simp only [hq]
      rfl
    · rw [List.length_cons]
      by_cases hnil : parts = []
      · -- nothing is lost on a single part
        subst hnil
        rw [List.sum_nil, Nat.add_zero]
        lia
      · have hclose := hclose hnil
        lia
    · rw [hcount, hburned.totalShares, Nat.sub_sub]
    · rw [hkept, hburned.sharesWithout hle]

/-! ### Runs -/

theorem Tallied.attempt (h : p.Tallied) {step : PoolStep} {e : PoolEffect} (he : p.attempt step = .ok e) :
    e.pool.Tallied := by
  cases step with
  | deposit account amount now =>
    obtain ⟨⟨minted, pool⟩, hd, rfl⟩ := exists_of_map_eq_ok he
    exact h.deposit hd
  | withdrawShares account shares now =>
    obtain ⟨⟨released, pool⟩, hw, rfl⟩ := exists_of_map_eq_ok he
    exact h.withdrawShares hw
  | distribute amount now =>
    obtain ⟨⟨schedule, pool⟩, hd, rfl⟩ := exists_of_map_eq_ok he
    exact h.distribute hd
  | setPeriod period =>
    obtain ⟨pool, hp, rfl⟩ := exists_of_map_eq_ok he
    exact h.setPeriod hp

theorem Tallied.run {steps : List PoolStep} : ∀ {p : SharePool}, p.Tallied → (p.run steps).pool.Tallied := by
  induction steps with
  | nil => exact fun h => h
  | cons step steps ih =>
    intro p h
    refine ih ?_
    rw [SharePool.effect]
    cases he : p.attempt step with
    | error e => exact h
    | ok e => exact h.attempt he

/-- In any state that a new pool comes to, and at any block, the shares of an account can be withdrawn at once
or in parts, one after the other. The parts release no more than the whole would, and less than their number
short of it. Both ways leave the same shares to the same holders. -/
theorem withdrawParts_near_whole {period : Nat} (hp : SharePool.new period = .ok p) (steps : List PoolStep)
    (account : StakeAccount) (now : Nat) {parts : List Amount}
    (hparts : parts.sum ≤ (p.run steps).pool.sharesOf account) :
    ∃ whole q total q',
      (p.run steps).pool.previewWithdraw account parts.sum now = .ok whole ∧
      (p.run steps).pool.withdrawShares account parts.sum now = .ok (whole, q) ∧
      (p.run steps).pool.withdrawParts account now parts = .ok (total, q') ∧
      total ≤ whole ∧ (parts ≠ [] → whole < total + parts.length) ∧
      q'.shares = q.shares ∧ q'.totalShares = q.totalShares := by
  have h : (p.run steps).pool.Tallied := (Tallied.new hp).run
  obtain ⟨hpreview, q, hw, hburned⟩ := h.burned hparts now
  obtain ⟨total, q', hq', hle, hclose, hcount, hkept⟩ := h.withdrawParts parts hparts
  exact ⟨_, q, total, q', hpreview, hw, hq', hle, hclose, hkept.trans hburned.kept.symm,
    hcount.trans hburned.totalShares.symm⟩

/-- Three of six shares in ten units release five at once and four one by one. -/
theorem withdrawParts_near_whole_of_three :
    let p : SharePool := ⟨.empty, 0, 0, .none, 0, 10⟩
    let holder := StakeAccount.own (Address.ofNat 3)
    let steps : List PoolStep := [
      .deposit holder 3 1,
      .deposit (.own (Address.ofNat 4)) 3 1,
      .distribute 4 2]
    let pool := (p.run steps).pool
    SharePool.new 10 = .ok p ∧ [1, 1, 1].sum ≤ pool.sharesOf holder ∧
      pool.previewWithdraw holder [1, 1, 1].sum 12 = .ok 5 ∧
      (∃ q, pool.withdrawParts holder 12 [1, 1, 1] = .ok (4, q)) ∧ 4 ≤ 5 ∧ 5 < 4 + [1, 1, 1].length := by
  intro p holder steps pool
  have hp : SharePool.new 10 = .ok p := rfl
  have hparts : [1, 1, 1].sum ≤ pool.sharesOf holder := by decide +kernel
  have hwhole : pool.previewWithdraw holder [1, 1, 1].sum 12 = .ok 5 := by decide +kernel
  have hreleased : (pool.withdrawParts holder 12 [1, 1, 1]).map (·.1) = .ok 4 := by decide +kernel
  obtain ⟨whole, q, total, q', hpreview, -, hq', hle, hclose, -⟩ :=
    withdrawParts_near_whole hp steps holder 12 hparts
  obtain rfl : whole = 5 := Except.ok.inj (hpreview.symm.trans hwhole)
  rw [hq'] at hreleased
  obtain rfl : total = 4 := Except.ok.inj hreleased
  exact ⟨hp, hparts, hwhole, ⟨q', hq'⟩, hle, hclose (by simp)⟩

end SharePool

end PriceOracle
