import Mathlib.Algebra.BigOperators.Ring.List
import PriceOracle.Proofs.Rounding
import PriceOracle.Proofs.Staking.Conservation
import PriceOracle.Proofs.Staking.ExchangeRate
/-! The balances are backed. Every balance is its holder's part of what is available, rounded down. The holders'
shares sum to all shares, so their parts sum to all that is available: the balances come to no more than that, and
fall short of it by less than one unit for each holder. -/
namespace PriceOracle.SharePool

variable {p : SharePool} {account : StakeAccount}

/-! ### Holders -/

def holders (p : SharePool) : List StakeAccount := p.shares.keys

theorem nodup_holders (p : SharePool) : p.holders.Nodup := p.shares.nodup_keys

/-- No account is stored without shares, so who is stored holds some. -/
theorem Sound.mem_holders (h : p.Sound) : account ∈ p.holders ↔ 0 < p.sharesOf account := by
  rw [holders, Table.mem_keys, Table.contains, sharesOf]
  cases hg : p.shares.get? account with
  | none => simp
  | some shares => simpa using h.positive account shares hg

theorem Tallied.sum_sharesOf (h : p.Tallied) : (p.holders.map p.sharesOf).sum = p.totalShares := by
  rw [← h.total_shares, Table.total_eq_sum_keys, holders]
  simp only [elim_shares]

/-! ### Balances -/

/-- The holders' balances are their parts, each rounded down. -/
theorem Tallied.map_balanceOf (h : p.Tallied) (accounts : List StakeAccount) (now : Nat) :
    accounts.map (p.balanceOf · now)
      = (accounts.map (p.sharesOf · * p.available now)).map (· / p.totalShares) := by
  rw [List.map_map]
  exact List.map_congr_left fun account _ => h.balanceOf_eq account now

theorem Tallied.sum_parts (h : p.Tallied) (now : Nat) :
    (p.holders.map (p.sharesOf · * p.available now)).sum = p.totalShares * p.available now := by
  rw [List.sum_map_mul_right, h.sum_sharesOf]

theorem Tallied.sum_balanceOf_le (h : p.Tallied) (now : Nat) :
    (p.holders.map (p.balanceOf · now)).sum ≤ p.available now :=
  calc (p.holders.map (p.balanceOf · now)).sum
      = ((p.holders.map (p.sharesOf · * p.available now)).map (· / p.totalShares)).sum := by
        rw [h.map_balanceOf]
    _ ≤ p.totalShares * p.available now / p.totalShares := by
        rw [← h.sum_parts]
        exact sum_div_le _ _
    _ ≤ p.available now := Nat.div_le_of_le_mul (Nat.le_refl _)

theorem Tallied.available_lt_sum_balanceOf (h : p.Tallied) (hpos : 0 < p.totalShares) (now : Nat) :
    p.available now < (p.holders.map (p.balanceOf · now)).sum + p.holders.length := by
  have hsome : p.holders.map (p.sharesOf · * p.available now) ≠ [] := by
    intro hnil
    have hnone := h.sum_sharesOf
    rw [List.map_eq_nil_iff.1 hnil, List.map_nil, List.sum_nil] at hnone
    lia
  have hlt := div_lt_sum_div_add p.totalShares hsome
  rwa [h.sum_parts, Nat.mul_div_cancel_left _ hpos, List.length_map, ← h.map_balanceOf] at hlt

/-- In any state that a new pool comes to while somebody holds shares, and at any block: an account is one of the
holders if it has shares, and has no balance otherwise. The holders' balances sum to no more than what is
available, and what is left of that is less than the number of holders. -/
theorem balances_backed {period : Nat} (hp : SharePool.new period = .ok p) (steps : List PoolStep)
    (hoffered : (steps.map PoolStep.offered).sum < Amount.limit)
    (hshares : 0 < (p.run steps).pool.totalShares) (now : Nat) :
    let pool := (p.run steps).pool
    pool.holders.Nodup ∧
      (∀ account, account ∈ pool.holders ↔ 0 < pool.sharesOf account) ∧
      (∀ account, account ∉ pool.holders → pool.balanceOf account now = 0) ∧
      (pool.holders.map (pool.balanceOf · now)).sum ≤ pool.available now ∧
      pool.available now - (pool.holders.map (pool.balanceOf · now)).sum < pool.holders.length := by
  intro pool
  obtain ⟨h, -⟩ := Sound.of_new hp steps hoffered
  have hle := h.tallied.sum_balanceOf_le now
  have hlt := h.tallied.available_lt_sum_balanceOf hshares now
  refine ⟨pool.nodup_holders, fun account => h.mem_holders, fun account hnone => ?_, hle, by lia⟩
  have hzero : pool.sharesOf account = 0 := by
    have := h.mem_holders.not.1 hnone
    lia
  rw [h.tallied.balanceOf_eq, hzero, Nat.zero_mul, Nat.zero_div]

/-- A hundred come to one share and two shares, after a third holder has left. Half way through, 17 and 35 of 53
are theirs. -/
theorem balances_backed_of_uneven_reward :
    let p : SharePool := ⟨.empty, 0, 0, .none, 0, 10⟩
    let first := StakeAccount.own (Address.ofNat 3)
    let second := StakeAccount.own (Address.ofNat 4)
    let third := StakeAccount.own (Address.ofNat 5)
    let steps : List PoolStep := [
      .deposit third 5 1,
      .deposit first 1 1,
      .deposit second 2 1,
      .distribute 100 2,
      .withdrawShares third 5 2]
    let pool := (p.run steps).pool
    SharePool.new 10 = .ok p ∧ (steps.map PoolStep.offered).sum < Amount.limit ∧ 0 < pool.totalShares ∧
      pool.holders = [first, second] ∧ pool.balanceOf first 7 = 17 ∧ pool.balanceOf second 7 = 35 ∧
      pool.available 7 = 53 ∧
      pool.available 7 - (pool.holders.map (pool.balanceOf · 7)).sum < pool.holders.length := by
  intro p first second third steps pool
  have hp : SharePool.new 10 = .ok p := rfl
  have hoffered : (steps.map PoolStep.offered).sum < Amount.limit := by decide +kernel
  have hshares : 0 < pool.totalShares := by decide +kernel
  obtain ⟨-, -, -, -, hclose⟩ := balances_backed hp steps hoffered hshares 7
  exact ⟨hp, hoffered, hshares, by decide +kernel, by decide +kernel, by decide +kernel, by decide +kernel,
    hclose⟩

end PriceOracle.SharePool
