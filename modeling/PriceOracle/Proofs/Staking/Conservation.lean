import PriceOracle.Attempt
import PriceOracle.Proofs.Staking.SharePool
/-! Runs of the share pool by itself, at any blocks in any order. As long as all collateral that is
offered to it sums to an amount, the pool stays sound, and what it answers for is what it took in less
what it paid out. -/
namespace PriceOracle

inductive PoolStep where
  | deposit (account : StakeAccount) (amount : Amount) (now : Nat)
  | withdrawShares (account : StakeAccount) (shares : Amount) (now : Nat)
  | distribute (amount : Amount) (now : Nat)
  | setPeriod (period : Nat)
deriving DecidableEq, Inhabited

/-- The collateral that comes with a step, whether it is accepted or not. -/
def PoolStep.offered : PoolStep → Nat
  | .deposit _ amount _ | .distribute amount _ => amount
  | .withdrawShares .. | .setPeriod _ => 0

/-- What steps take in and pay out, and the pool they leave. -/
structure PoolEffect where
  takenIn : Nat
  paidOut : Nat
  pool : SharePool

namespace SharePool

/-- The effect of a step that is accepted. A deposit that mints no shares takes in nothing. -/
def attempt (p : SharePool) : PoolStep → Except StakingError PoolEffect
  | .deposit account amount now => (p.deposit account amount now).map fun (minted, pool) =>
    ⟨if minted = 0 then 0 else amount, 0, pool⟩
  | .withdrawShares account shares now => (p.withdrawShares account shares now).map
    fun (released, pool) => ⟨0, released, pool⟩
  | .distribute amount now => (p.distribute amount now).map fun (_, pool) => ⟨amount, 0, pool⟩
  | .setPeriod period => (p.setPeriod period).map fun pool => ⟨0, 0, pool⟩

/-- The effect of a step. One that is refused has none. -/
def effect (p : SharePool) (step : PoolStep) : PoolEffect := (p.attempt step).toOption.getD ⟨0, 0, p⟩

def run (p : SharePool) : List PoolStep → PoolEffect
  | [] => ⟨0, 0, p⟩
  | step :: steps =>
    let first := p.effect step
    let rest := run first.pool steps
    ⟨first.takenIn + rest.takenIn, first.paidOut + rest.paidOut, rest.pool⟩

/-- A deposit either mints nothing and leaves the pool as it is, or mints what its preview said. -/
theorem deposit_cases {p p' : SharePool} {account : StakeAccount} {amount minted : Amount} {now : Nat}
    (h : p.deposit account amount now = .ok (minted, p')) :
    (minted = 0 ∧ p' = p) ∨
      (minted ≠ 0 ∧ amount ≠ 0 ∧ p.previewDeposit amount now = .ok minted) := by
  simp only [deposit] at h
  split at h
  · cases h
    exact .inl ⟨rfl, rfl⟩
  · rename_i ha
    split at h
    · cases h
    · rename_i shares hp
      split at h
      · cases h
        exact .inl ⟨rfl, rfl⟩
      · rename_i hm
        split at h
        · cases h
          exact .inr ⟨hm, ha, hp⟩
        · cases h

/-- A step keeps the pool sound and moves its funds by what it takes in, at most what is offered, and by
what it pays out. -/
theorem Sound.attempt {p : SharePool} (h : p.Sound) {step : PoolStep}
    (hroom : p.funds + step.offered < Amount.limit) {e : PoolEffect} (he : p.attempt step = .ok e) :
    e.pool.Sound ∧ e.pool.funds + e.paidOut = p.funds + e.takenIn ∧ e.takenIn ≤ step.offered := by
  cases step with
  | deposit account amount now =>
    obtain ⟨⟨minted, pool⟩, hd, rfl⟩ := exists_of_map_eq_ok he
    rcases deposit_cases hd with ⟨rfl, rfl⟩ | ⟨hm, ha, hp⟩
    · exact ⟨h, rfl, Nat.zero_le _⟩
    · obtain ⟨hs, hf⟩ := h.deposit hroom ha hp hm hd
      simp only [hm, ↓reduceIte]
      exact ⟨hs, hf, Nat.le_refl _⟩
  | withdrawShares account shares now =>
    obtain ⟨⟨released, pool⟩, hw, rfl⟩ := exists_of_map_eq_ok he
    obtain ⟨hs, hf⟩ := h.withdrawShares hroom hw
    exact ⟨hs, hf, Nat.le_refl _⟩
  | distribute amount now =>
    obtain ⟨⟨schedule, pool⟩, hd, rfl⟩ := exists_of_map_eq_ok he
    obtain ⟨hs, hf⟩ := h.distribute hroom hd
    exact ⟨hs, hf, Nat.le_refl _⟩
  | setPeriod period =>
    obtain ⟨pool, hp, rfl⟩ := exists_of_map_eq_ok he
    obtain ⟨hs, hf⟩ := h.setPeriod hp
    exact ⟨hs, hf, Nat.le_refl _⟩

theorem Sound.effect {p : SharePool} (h : p.Sound) {step : PoolStep}
    (hroom : p.funds + step.offered < Amount.limit) :
    (p.effect step).pool.Sound ∧
      (p.effect step).pool.funds + (p.effect step).paidOut = p.funds + (p.effect step).takenIn ∧
      (p.effect step).takenIn ≤ step.offered := by
  simp only [SharePool.effect]
  cases he : p.attempt step with
  | error e => exact ⟨h, rfl, Nat.zero_le _⟩
  | ok e => exact h.attempt hroom he

theorem Sound.run {steps : List PoolStep} : ∀ {p : SharePool}, p.Sound →
    p.funds + (steps.map PoolStep.offered).sum < Amount.limit →
    (p.run steps).pool.Sound ∧
      (p.run steps).pool.funds + (p.run steps).paidOut = p.funds + (p.run steps).takenIn ∧
      (p.run steps).takenIn ≤ (steps.map PoolStep.offered).sum := by
  induction steps with
  | nil =>
    intro p h _
    exact ⟨h, rfl, Nat.le_refl _⟩
  | cons step steps ih =>
    intro p h hroom
    simp only [List.map_cons, List.sum_cons] at hroom ⊢
    have hfirst : p.funds + step.offered < Amount.limit := by lia
    obtain ⟨hs, hf, hle⟩ := h.effect hfirst
    obtain ⟨hs', hf', hle'⟩ := ih hs (by lia)
    simp only [SharePool.run]
    exact ⟨hs', by lia, by lia⟩

/-- What a new pool comes to is sound, if all that is offered to it sums to an amount. -/
theorem Sound.of_new {period : Nat} {p : SharePool} (hp : SharePool.new period = .ok p) (steps : List PoolStep)
    (hoffered : (steps.map PoolStep.offered).sum < Amount.limit) :
    (p.run steps).pool.Sound ∧ (p.run steps).pool.funds < Amount.limit := by
  obtain ⟨hnew, hzero⟩ := Sound.new hp
  obtain ⟨h, hfunds, htaken⟩ := hnew.run (by rwa [hzero, Nat.zero_add])
  exact ⟨h, by lia⟩

/-- Whatever is asked of a new pool, at whatever blocks, if all that is offered to it sums to an amount:
the holders' shares sum to the total and none is stored as zero, no more is released than vests, every
share has a unit of collateral behind it, nothing is available while nobody holds shares, the pool
answers for what it took in less what it paid out, and a step that is refused changes nothing. -/
theorem conservation {period : Nat} {p : SharePool} (hp : SharePool.new period = .ok p)
    (steps : List PoolStep) (hoffered : (steps.map PoolStep.offered).sum < Amount.limit) :
    (p.run steps).pool.shares.total id = (p.run steps).pool.totalShares ∧
      (∀ account, (p.run steps).pool.shares.get? account ≠ some 0) ∧
      (p.run steps).pool.schedule.released ≤ (p.run steps).pool.schedule.amount ∧
      (p.run steps).pool.totalShares ≤ (p.run steps).pool.collateral ∧
      ((p.run steps).pool.totalShares = 0 → ∀ now, (p.run steps).pool.available now = 0) ∧
      (p.run steps).pool.held + (p.run steps).paidOut = (p.run steps).takenIn ∧
      ∀ step e, (p.run steps).pool.attempt step = .error e →
        (p.run steps).pool.effect step = ⟨0, 0, (p.run steps).pool⟩ := by
  obtain ⟨hnew, hzero⟩ := Sound.new hp
  have hroom : p.funds + (steps.map PoolStep.offered).sum < Amount.limit := by rwa [hzero, Nat.zero_add]
  obtain ⟨h, hfunds, htaken⟩ := hnew.run hroom
  rw [hzero, Nat.zero_add] at hfunds
  have hlt : (p.run steps).pool.funds < Amount.limit := by lia
  refine ⟨h.total_shares, fun account hg => Nat.lt_irrefl 0 (h.positive account 0 hg), h.released_le,
    h.backed, h.available_eq_zero hlt, ?_, fun step e he => ?_⟩
  · rw [held_eq_funds hlt, hfunds]
  · rw [SharePool.effect, he]
    rfl

/-- A reward starts to vest after a deposit and the last holder leaves before it is released: seven of
its units are parked. The next deposit is one to one, and a distribution picks up what was parked. -/
theorem conservation_of_parked :
    let p : SharePool := ⟨.empty, 0, 0, .none, 0, 10⟩
    let holder := StakeAccount.own (Address.ofNat 3)
    let steps : List PoolStep := [
      .deposit holder 100 1,
      .distribute 10 2,
      .withdrawShares holder 100 5,
      .deposit holder 50 4,
      .distribute 5 6]
    SharePool.new 10 = .ok p ∧ (steps.map PoolStep.offered).sum < Amount.limit ∧
      (p.run steps).pool.held + (p.run steps).paidOut = (p.run steps).takenIn ∧
      (p.run steps).paidOut = 103 ∧ (p.run steps).takenIn = 165 ∧
      (p.run steps).pool.schedule.amount = 12 := by
  intro p holder steps
  have hp : SharePool.new 10 = .ok p := rfl
  have hoffered : (steps.map PoolStep.offered).sum < Amount.limit := by decide +kernel
  obtain ⟨-, -, -, -, -, hheld, -⟩ := conservation hp steps hoffered
  exact ⟨hp, hoffered, hheld, by decide +kernel, by decide +kernel, by decide +kernel⟩

end SharePool

end PriceOracle
