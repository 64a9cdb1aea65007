import PriceOracle.Proofs.Staking.Conservation
import PriceOracle.Proofs.Staking.ExchangeRate
/-! When the released part of a reward is folded in does not matter. Reading computes the release anew and writing
folds it in, so a pool may be settled at any blocks along the way, or at none. What a settlement folds in, the
schedule counts as released, and a later one folds in just the rest: the roundings of the parts telescope. -/
namespace PriceOracle.SharePool

variable {p : SharePool} {now later : Nat}

/-- On a sound pool neither sum of a settlement saturates. -/
theorem Sound.settle_eq (h : p.Sound) (hf : p.funds < Amount.limit) (now : Nat) :
    p.settle now = { p with
      collateral := p.collateral + p.schedule.unreleased now
      schedule := { p.schedule with released := p.schedule.released + p.schedule.unreleased now } } := by
  have hcollateral : Amount.satAdd p.collateral (p.schedule.unreleased now)
      = p.collateral + p.schedule.unreleased now := available_eq hf now
  have hreleased : Amount.satAdd p.schedule.released (p.schedule.unreleased now)
      = p.schedule.released + p.schedule.unreleased now := by
    have hr := h.released_le
    have ha := h.amount_lt
    have hle := p.schedule.unreleased_le_remaining now
    rw [VestingSchedule.remaining] at hle
    exact Amount.satAdd_of_lt (by lia)
  rw [SharePool.settle, hcollateral, hreleased]

/-- What a settlement folds in and what a later block releases behind it are what that block releases without. -/
theorem Sound.unreleased_add_unreleased_settle (h : p.Sound) (hf : p.funds < Amount.limit) (hle : now ≤ later) :
    p.schedule.unreleased now + (p.settle now).schedule.unreleased later = p.schedule.unreleased later := by
  have hvested := p.schedule.vested_mono hle
  have hsame : (p.settle now).schedule.vested later = p.schedule.vested later := rfl
  have hreleased : (p.settle now).schedule.released = p.schedule.released + p.schedule.unreleased now :=
    congrArg (·.schedule.released) (h.settle_eq hf now)
  rw [VestingSchedule.unreleased] at hreleased
  rw [VestingSchedule.unreleased, VestingSchedule.unreleased, VestingSchedule.unreleased, hsame, hreleased]
  lia

theorem Sound.settle_settle (h : p.Sound) (hf : p.funds < Amount.limit) (hle : now ≤ later) :
    (p.settle now).settle later = p.settle later := by
  have hfunds := funds_settle h hf now
  have hparts := h.unreleased_add_unreleased_settle hf hle
  rw [(h.settle hf now).settle_eq (by lia) later, h.settle_eq hf later, ← hparts, ← Nat.add_assoc,
    ← Nat.add_assoc]
  generalize (p.settle now).schedule.unreleased later = due
  rw [h.settle_eq hf now]

/-- The pool after it was settled at some blocks, in their order. -/
def settleAll (p : SharePool) (blocks : List Nat) : SharePool := blocks.foldl settle p

theorem Sound.settleAll (h : p.Sound) (hf : p.funds < Amount.limit) (blocks : List Nat) :
    (p.settleAll blocks).Sound ∧ (p.settleAll blocks).funds = p.funds := by
  induction blocks generalizing p with
  | nil => exact ⟨h, rfl⟩
  | cons now blocks ih =>
    have hfunds := funds_settle h hf now
    obtain ⟨hs, hsame⟩ := ih (h.settle hf now) (by lia)
    exact ⟨hs, hsame.trans hfunds⟩

/-- Settlements on the way to a block leave nothing to be seen behind the settlement at that block. -/
theorem Sound.settle_settleAll (h : p.Sound) (hf : p.funds < Amount.limit) {blocks : List Nat}
    (hle : ∀ now ∈ blocks, now ≤ later) : (p.settleAll blocks).settle later = p.settle later := by
  induction blocks generalizing p with
  | nil => rfl
  | cons now blocks ih =>
    obtain ⟨hnow, hrest⟩ := List.forall_mem_cons.1 hle
    have hfunds := funds_settle h hf now
    calc ((p.settle now).settleAll blocks).settle later
        = (p.settle now).settle later := ih (h.settle hf now) (by lia) hrest
      _ = p.settle later := h.settle_settle hf hnow

/-- In any state that a new pool comes to: settling it at any blocks up to some later one, in whatever order, and
settling it there leaves the pool that settling it only there leaves. So at the later block as much is available and
every account has the same balance, and the pool answers for as much, as if it had not been settled on the way. More
blocks never make less available, and once the schedule has ended all that remained of the reward is. -/
theorem lazy_settlement {period : Nat} (hp : SharePool.new period = .ok p) (steps : List PoolStep)
    (hoffered : (steps.map PoolStep.offered).sum < Amount.limit) :
    let pool := (p.run steps).pool
    (∀ blocks later, (∀ now ∈ blocks, now ≤ later) →
      (pool.settleAll blocks).settle later = pool.settle later ∧
      (pool.settleAll blocks).available later = pool.available later ∧
      (pool.settleAll blocks).held = pool.held ∧
      ∀ account, (pool.settleAll blocks).balanceOf account later = pool.balanceOf account later) ∧
    (∀ now later, now ≤ later → pool.available now ≤ pool.available later) ∧
    ∀ now, pool.schedule.finish ≤ now → pool.available now = pool.collateral + pool.schedule.remaining := by
  intro pool
  obtain ⟨h, hf⟩ := Sound.of_new hp steps hoffered
  refine ⟨fun blocks later hle => ?_, fun now later hle => pool.available_mono hle, fun now hended => ?_⟩
  · have hsettled := h.settle_settleAll hf hle
    obtain ⟨-, hfunds⟩ := h.settleAll hf blocks
    -- what is available at a block is the collateral after the settlement there
    have havailable : (pool.settleAll blocks).available later = pool.available later :=
      congrArg (·.collateral) hsettled
    have hshares : (pool.settleAll blocks).shares = pool.shares := congrArg (·.shares) hsettled
    have htotal : (pool.settleAll blocks).totalShares = pool.totalShares :=
      congrArg (·.totalShares) hsettled
    refine ⟨hsettled, havailable, ?_, fun account => ?_⟩
    · rw [held_eq_funds (by lia), held_eq_funds hf, hfunds]
    · rw [balanceOf, balanceOf, sharesOf, sharesOf, havailable, hshares, htotal]
  · have hinactive : ¬ pool.schedule.isActive now := by
      simpa only [VestingSchedule.isActive, decide_eq_true_eq, Nat.not_lt] using hended
    rw [available_eq hf, VestingSchedule.unreleased_of_inactive hinactive]

/-- Ten vest over seven blocks and a holder of three leaves early, which settles the pool at block 4. Settled at blocks
5, 7 and 6 on the way, the pool has at block 8 what it has without. -/
theorem lazy_settlement_of_early_exit :
    let p : SharePool := ⟨.empty, 0, 0, .none, 0, 7⟩
    let first := StakeAccount.own (Address.ofNat 3)
    let second := StakeAccount.own (Address.ofNat 4)
    let steps : List PoolStep := [
      .deposit first 2 1,
      .deposit second 1 1,
      .distribute 10 2,
      .withdrawShares second 1 4]
    let pool := (p.run steps).pool
    SharePool.new 7 = .ok p ∧ (steps.map PoolStep.offered).sum < Amount.limit ∧
      (∀ now ∈ [5, 7, 6], now ≤ 8) ∧ (pool.settleAll [5, 7, 6]).available 8 = pool.available 8 ∧
      (pool.settleAll [5, 7, 6]).balanceOf first 8 = pool.balanceOf first 8 ∧ pool.balanceOf first 8 = 10 ∧
      (pool.settleAll [5, 7, 6]).held = pool.held ∧ pool.held = 12 := by
  intro p first second steps pool
  have hp : SharePool.new 7 = .ok p := rfl
  have hoffered : (steps.map PoolStep.offered).sum < Amount.limit := by decide +kernel
  have hle : ∀ now ∈ [5, 7, 6], now ≤ 8 := by decide
  obtain ⟨hlazy, -⟩ := lazy_settlement hp steps hoffered
  obtain ⟨-, havailable, hheld, hbalance⟩ := hlazy [5, 7, 6] 8 hle
  exact ⟨hp, hoffered, hle, havailable, hbalance first, by decide +kernel, hheld, by decide +kernel⟩

end PriceOracle.SharePool
