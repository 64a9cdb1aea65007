import PriceOracle.Proofs.Staking.Atomicity
import PriceOracle.Proofs.Staking.Conversion
/-! Withdrawals of an amount. Where the ledger's balances sum to its supply and cover the books, nothing but the lock
and the clock can refuse a release: what shares are worth is there to be moved, and the vault can take it. So a
withdrawal of an amount goes through, and what it releases is told by the conversions alone: all the caller has if
it asks for more, and otherwise the amount but for two roundings. -/
namespace PriceOracle.Staking

variable {s : Staking} {caller : Address} {ctx : BlockContext}

/-! ### Supply -/

/-- Calls move collateral and create none. -/
theorem Solvent.balanced_after (h : s.Solvent) (hb : s.ledger.Balanced) {step : StakingStep}
    (hs : step.Permitted s.account s.vault.account) : (s.after step).ledger.Balanced := by
  cases step with
  | call caller call ctx =>
    have outcome := outcome_perform h hs.1 ctx call
    simp only [Staking.after]
    generalize s.perform caller ctx call = x at outcome
    cases outcome with
    | refused | idle | locked => exact hb
    | paidIn h => exact hb.transferFrom h.pulled
    | rewarded h _ => exact hb.transferFrom h.pulled
    | stranded _ h _ => exact hb.transferFrom h.pulled
    | paidOut _ h =>
      obtain ⟨unlockTime, -, hdeposit⟩ := h.parked
      exact hb.transfer (DelayVault.deposit_eq_ok.1 hdeposit).2.2.1
    | collected h => exact hb.transfer (DelayVault.withdraw_eq_ok.1 h).2.2.2.1
  | set setting =>
    simp only [Staking.after]
    cases ha : s.adjust setting with
    | error e => exact hb
    | ok s' =>
      show s'.ledger.Balanced
      rwa [(adjust_cases ha).2.2.1]
  | outside step => exact hb.after step

theorem Solvent.balanced_run {steps : List StakingStep} : ∀ {s : Staking}, s.Solvent → s.ledger.Balanced →
    (∀ step ∈ steps, step.Permitted s.account s.vault.account) → (s.run steps).ledger.Balanced := by
  induction steps with
  | nil => exact fun _ hb _ => hb
  | cons step steps ih =>
    intro s h hb hs
    obtain ⟨h', hrest⟩ := h.next hs
    exact ih h' (h.balanced_after hb (hs step (by simp))) hrest

/-! ### Releases -/

variable {spare vaultSpare : Nat} {account : StakeAccount} {shares amount : Amount}

/-- What shares are worth can be parked: the pool's account covers it, and what the vault's account then has is no
more than the supply. -/
theorem Covered.released (h : s.Covered spare vaultSpare) (hb : s.ledger.Balanced)
    (howner : ¬ account.owner.isZero) (hp : s.pool.previewWithdraw account shares ctx.number = .ok amount)
    (hne : amount ≠ 0) (hlock : s.checkLock account amount ctx = .ok ())
    (htime : ctx.timestamp + s.withdrawLockTime < Word.limit) :
    ∃ id vault ledger pool, s.Released account shares amount ctx id vault ledger pool := by
  have hworth := (h.pool_sound.released_le_available h.funds_lt hp).2
  have hfunds := SharePool.available_le_funds h.funds_lt ctx.number
  have hbalance := h.balance_pool
  obtain ⟨ledger, ht⟩ := hb.transfer_ok (Ne.symm h.distinct) (show amount ≤ _ by lia)
  obtain ⟨pool, hburned⟩ := SharePool.withdrawShares_eq hp
  have hunlock : Word.add? ctx.timestamp s.withdrawLockTime = some (ctx.timestamp + s.withdrawLockTime) :=
    if_pos htime
  exact ⟨_, _, ledger, pool, hp, hne, hlock,
    ⟨_, hunlock, DelayVault.deposit_eq_ok.2 ⟨hne, howner, ht, rfl, rfl⟩⟩, hburned⟩

/-- Shares that are worth nothing are kept. -/
theorem release_of_worthless (hp : s.pool.previewWithdraw account shares ctx.number = .ok 0) :
    s.release account shares ctx = .ok s ⟨account, 0, 0, none⟩ := by
  simp only [release, hp, ↓reduceIte]

theorem checkLock_of_unlocked (hlock : s.lockedBalance account.owner ctx = 0) (amount : Amount) :
    s.checkLock account amount ctx = .ok () := by
  simp only [checkLock, hlock, Nat.not_lt_zero, ↓reduceIte, ite_self]

/-- Shares that an account has are released, unless they are worth nothing. -/
theorem Covered.release (h : s.Covered spare vaultSpare) (hb : s.ledger.Balanced)
    (howner : ¬ account.owner.isZero) (hle : shares ≤ s.pool.sharesOf account)
    (hlock : s.lockedBalance account.owner ctx = 0)
    (htime : ctx.timestamp + s.withdrawLockTime < Word.limit) :
    let x := s.release account shares ctx
    ∃ receipt, x.result = .ok receipt ∧
      receipt.amount = shares * s.pool.available ctx.number / s.pool.totalShares ∧
      x.state.pool.sharesOf account + receipt.shares = s.pool.sharesOf account ∧
      (receipt.amount ≠ 0 → receipt.shares = shares) ∧
      (receipt.amount = 0 → receipt.shares = 0 ∧ x.state = s) := by
  obtain ⟨hpreview, pool', hw, hburned⟩ := h.pool_sound.tallied.burned hle ctx.number
  by_cases hzero : shares * s.pool.available ctx.number / s.pool.totalShares = 0
  · rw [hzero] at hpreview
    rw [release_of_worthless hpreview]
    exact ⟨_, rfl, hzero.symm, rfl, fun hne => absurd rfl hne, fun _ => ⟨rfl, rfl⟩⟩
  · obtain ⟨id, vault, ledger, pool, hr⟩ :=
      h.released hb howner hpreview hzero (checkLock_of_unlocked hlock _) htime
    rw [hr.release_eq]
    obtain rfl : pool = pool' := congrArg Prod.snd (Except.ok.inj (hr.burned.symm.trans hw))
    refine ⟨_, rfl, rfl, ?_, fun _ => rfl, fun hnone => absurd hnone hzero⟩
    show pool.sharesOf account + shares = _
    rw [hburned.sharesOf]
    lia

/-! ### Withdrawals -/

/-- In every state reached from an empty ledger and vault while somebody holds shares: an account holder of whose
stake nothing is locked can withdraw, at any block and at any time whose unlock time is a word. What is released
goes to the vault. It is the whole balance for all shares if more is asked for, and otherwise at most the amount,
which it misses by less than one share's worth and one unit. Where nothing is released, nothing changes. -/
theorem withdraw_releases {account vaultAccount : Address} {params : StakingParams}
    (hne : vaultAccount ≠ account)
    (hs : Staking.new account params .empty (.new vaultAccount) = .ok s) (steps : List StakingStep)
    (hsteps : ∀ step ∈ steps, step.Permitted account vaultAccount) (hcaller : ¬ caller.isZero)
    (hlock : (s.run steps).lockedBalance caller ctx = 0)
    (htime : ctx.timestamp + (s.run steps).withdrawLockTime < Word.limit)
    (hshares : 0 < (s.run steps).pool.totalShares) (amount : Amount) :
    let before := s.run steps
    let x := before.withdraw caller amount ctx
    ∃ receipt, x.result = .ok receipt ∧ before.PaidOut x.state receipt.amount ∧
      x.state.shares caller + receipt.shares = before.shares caller ∧
      (before.balance caller ctx < amount →
        receipt.amount = before.balance caller ctx ∧ receipt.shares = before.shares caller) ∧
      (amount ≤ before.balance caller ctx →
        receipt.amount ≤ amount ∧
          ((amount : ℤ) - receipt.amount - 1) * before.pool.totalShares
            < before.pool.available ctx.number) ∧
      (receipt.amount = 0 → receipt.shares = 0 ∧ x.state = before) := by
  obtain ⟨rfl, rfl, hcovered⟩ := covered_new hne hs
  obtain ⟨spare, vaultSpare, ⟨-, -, h⟩, -⟩ := follows_run hcovered hsteps
  have hempty : s.ledger = .empty := by
    obtain ⟨pool, -, hnew⟩ := new_eq_ok hs
    rw [hnew]
  have hb : (s.run steps).ledger.Balanced :=
    hcovered.solvent.balanced_run (hempty ▸ Ledger.balanced_empty) hsteps
  intro before x
  have hsound := h.pool_sound
  have hcount := before.pool.sharesForCollateral_le (.own caller) amount ctx.number
  obtain ⟨receipt, hr, hamount, hkept, hburned, hnothing⟩ := h.release hb hcaller hcount hlock htime
  have hpaid := ((h.solvent.withdrawalAtomic h.numbered _ _ ctx).answered receipt hr).1
  refine ⟨receipt, hr, hpaid, hkept, fun hlt => ?_, fun hle => ?_, hnothing⟩
  · -- more than the balance: all shares
    rw [hsound.sharesForCollateral_of_lt h.funds_lt hlt] at hamount hburned
    have hbalance := hsound.tallied.balanceOf_eq (.own caller) ctx.number
    have hworth := hsound.sharesOf_le_balanceOf h.funds_lt (.own caller) ctx.number
    have hall : receipt.amount = before.balance caller ctx := hamount.trans hbalance.symm
    refine ⟨hall, ?_⟩
    by_cases hzero : receipt.amount = 0
    · -- a balance of nothing is one of no shares
      have hnone : before.pool.sharesOf (.own caller) = 0 :=
        Nat.le_zero.1 (hworth.trans (Nat.le_of_eq (hall.symm.trans hzero)))
      exact (hnothing hzero).1.trans hnone.symm
    · exact hburned hzero
  · rw [hsound.sharesForCollateral_of_le h.funds_lt hshares hle] at hamount
    have hrate := hsound.le_available h.funds_lt ctx.number
    rw [hamount]
    exact ⟨back_le (Nat.div_mul_le_self _ _), lost_mul_lt hshares (Nat.lt_div_mul_add (by lia))⟩

/-- Two of three shares are worth four of seven units. Of the four, two can be withdrawn for one share; who asks for
five gets all four, and who asks for two gets nothing. -/
theorem withdraw_releases_of_reward :
    let pool := Address.ofNat 1
    let vault := Address.ofNat 2
    let holder := Address.ofNat 3
    let other := Address.ofNat 4
    let s : Staking := ⟨pool, ⟨.empty, 0, 0, .none, 0, 10⟩, .empty, .new vault, 60, .empty, .empty, .empty⟩
    let steps : List StakingStep := [
      .outside (.mint holder 2),
      .outside (.approve holder pool 2),
      .outside (.mint other 5),
      .outside (.approve other pool 5),
      .call holder (.deposit 2 holder) ⟨1, 15⟩,
      .call other (.deposit 1 other) ⟨1, 15⟩,
      .call other (.distribute 4) ⟨2, 30⟩]
    let ctx : BlockContext := ⟨12, 180⟩
    vault ≠ pool ∧ Staking.new pool { withdrawLockTimeSecs := 60 } .empty (.new vault) = .ok s ∧
      (∀ step ∈ steps, step.Permitted pool vault) ∧ ¬ holder.isZero ∧ (s.run steps).lockedBalance holder ctx = 0 ∧
      ctx.timestamp + (s.run steps).withdrawLockTime < Word.limit ∧ (s.run steps).pool.totalShares = 3 ∧
      (s.run steps).pool.available ctx.number = 7 ∧ (s.run steps).balance holder ctx = 4 ∧
      ((s.run steps).withdraw holder 4 ctx).result = .ok ⟨.own holder, 2, 1, some 1⟩ ∧
      ((4 : ℤ) - 2 - 1) * (s.run steps).pool.totalShares < (s.run steps).pool.available ctx.number ∧
      ((s.run steps).withdraw holder 5 ctx).result = .ok ⟨.own holder, 4, 2, some 1⟩ ∧
      ((s.run steps).withdraw holder 2 ctx).result = .ok ⟨.own holder, 0, 0, none⟩ ∧
      ((s.run steps).withdraw holder 2 ctx).state = s.run steps := by
  intro pool vault holder other s steps ctx
  have hne : vault ≠ pool := by decide
  have hs : Staking.new pool { withdrawLockTimeSecs := 60 } .empty (.new vault) = .ok s := rfl
  have hsteps : ∀ step ∈ steps, step.Permitted pool vault := by decide
  have hholder : ¬ holder.isZero := by decide
  have hlock : (s.run steps).lockedBalance holder ctx = 0 := by decide +kernel
  have htime : ctx.timestamp + (s.run steps).withdrawLockTime < Word.limit := by decide +kernel
  have hshares : 0 < (s.run steps).pool.totalShares := by decide +kernel
  have hfour : ((s.run steps).withdraw holder 4 ctx).result = .ok ⟨.own holder, 2, 1, some 1⟩ := by decide +kernel
  have hfive : ((s.run steps).withdraw holder 5 ctx).result = .ok ⟨.own holder, 4, 2, some 1⟩ := by decide +kernel
  have htwo : ((s.run steps).withdraw holder 2 ctx).result = .ok ⟨.own holder, 0, 0, none⟩ := by decide +kernel
  have hreleases := withdraw_releases hne hs steps hsteps hholder hlock htime hshares
  obtain ⟨receipt, hr, -, -, -, hpart, -⟩ := hreleases 4
  obtain rfl := Except.ok.inj (hr.symm.trans hfour)
  obtain ⟨nothing, hn, -, -, -, -, hkept⟩ := hreleases 2
  obtain rfl := Except.ok.inj (hn.symm.trans htwo)
  have hlost := (hpart (by decide +kernel)).2
  push_cast at hlost
  exact ⟨hne, hs, hsteps, hholder, hlock, htime, by decide +kernel, by decide +kernel, by decide +kernel, hfour,
    hlost, hfive, htwo, (hkept rfl).2⟩

end PriceOracle.Staking
