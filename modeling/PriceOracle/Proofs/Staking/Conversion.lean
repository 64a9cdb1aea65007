import PriceOracle.Proofs.Rounding
import PriceOracle.Proofs.Staking.Parts
/-! Collateral into shares and back. A deposit converts collateral at the rate it finds and brings the pool to a
rate that is no lower; a withdrawal of an amount converts it into shares first, and these back at the same rate.
Both conversions round down, so what comes back is at most the amount. What is lost is less than one share's worth
and one unit, since a share is never worth less than a unit. -/
namespace PriceOracle.SharePool

variable {p p' : SharePool} {account : StakeAccount} {amount minted : Amount} {now : Nat}

/-! ### Deposits -/

/-- What minting shares for an account leaves. -/
structure Minted (p : SharePool) (account : StakeAccount) (amount minted : Amount) (now : Nat)
    (p' : SharePool) : Prop where
  tallied : p'.Tallied
  totalShares : p'.totalShares = p.totalShares + minted
  shares : p'.shares = p.shares.insert account (p.sharesOf account + minted)
  collateral : p'.collateral = (if p.totalShares = 0 then 0 else p.available now) + amount
  bounded : p'.collateral < Amount.limit ∧ p'.totalShares < Amount.limit
  schedule : p'.schedule.amount = p.schedule.amount ∧ p'.schedule.unreleased now = 0

theorem unreleased_parkResidual (p : SharePool) (now : Nat) : p.parkResidual.schedule.unreleased now = 0 :=
  Nat.sub_eq_zero_of_le (p.parkResidual.schedule.vested_le now)

/-- A deposit that mints shares mints what its preview said. -/
theorem Tallied.minted_of_deposit (h : p.Tallied) (hd : p.deposit account amount now = .ok (minted, p'))
    (hm : minted ≠ 0) : p.previewDeposit amount now = .ok minted ∧ p.Minted account amount minted now p' := by
  have h' := h.deposit hd
  simp only [SharePool.deposit] at hd
  split at hd
  · cases hd
    exact absurd rfl hm
  split at hd
  · cases hd
  rename_i shares hp
  split at hd
  · cases hd
    exact absurd rfl hm
  split at hd
  · rename_i collateral totalShares hcollateral htotal
    obtain ⟨rfl, hfit⟩ := Amount.add?_eq_some.1 hcollateral
    obtain ⟨rfl, hlt⟩ := Amount.add?_eq_some.1 htotal
    by_cases h0 : p.totalShares = 0
    · rw [if_pos h0] at hd
      cases hd
      have hamount : amount < Amount.limit := by lia
      exact ⟨hp, h', rfl, rfl, by rw [if_pos h0, Nat.zero_add], ⟨hamount, hlt⟩, rfl,
        unreleased_parkResidual _ now⟩
    · rw [if_neg h0] at hd
      cases hd
      exact ⟨hp, h', rfl, rfl, by rw [if_neg h0], ⟨hfit, hlt⟩, rfl, h.unreleased_settle now⟩
  · cases hd

theorem minted_eq_preview {expected : Amount} (ha : amount ≠ 0) (hp : p.previewDeposit amount now = .ok expected)
    (hd : p.deposit account amount now = .ok (minted, p')) : minted = expected := by
  simp only [SharePool.deposit, if_neg ha, hp] at hd
  split at hd
  · rename_i hzero
    cases hd
    exact hzero.symm
  · split at hd
    · cases hd
      rfl
    · cases hd

theorem Minted.available (h : p.Minted account amount minted now p') :
    p'.available now = (if p.totalShares = 0 then 0 else p.available now) + amount := by
  have hfit := h.bounded.1
  rw [SharePool.available, h.schedule.2, Amount.satAdd_of_lt (by lia), Nat.add_zero, h.collateral]

theorem Minted.sharesOf (h : p.Minted account amount minted now p') (holder : StakeAccount) :
    p'.sharesOf holder = if holder = account then p.sharesOf account + minted else p.sharesOf holder :=
  sharesOf_of_insert h.shares holder

/-- The first deposit is one to one, and the others get their part of the shares. -/
theorem Sound.minted_eq (h : p.Sound) (hf : p.funds < Amount.limit)
    (hp : p.previewDeposit amount now = .ok minted) :
    minted = if p.totalShares = 0 then amount else amount * p.totalShares / p.available now := by
  have hle := h.le_available hf now
  simp only [previewDeposit] at hp
  split at hp
  · rename_i hnone
    cases hp
    rw [if_pos (by lia)]
  · rename_i hsome
    split at hp
    · rename_i shares hq
      obtain ⟨-, rfl, -⟩ := Amount.mulDiv?_eq_some.1 hq
      cases hp
      rw [if_neg (by lia)]
    · cases hp

/-- Shares that were just minted can be burned. They give back what they cost but for the roundings, and all of it
if there were no others. -/
theorem Sound.burn_minted (h : p.Sound) (hf : p.funds < Amount.limit)
    (hd : p.deposit account amount now = .ok (minted, p')) (hm : 0 < minted) :
    ∃ released p'', p'.withdrawShares account minted now = .ok (released, p'') ∧ released ≤ amount ∧
      (0 < p.totalShares → ((amount : ℤ) - released - 1) * (p.totalShares + minted) < p.available now) ∧
      (p.totalShares = 0 → released = amount) := by
  obtain ⟨hpreview, hminted⟩ := h.tallied.minted_of_deposit hd (Nat.ne_of_gt hm)
  have hheld : minted ≤ p'.sharesOf account := by
    rw [hminted.sharesOf, if_pos rfl]
    exact Nat.le_add_left _ _
  obtain ⟨-, p'', hw, -⟩ := hminted.tallied.burned hheld now
  have hmints := h.minted_eq hf hpreview
  have hrate := h.le_available hf now
  rw [hminted.available, hminted.totalShares] at hw
  refine ⟨_, p'', hw, ?_⟩
  by_cases h0 : p.totalShares = 0
  · rw [if_pos h0] at hmints ⊢
    have hback : minted * (0 + amount) / (p.totalShares + minted) = amount := by
      rw [h0, hmints, Nat.zero_add, Nat.mul_div_cancel _ (by lia)]
    rw [hback]
    exact ⟨Nat.le_refl _, fun hpos => by lia, fun _ => rfl⟩
  · rw [if_neg h0] at hmints ⊢
    have hpart : minted * p.available now ≤ amount * p.totalShares := by
      rw [hmints]
      exact Nat.div_mul_le_self _ _
    have hcut : amount * p.totalShares < minted * p.available now + p.available now := by
      rw [hmints]
      exact Nat.lt_div_mul_add (by lia)
    refine ⟨back_le (joined_mul_le hpart), fun _ => ?_, fun hzero => absurd hzero h0⟩
    have hlost := lost_mul_lt (by lia) (lt_joined_mul_add hcut)
    rwa [Nat.cast_add] at hlost

/-- In any state that a new pool comes to, whoever deposits an amount that mints shares can burn these at the same
block. It gets no more than the amount: if nobody held shares before, it gets just that, and otherwise it loses
less than one share's worth and one unit. -/
theorem round_trip {period : Nat} (hp : SharePool.new period = .ok p) (steps : List PoolStep)
    (hoffered : (steps.map PoolStep.offered).sum < Amount.limit)
    (hd : (p.run steps).pool.deposit account amount now = .ok (minted, p')) (hm : 0 < minted) :
    let pool := (p.run steps).pool
    ∃ released p'', p'.withdrawShares account minted now = .ok (released, p'') ∧ released ≤ amount ∧
      (0 < pool.totalShares →
        ((amount : ℤ) - released - 1) * (pool.totalShares + minted) < pool.available now) ∧
      (pool.totalShares = 0 → released = amount) := by
  obtain ⟨h, hf⟩ := Sound.of_new hp steps hoffered
  exact h.burn_minted hf hd hm

/-- A hundred have come to the only share. A thousand then mint nine shares, which are worth 990 of 1101: ten are
lost, where a share is worth more. -/
theorem round_trip_of_uneven_reward :
    let p : SharePool := ⟨.empty, 0, 0, .none, 0, 10⟩
    let first := StakeAccount.own (Address.ofNat 3)
    let second := StakeAccount.own (Address.ofNat 4)
    let steps : List PoolStep := [
      .deposit first 1 1,
      .distribute 100 2]
    let pool := (p.run steps).pool
    SharePool.new 10 = .ok p ∧ (steps.map PoolStep.offered).sum < Amount.limit ∧
      ∃ p' p'', pool.deposit second 1000 12 = .ok (9, p') ∧ 0 < 9 ∧
        p'.withdrawShares second 9 12 = .ok (990, p'') ∧ 990 ≤ 1000 ∧ 0 < pool.totalShares ∧
        ((1000 : ℤ) - 990 - 1) * (pool.totalShares + 9) < pool.available 12 ∧ pool.available 12 = 101 := by
  intro p first second steps pool
  have hp : SharePool.new 10 = .ok p := rfl
  have hoffered : (steps.map PoolStep.offered).sum < Amount.limit := by decide +kernel
  have hminted : (pool.deposit second 1000 12).map (·.1) = .ok 9 := by decide +kernel
  have hback : ((pool.deposit second 1000 12).bind fun deposited =>
      (deposited.2.withdrawShares second 9 12).map (·.1)) = .ok 990 := by decide +kernel
  have hshares : 0 < pool.totalShares := by decide +kernel
  obtain ⟨⟨minted, p'⟩, hd, hnine⟩ := exists_of_map_eq_ok hminted
  obtain rfl : minted = 9 := hnine
  obtain ⟨released, p'', hw, hle, hlost, -⟩ := round_trip hp steps hoffered hd (by decide)
  rw [hd] at hback
  obtain ⟨⟨amount, q⟩, hq, hamount⟩ := exists_of_map_eq_ok hback
  obtain rfl : released = 990 := (congrArg Prod.fst (Except.ok.inj (hw.symm.trans hq))).trans hamount
  exact ⟨hp, hoffered, p', p'', hd, by decide, hw, hle, hshares, hlost hshares, by decide +kernel⟩

/-! ### Withdrawals of an amount -/

theorem Sound.sharesOf_le_balanceOf (h : p.Sound) (hf : p.funds < Amount.limit) (account : StakeAccount)
    (now : Nat) : p.sharesOf account ≤ p.balanceOf account now := by
  have hheld := h.tallied.sharesOf_le account
  rw [h.tallied.balanceOf_eq]
  rcases Nat.eq_zero_or_pos p.totalShares with h0 | hpos
  · lia
  · rw [Nat.le_div_iff_mul_le hpos]
    exact Nat.mul_le_mul_left _ (h.le_available hf now)

theorem sharesForCollateral_le (p : SharePool) (account : StakeAccount) (amount : Amount) (now : Nat) :
    p.sharesForCollateral account amount now ≤ p.sharesOf account := by
  simp only [sharesForCollateral]
  split
  · exact Nat.zero_le _
  · exact Nat.min_le_right _ _

/-- Who asks for more than its balance is taken at all its shares, also where the conversion overflows. -/
theorem Sound.sharesForCollateral_of_lt (h : p.Sound) (hf : p.funds < Amount.limit)
    (hlt : p.balanceOf account now < amount) : p.sharesForCollateral account amount now = p.sharesOf account := by
  have hrate := h.le_available hf now
  have hheld := h.tallied.sharesOf_le account
  have havailable := p.available_lt now
  rw [h.tallied.balanceOf_eq] at hlt
  simp only [sharesForCollateral]
  split
  · lia
  · refine Nat.min_eq_right ?_
    cases hq : Amount.mulDiv? amount p.totalShares (p.available now) with
    | none =>
      rw [Option.getD_none, Amount.max]
      lia
    | some shares =>
      obtain ⟨hne, rfl, -⟩ := Amount.mulDiv?_eq_some.1 hq
      rw [Option.getD_some, Nat.le_div_iff_mul_le (Nat.pos_of_ne_zero hne)]
      exact Nat.le_of_lt (Nat.lt_mul_of_div_lt hlt (by lia))

/-- An amount that the balance covers is taken at the shares it is worth, which the account has. -/
theorem Sound.sharesForCollateral_of_le (h : p.Sound) (hf : p.funds < Amount.limit) (hpos : 0 < p.totalShares)
    (hle : amount ≤ p.balanceOf account now) :
    p.sharesForCollateral account amount now = amount * p.totalShares / p.available now := by
  have hrate := h.le_available hf now
  have hheld := h.tallied.sharesOf_le account
  have havailable := p.available_lt now
  rw [h.tallied.balanceOf_eq, Nat.le_div_iff_mul_le hpos] at hle
  have hcovered : amount * p.totalShares / p.available now ≤ p.sharesOf account :=
    Nat.div_le_of_le_mul (by rwa [Nat.mul_comm (p.available now)])
  have hquotient : Amount.mulDiv? amount p.totalShares (p.available now)
      = some (amount * p.totalShares / p.available now) :=
    Amount.mulDiv?_eq_some.2 ⟨by lia, rfl, by lia⟩
  simp only [sharesForCollateral]
  rw [if_neg (by lia), hquotient, Option.getD_some, Nat.min_eq_left hcovered]

end PriceOracle.SharePool
