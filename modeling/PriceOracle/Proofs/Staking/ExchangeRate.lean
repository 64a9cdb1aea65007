import PriceOracle.Proofs.Staking.SharePool
/-! What a share is worth. Two states of a pool are compared by cross-multiplying what is available with
the shares it is shared by. Mints and releases are rounded down, so no operation makes a share worth
less, and neither does the passing of blocks; holders who keep their shares keep their balance. -/
namespace PriceOracle

namespace SharePool

variable {p p' p'' : SharePool} {account : StakeAccount} {now later : Nat}

/-! ### Reading -/

theorem available_mono (p : SharePool) (h : now ≤ later) : p.available now ≤ p.available later := by
  have hv := p.schedule.vested_mono h
  simp only [available, Amount.satAdd, VestingSchedule.unreleased]
  lia

theorem collateral_le_available (h : p.collateral < Amount.limit) (now : Nat) :
    p.collateral ≤ p.available now := by
  rw [available, Amount.satAdd, Amount.max]
  lia

theorem available_lt (p : SharePool) (now : Nat) : p.available now < Amount.limit := by
  have hlimit : 0 < Amount.limit := by decide
  rw [available, Amount.satAdd, Amount.max]
  lia

theorem Tallied.balanceOf_eq (h : p.Tallied) (account : StakeAccount) (now : Nat) :
    p.balanceOf account now = p.sharesOf account * p.available now / p.totalShares := by
  rw [balanceOf]
  split
  · rename_i h0
    rw [h0, Nat.div_zero]
  · rename_i hne
    have hle : p.sharesOf account * p.available now / p.totalShares ≤ p.available now :=
      Nat.div_le_of_le_mul (Nat.mul_le_mul_right _ (h.sharesOf_le account))
    have hlt := p.available_lt now
    rw [Amount.mulDiv?_eq_some.2 ⟨hne, rfl, by lia⟩, Option.getD_some]

/-! ### What a share is worth -/

/-- A share of `p` at block `now` is worth no more than one of `p'` at block `later`. -/
def WorthLe (p : SharePool) (now : Nat) (p' : SharePool) (later : Nat) : Prop :=
  p.available now * p'.totalShares ≤ p'.available later * p.totalShares

theorem WorthLe.mono {n l : Nat} (h : p.WorthLe n p' l) (hn : now ≤ n) (hl : l ≤ later) :
    p.WorthLe now p' later :=
  calc p.available now * p'.totalShares
      ≤ p.available n * p'.totalShares := Nat.mul_le_mul_right _ (p.available_mono hn)
    _ ≤ p'.available l * p.totalShares := h
    _ ≤ p'.available later * p.totalShares := Nat.mul_le_mul_right _ (p'.available_mono hl)

theorem WorthLe.rfl : p.WorthLe now p now := Nat.le_refl _

/-- While shares are outstanding, comparisons of what a share is worth can be chained. -/
theorem WorthLe.trans {n : Nat} (h : p.WorthLe now p' n) (h' : p'.WorthLe n p'' later)
    (hpos : 0 < p'.totalShares) : p.WorthLe now p'' later := by
  apply Nat.le_of_mul_le_mul_right _ hpos
  calc p.available now * p''.totalShares * p'.totalShares
      = p.available now * p'.totalShares * p''.totalShares := Nat.mul_right_comm ..
    _ ≤ p'.available n * p.totalShares * p''.totalShares := Nat.mul_le_mul_right _ h
    _ = p'.available n * p''.totalShares * p.totalShares := Nat.mul_right_comm ..
    _ ≤ p''.available later * p'.totalShares * p.totalShares := Nat.mul_le_mul_right _ h'
    _ = p''.available later * p.totalShares * p'.totalShares := Nat.mul_right_comm ..

theorem WorthLe.balanceOf_le (hw : p.WorthLe now p' later) (h : p.Tallied) (h' : p'.Tallied)
    (hshares : p.sharesOf account ≤ p'.sharesOf account) :
    p.balanceOf account now ≤ p'.balanceOf account later := by
  rw [h.balanceOf_eq, h'.balanceOf_eq]
  rcases Nat.eq_zero_or_pos p.totalShares with h0 | hpos
  · rw [h0, Nat.div_zero]
    exact Nat.zero_le _
  · rcases Nat.eq_zero_or_pos p'.totalShares with h0' | hpos'
    · -- nobody holds shares any more, so this account never did
      have hnone : p.sharesOf account = 0 := by
        have := h'.sharesOf_le account
        lia
      rw [hnone, Nat.zero_mul, Nat.zero_div]
      exact Nat.zero_le _
    · rw [Nat.le_div_iff_mul_le hpos']
      apply Nat.le_of_mul_le_mul_right _ hpos
      have hfloor := Nat.div_mul_le_self (p.sharesOf account * p.available now) p.totalShares
      calc p.sharesOf account * p.available now / p.totalShares * p'.totalShares * p.totalShares
          = p.sharesOf account * p.available now / p.totalShares * p.totalShares * p'.totalShares :=
            Nat.mul_right_comm ..
        _ ≤ p.sharesOf account * p.available now * p'.totalShares := Nat.mul_le_mul_right _ hfloor
        _ = p.sharesOf account * (p.available now * p'.totalShares) := Nat.mul_assoc ..
        _ ≤ p'.sharesOf account * (p'.available later * p.totalShares) := Nat.mul_le_mul hshares hw
        _ = p'.sharesOf account * p'.available later * p.totalShares := (Nat.mul_assoc ..).symm

/-! ### Operations -/

theorem sharesOf_of_insert {shares : Amount} (hs : p'.shares = p.shares.insert account shares)
    (holder : StakeAccount) :
    p'.sharesOf holder = if holder = account then shares else p.sharesOf holder := by
  rw [sharesOf, hs, Table.get?_insert]
  split <;> rfl

/-- A deposit is promised no more shares than its part of the pool. -/
theorem minted_mul_le {amount minted : Amount} (h0 : p.totalShares ≠ 0)
    (hp : p.previewDeposit amount now = .ok minted) :
    minted * p.available now ≤ amount * p.totalShares := by
  simp only [previewDeposit, h0, false_or] at hp
  split at hp
  · rename_i hnone
    rw [hnone, Nat.mul_zero]
    exact Nat.zero_le _
  · split at hp
    · rename_i shares hq
      obtain ⟨-, rfl, -⟩ := Amount.mulDiv?_eq_some.1 hq
      cases hp
      exact Nat.div_mul_le_self _ _
    · cases hp

/-- A deposit makes no share worth less, and takes nobody's shares. -/
theorem Sound.worthLe_deposit (h : p.Sound) {amount minted : Amount}
    (hf : p.funds + amount < Amount.limit) (ha : amount ≠ 0)
    (hp : p.previewDeposit amount now = .ok minted) (hm : minted ≠ 0)
    (hd : p.deposit account amount now = .ok (minted, p')) :
    p.WorthLe now p' now ∧ ∀ holder, p.sharesOf holder ≤ p'.sharesOf holder := by
  have hf' : p.funds < Amount.limit := by lia
  have hav := available_le_funds hf' now
  obtain ⟨htotal, hshares, hcollateral⟩ : p'.totalShares = p.totalShares + minted ∧
      p'.shares = p.shares.insert account (p.sharesOf account + minted) ∧
      (p.totalShares ≠ 0 → p'.collateral = p.available now + amount) := by
    rw [deposit_eq h account hf ha hp hm] at hd
    cases hd
    exact ⟨rfl, rfl, fun hne => by simp only [if_neg hne]⟩
  refine ⟨?_, fun holder => ?_⟩
  · by_cases h0 : p.totalShares = 0
    · rw [WorthLe, h.available_eq_zero hf' h0 now, Nat.zero_mul]
      exact Nat.zero_le _
    · have hle : p.available now + amount ≤ p'.available now := by
        rw [← hcollateral h0]
        exact collateral_le_available (by rw [hcollateral h0]; lia) now
      rw [WorthLe, htotal]
      calc p.available now * (p.totalShares + minted)
          = p.available now * p.totalShares + minted * p.available now := by
            rw [Nat.mul_add, Nat.mul_comm _ minted]
        _ ≤ p.available now * p.totalShares + amount * p.totalShares :=
            Nat.add_le_add_left (minted_mul_le h0 hp) _
        _ = (p.available now + amount) * p.totalShares := (Nat.add_mul ..).symm
        _ ≤ p'.available now * p.totalShares := Nat.mul_le_mul_right _ hle
  · rw [sharesOf_of_insert hshares]
    split
    · rename_i heq
      rw [heq]
      exact Nat.le_add_right _ _
    · exact Nat.le_refl _

theorem released_mul_le {shares released : Amount}
    (hp : p.previewWithdraw account shares now = .ok released) :
    released * p.totalShares ≤ shares * p.available now := by
  obtain ⟨-, rfl⟩ := previewWithdraw_eq_ok hp
  exact Nat.div_mul_le_self _ _

theorem sharesOf_burn_of_ne {shares released : Amount} {holder : StakeAccount} (hne : holder ≠ account) :
    (p.burn account shares released now).sharesOf holder = p.sharesOf holder := by
  rw [sharesOf, get?_burn, if_neg hne, sharesOf]

/-- A burn makes no share worth less, and takes no shares from other accounts. -/
theorem worthLe_withdrawShares (hf : p.funds < Amount.limit) {shares released : Amount}
    (hw : p.withdrawShares account shares now = .ok (released, p')) :
    p.WorthLe now p' now ∧ ∀ holder ≠ account, p'.sharesOf holder = p.sharesOf holder := by
  rcases withdrawShares_cases hw with ⟨rfl, -⟩ | ⟨hp, rfl⟩
  · exact ⟨.rfl, fun _ _ => rfl⟩
  · have hkept : ∀ holder ≠ account,
        (p.burn account shares released now).sharesOf holder = p.sharesOf holder :=
      fun _ hne => sharesOf_burn_of_ne hne
    by_cases h0 : (p.burn account shares released now).totalShares = 0
    · rw [if_pos h0]
      refine ⟨?_, hkept⟩
      show p.available now * (p.burn account shares released now).totalShares ≤ _
      rw [h0, Nat.mul_zero]
      exact Nat.zero_le _
    · rw [if_neg h0]
      refine ⟨?_, hkept⟩
      have hcollateral : (p.burn account shares released now).collateral = p.available now - released :=
        rfl
      have hav := available_le_funds hf now
      have hle : p.available now - released ≤ (p.burn account shares released now).available now := by
        rw [← hcollateral]
        exact collateral_le_available (by rw [hcollateral]; lia) now
      calc p.available now * (p.totalShares - shares)
          = p.available now * p.totalShares - shares * p.available now := by
            rw [Nat.mul_sub, Nat.mul_comm _ shares]
        _ ≤ p.available now * p.totalShares - released * p.totalShares :=
            Nat.sub_le_sub_left (released_mul_le hp) _
        _ = (p.available now - released) * p.totalShares := (Nat.sub_mul ..).symm
        _ ≤ (p.burn account shares released now).available now * p.totalShares :=
            Nat.mul_le_mul_right _ hle

/-- A distribution makes no share worth less, and leaves the shares as they are. -/
theorem worthLe_distribute (hf : p.funds < Amount.limit) {amount : Amount} {schedule : VestingSchedule}
    (hd : p.distribute amount now = .ok (schedule, p')) :
    p.WorthLe now p' now ∧ ∀ holder, p'.sharesOf holder = p.sharesOf holder := by
  obtain ⟨-, -, -, -, hp'⟩ := distribute_eq_ok hd
  have htotal : p'.totalShares = p.totalShares := by rw [hp']; rfl
  have hcollateral : p'.collateral = p.available now := by rw [hp']; rfl
  refine ⟨?_, fun holder => by rw [hp']; rfl⟩
  have hav := available_le_funds hf now
  rw [WorthLe, htotal, ← hcollateral]
  exact Nat.mul_le_mul_right _ (collateral_le_available (by lia) now)

/-- The period of later distributions is worth nothing. -/
theorem worthLe_setPeriod {period : Nat} (hp : p.setPeriod period = .ok p') :
    p.WorthLe now p' now ∧ ∀ holder, p'.sharesOf holder = p.sharesOf holder := by
  simp only [setPeriod] at hp
  split at hp
  · cases hp
  · cases hp
    exact ⟨.rfl, fun _ => rfl⟩

end SharePool

end PriceOracle
