import PriceOracle.Proofs.Staking.ExchangeRate
/-! The count of shares. The pool counts as many shares as its holders have, also where sums saturate: every
operation that is accepted changes both by the same number. With it goes what a burn leaves at its own block:
the account's other shares, and what was available less what is released. -/
namespace PriceOracle.SharePool

variable {p p' : SharePool} {account : StakeAccount} {now : Nat}

/-! ### Operations -/

theorem Tallied.new {period : Nat} (hp : SharePool.new period = .ok p) : p.Tallied :=
  (Sound.new hp).1.tallied

theorem Tallied.deposit (h : p.Tallied) {amount minted : Amount}
    (hd : p.deposit account amount now = .ok (minted, p')) : p'.Tallied := by
  simp only [SharePool.deposit] at hd
  split at hd
  · cases hd
    exact h
  split at hd
  · cases hd
  rename_i shares _
  split at hd
  · cases hd
    exact h
  split at hd
  · rename_i collateral totalShares _ htotal
    obtain ⟨rfl, -⟩ := Amount.add?_eq_some.1 htotal
    have hsum := h.total_insert account shares
    cases hd
    refine ⟨hsum, ?_⟩
    dsimp only
    split <;> exact h.amount_lt
  · cases hd

theorem Tallied.withdrawShares (h : p.Tallied) {shares released : Amount}
    (hw : p.withdrawShares account shares now = .ok (released, p')) : p'.Tallied := by
  rcases withdrawShares_cases hw with ⟨rfl, -⟩ | ⟨hp, rfl⟩
  · exact h
  · have hsum := h.total_burn (previewWithdraw_eq_ok hp).1 released now
    split <;> exact ⟨hsum, h.amount_lt⟩

theorem Tallied.distribute (h : p.Tallied) {amount : Amount} {schedule : VestingSchedule}
    (hd : p.distribute amount now = .ok (schedule, p')) : p'.Tallied := by
  obtain ⟨-, -, hlt, rfl, rfl⟩ := distribute_eq_ok hd
  exact ⟨h.total_shares, hlt⟩

theorem Tallied.setPeriod (h : p.Tallied) {period : Nat} (hp : p.setPeriod period = .ok p') :
    p'.Tallied := by
  simp only [SharePool.setPeriod] at hp
  split at hp
  · cases hp
  · cases hp
    exact ⟨h.total_shares, h.amount_lt⟩

/-! ### Burns -/

/-- What was settled at a block is not released at that block again. -/
theorem Tallied.unreleased_settle (h : p.Tallied) (now : Nat) :
    (p.settle now).schedule.unreleased now = 0 := by
  have hle := p.schedule.vested_le now
  have hlt := h.amount_lt
  have hvested : (p.settle now).schedule.vested now = p.schedule.vested now := rfl
  rw [VestingSchedule.unreleased, hvested]
  simp only [SharePool.settle, VestingSchedule.unreleased, Amount.satAdd, Amount.max]
  lia

theorem Tallied.available_burn (h : p.Tallied) (shares released : Amount) :
    (p.burn account shares released now).available now = p.available now - released := by
  have hlt := p.available_lt now
  have hnone : (p.burn account shares released now).schedule.unreleased now = 0 :=
    h.unreleased_settle now
  rw [available, hnone]
  show Amount.satAdd (p.available now - released) 0 = _
  rw [Amount.satAdd_of_lt (by lia), Nat.add_zero]

theorem sharesOf_burn (shares released : Amount) :
    (p.burn account shares released now).sharesOf account = p.sharesOf account - shares := by
  rw [sharesOf, get?_burn, if_pos rfl]
  split
  · rename_i hall
    rw [hall, Nat.sub_self, Option.getD_none]
  · rw [Option.getD_some]

end PriceOracle.SharePool
