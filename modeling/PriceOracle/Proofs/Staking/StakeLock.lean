import PriceOracle.Proofs.Staking.Calls
import PriceOracle.Proofs.Staking.Tally
/-! Withdrawals under a stake lock. The lock is compared with the old balance less what is released, but
the balance that stays is rounded anew. It is one unit short whenever the burn cuts off a larger part of a
unit than the holder had to spare: so a withdrawal undercuts a lock by one unit at most, and only then.
All this needs is that the shares are counted right, which they are in every run, whoever calls. -/
namespace PriceOracle

/-! ### Rounding -/

section

/-! Of `s + k + m` shares in `a + b`, a holder has `s + k`, worth `a + d` and the remainder `r`. It burns
`s` of them for `a` and the remainder `r'`. -/

variable {s k m a b d r r' : Nat}

theorem rest_mul_eq (hheld : (s + k + m) * (a + d) + r = (s + k) * (a + b))
    (hburned : (s + k + m) * a + r' = s * (a + b)) :
    (s + k + m) * (k * b) + m * r' = (s + k + m) * (d * (k + m)) + (k + m) * r := by
  have h : ((s + k + m) * (a + d) + r) * (k + m) = (s + k) * (a + b) * (k + m) := by rw [hheld]
  have h' : ((s + k + m) * a + r') * m = s * (a + b) * m := by rw [hburned]
  linarith

/-- The `k` shares that the holder keeps are worth `d`, or one less if the burn cuts off more. -/
theorem rest_div_eq (hheld : (s + k + m) * (a + d) + r = (s + k) * (a + b))
    (hburned : (s + k + m) * a + r' = s * (a + b)) (hr : r < s + k + m) (hr' : r' < s + k + m)
    (hpos : 0 < k + m) :
    k * b / (k + m) + (if m * r' ≤ (k + m) * r then 0 else 1) = d := by
  have hrest := rest_mul_eq hheld hburned
  have hall : 0 < s + k + m := by omega
  split
  · rename_i heven
    have hlow : d * (k + m) ≤ k * b := Nat.le_of_mul_le_mul_left (by omega) hall
    have hhigh : k * b < (d + 1) * (k + m) := by
      refine Nat.lt_of_mul_lt_mul_left (a := s + k + m) ?_
      nlinarith
    rw [Nat.div_eq_of_lt_le hlow hhigh, Nat.add_zero]
  · rename_i huneven
    have hhigh : k * b < d * (k + m) := by
      refine Nat.lt_of_mul_lt_mul_left (a := s + k + m) ?_
      omega
    have hcut : m * r' < (s + k + m) * (k + m) := by
      nlinarith
    have hlow : d * (k + m) < k * b + (k + m) := by
      refine Nat.lt_of_mul_lt_mul_left (a := s + k + m) ?_
      nlinarith
    obtain ⟨c, rfl⟩ : ∃ c, d = c + 1 := by
      refine Nat.exists_eq_add_one.2 (Nat.pos_of_ne_zero ?_)
      rintro rfl
      omega
    rw [Nat.add_mul] at hlow
    rw [Nat.div_eq_of_lt_le (k := c) (by omega) hhigh]

end

/-- Burning `s` of `h` shares out of `total` takes off their worth what is released, and one unit more
where the burn cuts off more. -/
theorem floor_rest {total h s amount : Nat} (hs : s ≤ h) (hh : h ≤ total) :
    (h - s) * (amount - s * amount / total) / (total - s) +
        (if (total - h) * (s * amount % total) ≤ (total - s) * (h * amount % total) then 0 else 1) +
        s * amount / total
      = h * amount / total := by
  rcases Nat.eq_or_lt_of_le (hs.trans hh) with rfl | hlt
  · obtain rfl : h = s := Nat.le_antisymm hh hs
    simp
  have hpos : 0 < total := by omega
  have hheld := Nat.div_add_mod (h * amount) total
  have hburned := Nat.div_add_mod (s * amount) total
  have hr := Nat.mod_lt (h * amount) hpos
  have hr' := Nat.mod_lt (s * amount) hpos
  have hle : s * amount / total ≤ amount :=
    Nat.div_le_of_le_mul (Nat.mul_le_mul_right _ (hs.trans hh))
  have hmono : s * amount / total ≤ h * amount / total :=
    Nat.div_le_div_right (Nat.mul_le_mul_right _ hs)
  obtain ⟨d, hd⟩ := Nat.exists_eq_add_of_le hmono
  obtain ⟨b, hb⟩ := Nat.exists_eq_add_of_le hle
  obtain ⟨k, rfl⟩ := Nat.exists_eq_add_of_le hs
  obtain ⟨m, rfl⟩ := Nat.exists_eq_add_of_le hh
  have hkept : amount - s * amount / (s + k + m) = b := by omega
  have hothers : s + k + m - s = k + m := by omega
  have hdiv := rest_div_eq (a := s * amount / (s + k + m)) (b := b) (d := d)
    (by rw [← hd, ← hb, hheld]) (by rw [← hb, hburned]) hr hr' (by omega)
  rw [Nat.add_sub_cancel_left, Nat.add_sub_cancel_left, hkept, hothers]
  omega

/-! ### Balances after a burn -/

namespace SharePool

variable {p p' : SharePool} {account : StakeAccount} {now : Nat}

/-- Burning shares of an account cuts off no more than the account had over, for its weight in the
pool. -/
def RoundsEvenly (p : SharePool) (account : StakeAccount) (shares : Amount) (now : Nat) : Prop :=
  (p.totalShares - p.sharesOf account) * (shares * p.available now % p.totalShares)
    ≤ (p.totalShares - shares) * (p.sharesOf account * p.available now % p.totalShares)

instance (p : SharePool) (account : StakeAccount) (shares : Amount) (now : Nat) :
    Decidable (p.RoundsEvenly account shares now) := by
  unfold RoundsEvenly
  infer_instance

/-- A burn takes what it releases off the balance, and one unit more where it rounds unevenly. -/
theorem Tallied.balanceOf_withdrawShares (h : p.Tallied) {shares released : Amount}
    (hne : released ≠ 0) (hw : p.withdrawShares account shares now = .ok (released, p')) :
    p'.balanceOf account now + (if p.RoundsEvenly account shares now then 0 else 1) + released
      = p.balanceOf account now := by
  have h' := h.withdrawShares hw
  rw [h.balanceOf_eq, h'.balanceOf_eq]
  rcases withdrawShares_cases hw with ⟨-, hzero⟩ | ⟨hp, rfl⟩
  · exact absurd hzero hne
  obtain ⟨hs, hreleased⟩ := previewWithdraw_eq_ok hp
  have hfloor : (p.sharesOf account - shares) * (p.available now - released)
        / (p.totalShares - shares)
      + (if p.RoundsEvenly account shares now then 0 else 1) + released
      = p.sharesOf account * p.available now / p.totalShares := by
    rw [hreleased]
    exact floor_rest hs (h.sharesOf_le account)
  have hburned : (p.burn account shares released now).sharesOf account = p.sharesOf account - shares :=
    sharesOf_burn shares released
  have htotal : (p.burn account shares released now).totalShares = p.totalShares - shares := rfl
  split
  · -- the last shares: what is parked is worth nothing to anybody
    rename_i hlast
    rw [htotal] at hlast
    have hparked : (p.burn account shares released now).parkResidual.totalShares = 0 := hlast
    rw [hlast, Nat.div_zero] at hfloor
    rw [hparked, Nat.div_zero]
    exact hfloor
  · rw [hburned, h.available_burn, htotal]
    exact hfloor

end SharePool

/-! ### Runs -/

namespace Staking

variable {s : Staking} {caller owner : Address} {ctx : BlockContext}

theorem tallied_new {account : Address} {params : StakingParams} {ledger : Ledger} {vault : DelayVault}
    (hs : Staking.new account params ledger vault = .ok s) : s.pool.Tallied := by
  obtain ⟨pool, hp, rfl⟩ := new_eq_ok hs
  exact .new hp

theorem tallied_bookDeposit (h : s.pool.Tallied) (caller : Address) (account : StakeAccount)
    (amount : Amount) (ctx : BlockContext) :
    (s.bookDeposit caller account amount ctx).state.pool.Tallied := by
  simp only [bookDeposit]
  split
  · exact h
  split
  · exact h
  split
  · exact h
  split
  · exact h
  · rename_i hd
    exact h.deposit hd

theorem tallied_release (h : s.pool.Tallied) (account : StakeAccount) (shares : Amount)
    (ctx : BlockContext) : (s.release account shares ctx).state.pool.Tallied := by
  rcases release_cases s account shares ctx with
    ⟨e, hx⟩ | hx | ⟨amount, id, vault, ledger, pool, hr, hx⟩
  · rw [hx]
    exact h
  · rw [hx]
    exact h
  · rw [hx]
    exact h.withdrawShares hr.burned

theorem tallied_perform (h : s.pool.Tallied) (caller : Address) (ctx : BlockContext)
    (call : StakingCall) : (s.perform caller ctx call).state.pool.Tallied := by
  cases call with
  | deposit amount beneficiary =>
    simp only [perform, deposit]
    split
    · exact h
    · exact tallied_bookDeposit h _ _ _ _
  | stakeAt amount subaccount =>
    simp only [perform, stakeAt]
    split
    · exact h
    · exact tallied_bookDeposit h _ _ _ _
  | withdraw amount => exact tallied_release h _ _ _
  | withdrawFrom amount subaccount =>
    simp only [perform, withdrawFrom]
    split
    · exact h
    · exact tallied_release h _ _ _
  | withdrawShares shares => exact tallied_release h _ _ _
  | distribute amount =>
    simp only [perform]
    rcases distribute_cases s caller amount ctx with
      ⟨⟨e, hx⟩, -⟩ | ⟨ledger, -, ⟨e, -, hx⟩ | ⟨schedule, pool, hd, hx⟩⟩
    · rw [hx]
      exact h
    · rw [hx]
      exact h
    · rw [hx]
      exact h.distribute hd
  | lockStake owner expiry =>
    simp only [perform, lockStake]
    split <;> exact h
  | withdrawDelayed id =>
    simp only [perform]
    rcases withdrawDelayed_cases s caller id ctx with ⟨e, hx⟩ | ⟨payment, vault, ledger, -, hx⟩
    · rw [hx]
      exact h
    · rw [hx]
      exact h

theorem tallied_after (h : s.pool.Tallied) (step : StakingStep) : (s.after step).pool.Tallied := by
  cases step with
  | call caller call ctx => exact tallied_perform h caller ctx call
  | set setting =>
    simp only [after]
    cases ha : s.adjust setting with
    | error e => exact h
    | ok s' =>
      obtain ⟨-, -, -, hpool | ⟨blocks, hp⟩⟩ := adjust_cases ha
      · show s'.pool.Tallied
        rwa [hpool]
      · exact h.setPeriod hp
  | outside step => exact h

theorem tallied_run {steps : List StakingStep} :
    ∀ {s : Staking}, s.pool.Tallied → (s.run steps).pool.Tallied := by
  induction steps with
  | nil =>
    intro s h
    exact h
  | cons step steps ih =>
    intro s h
    exact ih (tallied_after h step)

/-! ### Withdrawals from an own account -/

/-- What an owner's withdrawals from its own account come to. -/
inductive OwnWithdrawal (s : Staking) (owner : Address) (ctx : BlockContext) :
    Attempt Staking StakingError WithdrawReceipt → Prop
  | withdraw (amount : Amount) : OwnWithdrawal s owner ctx (s.withdraw owner amount ctx)
  | withdrawShares (shares : Amount) : OwnWithdrawal s owner ctx (s.withdrawShares owner shares ctx)
  | withdrawFrom (amount : Amount) :
      OwnWithdrawal s owner ctx (s.withdrawFrom owner amount owner ctx)

/-- What releases anything burned the shares on the receipt. -/
theorem released_of_release {account : StakeAccount} {shares : Amount} {receipt : WithdrawReceipt}
    (hr : (s.release account shares ctx).result = .ok receipt) (hne : receipt.amount ≠ 0) :
    ∃ id vault ledger pool,
      s.Released account receipt.shares receipt.amount ctx id vault ledger pool ∧
        (s.release account shares ctx).state = { s with vault, ledger, pool } := by
  rcases release_cases s account shares ctx with
    ⟨e, hx⟩ | hx | ⟨amount, id, vault, ledger, pool, hreleased, hx⟩
  · rw [hx] at hr
    cases hr
  · rw [hx] at hr
    cases hr
    exact absurd rfl hne
  · rw [hx] at hr ⊢
    cases hr
    exact ⟨id, vault, ledger, pool, hreleased, rfl⟩

theorem OwnWithdrawal.released {x : Attempt Staking StakingError WithdrawReceipt}
    (hx : s.OwnWithdrawal owner ctx x) {receipt : WithdrawReceipt} (hr : x.result = .ok receipt)
    (hne : receipt.amount ≠ 0) :
    ∃ id vault ledger pool,
      s.Released (.own owner) receipt.shares receipt.amount ctx id vault ledger pool ∧
        x.state = { s with vault, ledger, pool } := by
  cases hx with
  | withdraw amount => exact released_of_release hr hne
  | withdrawShares shares => exact released_of_release hr hne
  | withdrawFrom amount =>
    simp only [Staking.withdrawFrom] at hr ⊢
    split at hr
    · cases hr
    · exact released_of_release hr hne

/-- The lock lets an own account go down to what is locked. -/
theorem checkLock_eq_ok {account : StakeAccount} (hown : account.owner = account.subaccount)
    {amount : Amount} (h : s.checkLock account amount ctx = .ok ()) :
    s.lockedBalance account.owner ctx ≤ s.balance account.owner ctx - amount := by
  simp only [checkLock, if_pos hown] at h
  split at h
  · cases h
  · lia

/-! ### The floor -/

/-- In every state of every run, whatever ledger and vault it starts with: a withdrawal from an owner's
own account that releases anything leaves the balance at most one unit below what is locked, and at or
above it exactly if there was a unit to spare or the burn rounds evenly. -/
theorem locked_le_balance_iff {account : Address} {params : StakingParams} {ledger : Ledger}
    {vault : DelayVault} (hs : Staking.new account params ledger vault = .ok s)
    (steps : List StakingStep) {x : Attempt Staking StakingError WithdrawReceipt}
    (hx : (s.run steps).OwnWithdrawal owner ctx x) {receipt : WithdrawReceipt}
    (hr : x.result = .ok receipt) (hne : receipt.amount ≠ 0) :
    x.state.lockedBalance owner ctx ≤ x.state.balance owner ctx + 1 ∧
      (x.state.lockedBalance owner ctx ≤ x.state.balance owner ctx ↔
        (s.run steps).lockedBalance owner ctx + receipt.amount < (s.run steps).balance owner ctx ∨
          (s.run steps).pool.RoundsEvenly (.own owner) receipt.shares ctx.number) := by
  have h : (s.run steps).pool.Tallied := tallied_run (tallied_new hs)
  obtain ⟨id, vault', ledger', pool, hreleased, hstate⟩ := hx.released hr hne
  have hlock : (s.run steps).lockedBalance owner ctx
      ≤ (s.run steps).balance owner ctx - receipt.amount := checkLock_eq_ok rfl hreleased.unlocked
  have hrest := h.balanceOf_withdrawShares hne hreleased.burned
  have hlocked : x.state.lockedBalance owner ctx = (s.run steps).lockedBalance owner ctx := by
    rw [hstate]
    rfl
  have hbalance : x.state.balance owner ctx = pool.balanceOf (.own owner) ctx.number := by
    rw [hstate]
    rfl
  have hbefore : (s.run steps).balance owner ctx
      = (s.run steps).pool.balanceOf (.own owner) ctx.number := rfl
  rw [hlocked, hbalance]
  by_cases heven : (s.run steps).pool.RoundsEvenly (.own owner) receipt.shares ctx.number
  · rw [if_pos heven] at hrest
    simp only [heven, or_true, iff_true]
    lia
  · rw [if_neg heven] at hrest
    simp only [heven, or_false]
    lia

/-- A hundred are locked and a reward of ten comes in: three of it can leave. -/
theorem locked_le_balance_iff_of_reward :
    let pool := Address.ofNat 1
    let holder := Address.ofNat 3
    let locker := Address.ofNat 9
    let s : Staking :=
      ⟨pool, ⟨.empty, 0, 0, .none, 0, 10⟩, .empty, .new pool, 60, .empty, .ofList [locker], .empty⟩
    let steps : List StakingStep := [
      .outside (.mint holder 110),
      .outside (.approve holder pool 110),
      .call holder (.deposit 100 holder) ⟨1, 15⟩,
      .call locker (.lockStake holder 1000) ⟨1, 15⟩,
      .call holder (.distribute 10) ⟨2, 30⟩]
    let ctx : BlockContext := ⟨12, 180⟩
    let x := (s.run steps).withdrawShares holder 3 ctx
    Staking.new pool { withdrawLockTimeSecs := 60, lockers := [locker] } .empty (.new pool) = .ok s ∧
      x.result = .ok ⟨.own holder, 3, 3, some 1⟩ ∧ x.state.lockedBalance holder ctx = 100 ∧
      x.state.lockedBalance holder ctx ≤ x.state.balance holder ctx := by
  intro pool holder locker s steps ctx x
  have hs : Staking.new pool { withdrawLockTimeSecs := 60, lockers := [locker] } .empty (.new pool)
      = .ok s := rfl
  have hr : x.result = .ok ⟨.own holder, 3, 3, some 1⟩ := by decide +kernel
  have hspare : (s.run steps).lockedBalance holder ctx + 3 < (s.run steps).balance holder ctx := by
    decide +kernel
  obtain ⟨-, hfloor⟩ := locked_le_balance_iff hs steps (.withdrawShares 3) hr (by decide)
  exact ⟨hs, hr, by decide +kernel, hfloor.2 (.inl hspare)⟩

/-- A holder has two of four shares, locked when they were worth two. A reward makes six of the four, so
that one share releases one and a half, rounded down to one, and leaves the holder with one share in
three of five: worth one, where two are locked. -/
theorem lock_undercut :
    let pool := Address.ofNat 1
    let holder := Address.ofNat 3
    let other := Address.ofNat 4
    let locker := Address.ofNat 9
    let s : Staking :=
      ⟨pool, ⟨.empty, 0, 0, .none, 0, 10⟩, .empty, .new (Address.ofNat 2), 3600, .empty,
        .ofList [locker], .empty⟩
    let steps : List StakingStep := [
      .outside (.mint holder 2),
      .outside (.approve holder pool 2),
      .outside (.mint other 4),
      .outside (.approve other pool 4),
      .call holder (.deposit 2 holder) ⟨1, 15⟩,
      .call other (.deposit 2 other) ⟨1, 15⟩,
      .call locker (.lockStake holder 1000) ⟨1, 15⟩,
      .call other (.distribute 2) ⟨2, 30⟩]
    let ctx : BlockContext := ⟨12, 180⟩
    let x := (s.run steps).withdrawShares holder 1 ctx
    Staking.new pool { lockers := [locker] } .empty (.new (Address.ofNat 2)) = .ok s ∧
      (s.run steps).balance holder ctx = 3 ∧ x.result = .ok ⟨.own holder, 1, 1, some 1⟩ ∧
      x.state.lockedBalance holder ctx = 2 ∧ x.state.balance holder ctx = 1 ∧
      ¬ x.state.lockedBalance holder ctx ≤ x.state.balance holder ctx := by
  intro pool holder other locker s steps ctx x
  have hlocked : x.state.lockedBalance holder ctx = 2 := by decide +kernel
  have hbalance : x.state.balance holder ctx = 1 := by decide +kernel
  refine ⟨rfl, by decide +kernel, by decide +kernel, hlocked, hbalance, ?_⟩
  rw [hlocked, hbalance]
  decide

end Staking

end PriceOracle
