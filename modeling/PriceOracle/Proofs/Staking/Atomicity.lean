import PriceOracle.Proofs.Staking.Custody
/-! Calls go through as a whole or not at all. The ledger, the pool and the vault change one after the
other and nothing is ever taken back, so the later changes must not fail once the first is made. Deposits
and withdrawals never fail half way in a state that is reached from an empty ledger and vault. A
distribution fails half way exactly if its schedule would end beyond the last block. -/
namespace PriceOracle.Staking

variable {s s' : Staking} {caller : Address}

/-- A refused call leaves the state as it is, and one that answers has an effect. -/
structure AllOrNothing {α : Type} (s : Staking) (x : Attempt Staking StakingError α)
    (effect : α → Staking → Prop) : Prop where
  refused : ∀ e, x.result = .error e → x.state = s
  answered : ∀ a, x.result = .ok a → effect a x.state

/-- Exactly an amount came into the pool from a caller. -/
structure PaidIn (s s' : Staking) (caller : Address) (amount : Amount) : Prop where
  moved : s.ledger.Moved s'.ledger caller s.account amount
  held : s'.pool.held = s.pool.held + amount
  vault : s'.vault = s.vault

/-- Exactly an amount went from the pool into the vault. -/
structure PaidOut (s s' : Staking) (amount : Amount) : Prop where
  moved : s.ledger.Moved s'.ledger s.account s.vault.account amount
  allowances : s'.ledger.allowances = s.ledger.allowances
  held : s'.pool.held + amount = s.pool.held
  owed : s'.vault.owed = s.vault.owed + amount

/-- Exactly an amount went from the vault to a caller. -/
structure Collected (s s' : Staking) (caller : Address) (amount : Amount) : Prop where
  moved : s.ledger.Moved s'.ledger s.vault.account caller amount
  allowances : s'.ledger.allowances = s.ledger.allowances
  pool : s'.pool = s.pool
  owed : s'.vault.owed + amount = s.vault.owed

/-! ### Effects -/

section

variable {α : Type} {effect : α → Staking → Prop}

theorem AllOrNothing.fail (s : Staking) (e : StakingError) : s.AllOrNothing (.fail s e) effect :=
  ⟨fun _ _ => rfl, nofun⟩

theorem AllOrNothing.ok {a : α} (h : effect a s') : s.AllOrNothing (.ok s' a) effect := by
  constructor
  · intro e he
    cases he
  · intro b hb
    cases hb
    exact h

end

theorem PaidIn.zero (s : Staking) (caller : Address) : s.PaidIn s caller 0 :=
  ⟨Ledger.Moved.zero _ _ _, rfl, rfl⟩

theorem PaidOut.zero (s : Staking) : s.PaidOut s 0 :=
  ⟨Ledger.Moved.zero _ _ _, rfl, rfl, rfl⟩

/-- On solvent states the books move by what flows. -/
theorem Flow.held (h : s.Solvent) {paid parked collected : Nat}
    (hf : Flow s s' caller paid parked collected 0) (hcaller : caller ≠ s.account ∨ paid = 0) :
    s'.pool.held + parked = s.pool.held + paid := by
  rw [SharePool.held_eq_funds h.funds_lt, SharePool.held_eq_funds (h.follow hf hcaller).funds_lt]
  exact hf.funds

theorem Solvent.paidIn (h : s.Solvent) (hcaller : caller ≠ s.account) {amount : Amount}
    {ledger : Ledger} {pool : SharePool}
    (ht : s.ledger.transferFrom s.account caller s.account amount = .ok ledger)
    (hf : Flow s { s with ledger, pool } caller amount 0 0 0) :
    s.PaidIn { s with ledger, pool } caller amount :=
  ⟨fun a => Ledger.balanceOf_transferFrom ht a, hf.held h (.inl hcaller), rfl⟩

theorem Solvent.paidOut (h : s.Solvent) (hn : s.vault.Numbered) {account : StakeAccount}
    {shares amount : Amount} {ctx : BlockContext} {id : Nat} {vault : DelayVault} {ledger : Ledger}
    {pool : SharePool} (hr : s.Released account shares amount ctx id vault ledger pool) :
    s.PaidOut { s with vault, ledger, pool } amount := by
  have hf := h.flow_released s.account hr
  obtain ⟨unlockTime, -, hdeposit⟩ := hr.parked
  obtain ⟨-, -, ht, -⟩ := DelayVault.deposit_eq_ok.1 hdeposit
  exact ⟨fun a => Ledger.balanceOf_transfer ht a, Ledger.allowance_transfer ht, hf.held h (.inr rfl),
    hf.owed hn⟩

theorem collected_of_withdraw (hn : s.vault.Numbered) {id now : Nat} {payment : DelayedPayment}
    {vault : DelayVault} {ledger : Ledger}
    (hw : s.vault.withdraw s.ledger caller id now = .ok (payment, vault, ledger)) :
    s.Collected { s with vault, ledger } caller payment.amount := by
  obtain ⟨-, -, -, ht, -⟩ := DelayVault.withdraw_eq_ok.1 hw
  exact ⟨fun a => Ledger.balanceOf_transfer ht a, Ledger.allowance_transfer ht, rfl,
    (DelayVault.owed_withdraw hn hw).2⟩

/-! ### Deposits and withdrawals -/

/-- Once the caller's deposit was pulled, the pool books it and the deposit answers. -/
def PulledIsBooked (s : Staking) (caller : Address) (ctx : BlockContext) : Prop :=
  ∀ account amount minted ledger, s.pool.previewDeposit amount ctx.number = .ok minted → minted ≠ 0 →
    s.ledger.transferFrom s.account caller s.account amount = .ok ledger →
    ∃ pool, s.pool.deposit account amount ctx.number = .ok (minted, pool) ∧
      s.bookDeposit caller account amount ctx = .ok { s with ledger, pool } ⟨account, amount, minted⟩

/-- Once what shares release was parked in the vault, the pool burns them for just that and the
withdrawal answers. -/
def ParkedIsBurned (s : Staking) (ctx : BlockContext) : Prop :=
  ∀ account shares amount unlockTime id vault ledger,
    s.pool.previewWithdraw account shares ctx.number = .ok amount → amount ≠ 0 →
    s.checkLock account amount ctx = .ok () →
    Word.add? ctx.timestamp s.withdrawLockTime = some unlockTime →
    s.vault.deposit s.ledger s.account account.owner amount unlockTime = .ok (id, vault, ledger) →
    ∃ pool, s.pool.withdrawShares account shares ctx.number = .ok (amount, pool) ∧
      s.release account shares ctx
        = .ok { s with vault, ledger, pool } ⟨account, amount, shares, some id⟩

/-- A deposit moves what its receipt says, and nothing if it mints no shares. -/
def DepositAtomic (s : Staking) (caller : Address) (x : Attempt Staking StakingError DepositReceipt) :
    Prop :=
  s.AllOrNothing x fun receipt s' =>
    s.PaidIn s' caller receipt.amount ∧ (receipt.shares = 0 → receipt.amount = 0 ∧ s' = s)

/-- A withdrawal moves what its receipt says, and nothing if it burns no shares. -/
def WithdrawalAtomic (s : Staking) (x : Attempt Staking StakingError WithdrawReceipt) : Prop :=
  s.AllOrNothing x fun receipt s' =>
    s.PaidOut s' receipt.amount ∧ (receipt.shares = 0 → receipt.amount = 0 ∧ s' = s)

/-- A collection moves the payment it answers with. -/
def CollectionAtomic (s : Staking) (caller : Address) (x : Attempt Staking StakingError DelayedPayment) :
    Prop :=
  s.AllOrNothing x fun payment s' => s.Collected s' caller payment.amount

theorem Solvent.pulledIsBooked (h : s.Solvent) (hcaller : caller ≠ s.account) (ctx : BlockContext) :
    s.PulledIsBooked caller ctx := by
  intro account amount minted ledger hpreview hminted ht
  obtain ⟨pool, hb⟩ := h.booked hcaller account hpreview hminted ht
  exact ⟨pool, hb.booked, hb.bookDeposit_eq⟩

theorem parkedIsBurned (s : Staking) (ctx : BlockContext) : s.ParkedIsBurned ctx := by
  intro account shares amount unlockTime id vault ledger hpreview hne hlock htime hdeposit
  obtain ⟨pool, hburned⟩ := SharePool.withdrawShares_eq hpreview
  have hr : s.Released account shares amount ctx id vault ledger pool :=
    ⟨hpreview, hne, hlock, ⟨unlockTime, htime, hdeposit⟩, hburned⟩
  exact ⟨pool, hburned, hr.release_eq⟩

theorem Solvent.depositAtomic (h : s.Solvent) (hcaller : caller ≠ s.account) (account : StakeAccount)
    (amount : Amount) (ctx : BlockContext) :
    s.DepositAtomic caller (s.bookDeposit caller account amount ctx) := by
  rcases bookDeposit_cases h hcaller account amount ctx with
    ⟨e, hx⟩ | hx | ⟨minted, ledger, pool, hb, hx⟩
  · rw [hx]
    exact .fail s e
  · rw [hx]
    exact .ok ⟨.zero s caller, fun _ => ⟨rfl, rfl⟩⟩
  · rw [hx]
    exact .ok ⟨h.paidIn hcaller hb.pulled (h.flow_booked hcaller hb), fun h0 => absurd h0 hb.minted_ne⟩

theorem Solvent.withdrawalAtomic (h : s.Solvent) (hn : s.vault.Numbered) (account : StakeAccount)
    (shares : Amount) (ctx : BlockContext) : s.WithdrawalAtomic (s.release account shares ctx) := by
  rcases release_cases s account shares ctx with
    ⟨e, hx⟩ | hx | ⟨amount, id, vault, ledger, pool, hr, hx⟩
  · rw [hx]
    exact .fail s e
  · rw [hx]
    exact .ok ⟨.zero s, fun _ => ⟨rfl, rfl⟩⟩
  · rw [hx]
    refine .ok ⟨h.paidOut hn hr, fun h0 => ?_⟩
    -- a preview of zero shares releases nothing, so this was no release
    have hpreview := hr.preview
    simp only [show shares = 0 from h0, SharePool.previewWithdraw, Nat.not_lt_zero, ↓reduceIte,
      Except.ok.injEq] at hpreview
    exact absurd hpreview.symm hr.amount_ne

theorem collectionAtomic (hn : s.vault.Numbered) (caller : Address) (id : Nat) (ctx : BlockContext) :
    s.CollectionAtomic caller (s.withdrawDelayed caller id ctx) := by
  rcases withdrawDelayed_cases s caller id ctx with ⟨e, hx⟩ | ⟨payment, vault, ledger, hw, hx⟩
  · rw [hx]
    exact .fail s e
  · rw [hx]
    exact .ok (collected_of_withdraw hn hw)

/-- In every state reached from an empty ledger and vault: a deposit that was pulled is booked, and
shares whose collateral was parked are burned for just that. So a call that deposits, withdraws or
collects and is refused changes nothing, and one that answers moves exactly the amount it tells between
the caller, the pool and the vault. -/
theorem deposits_withdrawals_atomic {account vaultAccount : Address} {params : StakingParams}
    (hne : vaultAccount ≠ account)
    (hs : Staking.new account params .empty (.new vaultAccount) = .ok s) (steps : List StakingStep)
    (hsteps : ∀ step ∈ steps, step.Permitted account vaultAccount) (hcaller : caller ≠ account)
    (ctx : BlockContext) :
    (s.run steps).PulledIsBooked caller ctx ∧
    (s.run steps).ParkedIsBurned ctx ∧
    (∀ amount beneficiary,
      (s.run steps).DepositAtomic caller ((s.run steps).deposit caller amount beneficiary ctx)) ∧
    (∀ amount subaccount,
      (s.run steps).DepositAtomic caller ((s.run steps).stakeAt caller amount subaccount ctx)) ∧
    (∀ amount, (s.run steps).WithdrawalAtomic ((s.run steps).withdraw caller amount ctx)) ∧
    (∀ amount subaccount,
      (s.run steps).WithdrawalAtomic ((s.run steps).withdrawFrom caller amount subaccount ctx)) ∧
    (∀ shares, (s.run steps).WithdrawalAtomic ((s.run steps).withdrawShares caller shares ctx)) ∧
    ∀ id, (s.run steps).CollectionAtomic caller ((s.run steps).withdrawDelayed caller id ctx) := by
  obtain ⟨rfl, rfl, hcovered⟩ := covered_new hne hs
  obtain ⟨spare, vaultSpare, ⟨hacc, -, h⟩, -⟩ := follows_run hcovered hsteps
  have hsolvent := h.solvent
  rw [← hacc] at hcaller
  refine ⟨hsolvent.pulledIsBooked hcaller ctx, parkedIsBurned _ ctx,
    fun amount beneficiary => ?_, fun amount subaccount => ?_,
    fun amount => hsolvent.withdrawalAtomic h.numbered _ _ ctx, fun amount subaccount => ?_,
    fun shares => hsolvent.withdrawalAtomic h.numbered _ _ ctx,
    fun id => collectionAtomic h.numbered caller id ctx⟩
  · simp only [deposit]
    split
    · exact .fail _ _
    · exact hsolvent.depositAtomic hcaller _ _ ctx
  · simp only [stakeAt]
    split
    · exact .fail _ _
    · exact hsolvent.depositAtomic hcaller _ _ ctx
  · simp only [withdrawFrom]
    split
    · exact .fail _ _
    · exact hsolvent.withdrawalAtomic h.numbered _ _ ctx

/-- A holder has a hundred staked and forty of it in the vault: it collects these, stakes seven more and
takes the rest out, each time for just what the answer tells. -/
theorem deposits_withdrawals_atomic_of_staker :
    let pool := Address.ofNat 1
    let vault := Address.ofNat 2
    let holder := Address.ofNat 3
    let s : Staking := ⟨pool, ⟨.empty, 0, 0, .none, 0, 10⟩, .empty, .new vault, 60, .empty, .empty, .empty⟩
    let steps : List StakingStep := [
      .outside (.mint holder 107),
      .outside (.approve holder pool 107),
      .call holder (.deposit 100 holder) ⟨1, 15⟩,
      .call holder (.withdraw 40) ⟨2, 30⟩]
    let ctx : BlockContext := ⟨9, 135⟩
    vault ≠ pool ∧ Staking.new pool { withdrawLockTimeSecs := 60 } .empty (.new vault) = .ok s ∧
      (∀ step ∈ steps, step.Permitted pool vault) ∧ holder ≠ pool ∧
      (s.run steps).DepositAtomic holder ((s.run steps).deposit holder 7 holder ctx) ∧
      ((s.run steps).deposit holder 7 holder ctx).result = .ok ⟨.own holder, 7, 7⟩ ∧
      (s.run steps).WithdrawalAtomic ((s.run steps).withdrawShares holder 60 ctx) ∧
      ((s.run steps).withdrawShares holder 60 ctx).result = .ok ⟨.own holder, 60, 60, some 2⟩ ∧
      ((s.run steps).withdrawDelayed holder 1 ctx).result.isOk := by
  intro pool vault holder s steps ctx
  have hne : vault ≠ pool := by decide
  have hs : Staking.new pool { withdrawLockTimeSecs := 60 } .empty (.new vault) = .ok s := rfl
  have hsteps : ∀ step ∈ steps, step.Permitted pool vault := by decide
  have hcaller : holder ≠ pool := by decide
  obtain ⟨-, -, hdeposit, -, -, -, hwithdraw, -⟩ :=
    deposits_withdrawals_atomic hne hs steps hsteps hcaller ctx
  exact ⟨hne, hs, hsteps, hcaller, hdeposit 7 holder, by decide +kernel, hwithdraw 60,
    by decide +kernel, by decide +kernel⟩

/-! ### Distributions -/

/-- A distribution moves its amount from the caller into the pool, or nothing. -/
def DistributionAtomic (s : Staking) (caller : Address) (amount : Amount)
    (x : Attempt Staking StakingError VestingSchedule) : Prop :=
  s.AllOrNothing x fun _ s' => s.PaidIn s' caller amount

/-- A pull changes the ledger: the caller has less. -/
theorem Pulled.ledger_ne (hcaller : caller ≠ s.account) {amount : Amount} {now : Nat} {ledger : Ledger}
    (hp : s.Pulled caller amount now ledger) : ledger ≠ s.ledger := by
  rintro rfl
  have hpaid := Ledger.balanceOf_transferFrom hp.pulled caller
  have ha := hp.amount_ne
  simp only [↓reduceIte, hcaller] at hpaid
  lia

theorem Solvent.distributionAtomic_iff (h : s.Solvent) (hcaller : caller ≠ s.account) (amount : Amount)
    (ctx : BlockContext) :
    s.DistributionAtomic caller amount (s.distribute caller amount ctx) ↔
      ((∃ ledger, s.Pulled caller amount ctx.number ledger) →
        ctx.number + s.pool.period < Word.limit) := by
  rcases distribute_cases s caller amount ctx with
    ⟨⟨e, hx⟩, hnone⟩ | ⟨ledger, hp, hbooked⟩
  · rw [hx]
    exact iff_of_true (.fail s e) fun hsome => absurd hsome hnone
  · have hrefused := SharePool.distribute_eq_error hp.ready hp.amount_ne (h.room hcaller hp.pulled)
    rcases hbooked with ⟨e, hd, hx⟩ | ⟨schedule, pool, hd, hx⟩
    · -- refused after the pull: the ledger shows it
      rw [hx]
      refine iff_of_false (fun hatomic => ?_) fun hfits => ?_
      · exact hp.ledger_ne hcaller (congrArg Staking.ledger (hatomic.refused e rfl))
      · exact absurd (hfits ⟨ledger, hp⟩) (Nat.not_lt.2 (hrefused.1 ⟨e, hd⟩))
    · rw [hx]
      refine iff_of_true (.ok (h.paidIn hcaller hp.pulled (h.flow_rewarded hcaller hp hd))) fun _ => ?_
      refine Nat.lt_of_not_le fun hlate => ?_
      obtain ⟨e, he⟩ := hrefused.2 hlate
      rw [hd] at he
      cases he

/-- In every state reached from an empty ledger: a distribution moves its amount from the caller into the
pool or changes nothing, except when its reward is pulled for a schedule that would end beyond the last
block. -/
theorem distribution_atomic_iff {account : Address} {params : StakingParams} {vault : DelayVault}
    (hvault : vault.account ≠ account ∨ vault = .new vault.account)
    (hs : Staking.new account params .empty vault = .ok s) (steps : List StakingStep)
    (hsteps : ∀ step ∈ steps, step.Permitted account vault.account) (hcaller : caller ≠ account)
    (amount : Amount) (ctx : BlockContext) :
    (s.run steps).DistributionAtomic caller amount ((s.run steps).distribute caller amount ctx) ↔
      ((∃ ledger, (s.run steps).Pulled caller amount ctx.number ledger) →
        ctx.number + (s.run steps).pool.period < Word.limit) := by
  obtain ⟨rfl, rfl, hsolvent⟩ := solvent_new hvault hs
  obtain ⟨hacc, -, h⟩ := hsolvent.run hsteps
  exact h.distributionAtomic_iff (hacc ▸ hcaller) amount ctx

/-- The vesting period is ten blocks: a reward of ten comes into the pool whole. -/
theorem distribution_atomic_iff_of_reward :
    let pool := Address.ofNat 1
    let vault := Address.ofNat 2
    let holder := Address.ofNat 3
    let s : Staking := ⟨pool, ⟨.empty, 0, 0, .none, 0, 10⟩, .empty, .new vault, 60, .empty, .empty, .empty⟩
    let steps : List StakingStep := [
      .outside (.mint holder 110),
      .outside (.approve holder pool 110),
      .call holder (.deposit 100 holder) ⟨1, 15⟩]
    let ctx : BlockContext := ⟨2, 30⟩
    (DelayVault.new vault).account ≠ pool ∧
      Staking.new pool { withdrawLockTimeSecs := 60 } .empty (.new vault) = .ok s ∧
      (∀ step ∈ steps, step.Permitted pool vault) ∧ holder ≠ pool ∧
      (s.run steps).DistributionAtomic holder 10 ((s.run steps).distribute holder 10 ctx) ∧
      ((s.run steps).distribute holder 10 ctx).result = .ok ⟨10, 2, 12, 0⟩ := by
  intro pool vault holder s steps ctx
  have hne : (DelayVault.new vault).account ≠ pool := by decide
  have hs : Staking.new pool { withdrawLockTimeSecs := 60 } .empty (.new vault) = .ok s := rfl
  have hsteps : ∀ step ∈ steps, step.Permitted pool vault := by decide
  have hcaller : holder ≠ pool := by decide
  have hends : ctx.number + (s.run steps).pool.period < Word.limit := by decide +kernel
  have hatomic := distribution_atomic_iff (.inl hne) hs steps hsteps hcaller 10 ctx
  exact ⟨hne, hs, hsteps, hcaller, hatomic.2 fun _ => hends, by decide +kernel⟩

/-- The vesting period is as long as a word allows: a distribution is refused, and its reward of ten is
gone from the caller and on no book. -/
theorem distribution_stranded :
    let pool := Address.ofNat 1
    let vault := Address.ofNat 2
    let holder := Address.ofNat 3
    let s : Staking := ⟨pool, ⟨.empty, 0, 0, .none, 0, 10⟩, .empty, .new vault, 60, .empty, .empty, .empty⟩
    let steps : List StakingStep := [
      .outside (.mint holder 110),
      .outside (.approve holder pool 110),
      .call holder (.deposit 100 holder) ⟨1, 15⟩,
      .set (.vestingPeriod (Word.limit - 1))]
    let x := (s.run steps).distribute holder 10 ⟨2, 30⟩
    Staking.new pool { withdrawLockTimeSecs := 60 } .empty (.new vault) = .ok s ∧
      (∀ step ∈ steps, step.Permitted pool vault) ∧ holder ≠ pool ∧
      x.result = .error .overflow ∧ x.state.pool.held = (s.run steps).pool.held ∧
      (s.run steps).ledger.balanceOf holder = 10 ∧ x.state.ledger.balanceOf holder = 0 ∧
      ¬ (s.run steps).DistributionAtomic holder 10 x := by
  intro pool vault holder s steps x
  have hresult : x.result = .error .overflow := by decide +kernel
  have hbefore : (s.run steps).ledger.balanceOf holder = 10 := by decide +kernel
  have hafter : x.state.ledger.balanceOf holder = 0 := by decide +kernel
  refine ⟨rfl, by decide, by decide, hresult, by decide +kernel, hbefore, hafter, fun hatomic => ?_⟩
  rw [hatomic.refused _ hresult, hbefore] at hafter
  cases hafter

end PriceOracle.Staking
