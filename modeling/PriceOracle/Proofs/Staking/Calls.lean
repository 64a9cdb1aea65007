import PriceOracle.Proofs.Staking.DelayVault
import PriceOracle.Proofs.Staking.SharePool
import PriceOracle.Staking.Basic
/-! What a call on staking does. A call pulls or parks collateral first and changes the pool's books
after; on a solvent state the second half follows from the first, except that a new schedule may end
beyond the last block. So a call does one of a few things, listed once as its outcome, and what holds
of runs is proved from that list. -/
namespace PriceOracle

/-! ### Runs -/

inductive StakingCall where
  | deposit (amount : Amount) (beneficiary : Address)
  | stakeAt (amount : Amount) (subaccount : Address)
  | withdraw (amount : Amount)
  | withdrawFrom (amount : Amount) (subaccount : Address)
  | withdrawShares (shares : Amount)
  | distribute (amount : Amount)
  | lockStake (owner : Address) (expiry : Nat)
  | withdrawDelayed (id : Nat)
deriving DecidableEq, Inhabited

/-- The account that a caller's call takes stake from. -/
def StakingCall.source? (caller : Address) : StakingCall → Option StakeAccount
  | .withdraw _ | .withdrawShares _ => some (.own caller)
  | .withdrawFrom _ subaccount => some ⟨caller, subaccount⟩
  | .deposit .. | .stakeAt .. | .distribute _ | .lockStake .. | .withdrawDelayed _ => none

inductive StakingSetting where
  | withdrawLockTime (secs : Nat)
  | vestingPeriod (blocks : Nat)
  | addToWhitelist (account : Address)
  | removeFromWhitelist (account : Address)
  | addLocker (account : Address)
  | removeLocker (account : Address)
deriving DecidableEq, Inhabited

/-- What happens to staking and the ledger under it. -/
inductive StakingStep where
  | call (caller : Address) (call : StakingCall) (ctx : BlockContext)
  | set (setting : StakingSetting)
  /-- Account holders act on the ledger by themselves. -/
  | outside (step : LedgerStep)
deriving DecidableEq, Inhabited

/-- Callers are neither of two accounts, and nobody debits these or approves on their behalf. -/
def StakingStep.Permitted (account vault : Address) : StakingStep → Prop
  | .call caller .. => caller ≠ account ∧ caller ≠ vault
  | .set _ => True
  | .outside step => step.Spares account ∧ step.Spares vault

instance (account vault : Address) (step : StakingStep) : Decidable (step.Permitted account vault) := by
  cases step <;> simp only [StakingStep.Permitted] <;> infer_instance

namespace Staking

/-- A call, with its answer dropped. -/
def perform (s : Staking) (caller : Address) (ctx : BlockContext) :
    StakingCall → Attempt Staking StakingError Unit
  | .deposit amount beneficiary => (s.deposit caller amount beneficiary ctx).map fun _ => ()
  | .stakeAt amount subaccount => (s.stakeAt caller amount subaccount ctx).map fun _ => ()
  | .withdraw amount => (s.withdraw caller amount ctx).map fun _ => ()
  | .withdrawFrom amount subaccount => (s.withdrawFrom caller amount subaccount ctx).map fun _ => ()
  | .withdrawShares shares => (s.withdrawShares caller shares ctx).map fun _ => ()
  | .distribute amount => (s.distribute caller amount ctx).map fun _ => ()
  | .lockStake owner expiry => (s.lockStake caller owner expiry ctx).map fun _ => ()
  | .withdrawDelayed id => (s.withdrawDelayed caller id ctx).map fun _ => ()

def adjust (s : Staking) : StakingSetting → Except StakingError Staking
  | .withdrawLockTime secs => .ok (s.setWithdrawLockTime secs)
  | .vestingPeriod blocks => s.setVestingPeriod blocks
  | .addToWhitelist account => s.addToWhitelist account
  | .removeFromWhitelist account => s.removeFromWhitelist account
  | .addLocker account => s.addLocker account
  | .removeLocker account => s.removeLocker account

/-- The state a step leaves, also when it is refused. -/
def after (s : Staking) : StakingStep → Staking
  | .call caller call ctx => (s.perform caller ctx call).state
  | .set setting => (s.adjust setting).toOption.getD s
  | .outside step => { s with ledger := s.ledger.after step }

def run (s : Staking) (steps : List StakingStep) : Staking := steps.foldl after s

/-! ### Solvency -/

/-- What the vault owes out of the pool's account: nothing, unless the two share the account. -/
def sharedDebt (s : Staking) : Nat := if s.vault.account = s.account then s.vault.owed else 0

/-- The pool's account answers for the pool, and for the vault where it shares the account. -/
structure Solvent (s : Staking) : Prop where
  pool_sound : s.pool.Sound
  numbered : s.vault.account = s.account → s.vault.Numbered
  bounded : s.ledger.Bounded
  covered : s.pool.funds + s.sharedDebt ≤ s.ledger.balanceOf s.account

variable {s : Staking}

theorem Solvent.funds_lt (h : s.Solvent) : s.pool.funds < Amount.limit := by
  have hb := h.bounded s.account
  have hc := h.covered
  lia

/-- What was pulled into the pool's account can be added to the books without a sum saturating. -/
theorem Solvent.room (h : s.Solvent) {caller : Address} (hcaller : caller ≠ s.account) {amount : Amount}
    {ledger : Ledger} (ht : s.ledger.transferFrom s.account caller s.account amount = .ok ledger) :
    s.pool.funds + amount < Amount.limit := by
  have hpulled := Ledger.balanceOf_transferFrom ht s.account
  simp only [Ne.symm hcaller, ↓reduceIte, Nat.add_zero] at hpulled
  have hb := h.bounded.transferFrom ht s.account
  have hc := h.covered
  lia

theorem new_eq_ok {account : Address} {params : StakingParams} {ledger : Ledger} {vault : DelayVault}
    (hs : Staking.new account params ledger vault = .ok s) :
    ∃ pool, SharePool.new params.vestingPeriodBlocks = .ok pool ∧
      s = ⟨account, pool, ledger, vault, params.withdrawLockTimeSecs, .ofList params.whitelist,
        .ofList params.lockers, .empty⟩ := by
  simp only [Staking.new] at hs
  split at hs
  · cases hs
  · split at hs
    · cases hs
    · rename_i pool hp
      exact ⟨pool, hp, (Except.ok.inj hs).symm⟩

/-! ### Deposits -/

/-- A deposit that goes through: what it pulls, and the pool that books it. -/
structure Booked (s : Staking) (caller : Address) (account : StakeAccount) (amount minted : Amount)
    (now : Nat) (ledger : Ledger) (pool : SharePool) : Prop where
  preview : s.pool.previewDeposit amount now = .ok minted
  amount_ne : amount ≠ 0
  minted_ne : minted ≠ 0
  pulled : s.ledger.transferFrom s.account caller s.account amount = .ok ledger
  booked : s.pool.deposit account amount now = .ok (minted, pool)

theorem Solvent.booked (h : s.Solvent) {caller : Address} (hcaller : caller ≠ s.account)
    (account : StakeAccount) {amount minted : Amount} {now : Nat} {ledger : Ledger}
    (hpreview : s.pool.previewDeposit amount now = .ok minted) (hminted : minted ≠ 0)
    (ht : s.ledger.transferFrom s.account caller s.account amount = .ok ledger) :
    ∃ pool, s.Booked caller account amount minted now ledger pool := by
  have hle := h.pool_sound.minted_le h.funds_lt hpreview
  have ha : amount ≠ 0 := by lia
  exact ⟨_, hpreview, ha, hminted, ht,
    SharePool.deposit_eq h.pool_sound account (h.room hcaller ht) ha hpreview hminted⟩

theorem Booked.bookDeposit_eq {caller : Address} {account : StakeAccount} {amount minted : Amount}
    {ctx : BlockContext} {ledger : Ledger} {pool : SharePool}
    (h : s.Booked caller account amount minted ctx.number ledger pool) :
    s.bookDeposit caller account amount ctx
      = .ok { s with ledger, pool } ⟨account, amount, minted⟩ := by
  simp only [bookDeposit, if_neg h.amount_ne, h.preview, if_neg h.minted_ne, h.pulled, h.booked]

theorem bookDeposit_cases (h : s.Solvent) {caller : Address} (hcaller : caller ≠ s.account)
    (account : StakeAccount) (amount : Amount) (ctx : BlockContext) :
    (∃ e, s.bookDeposit caller account amount ctx = .fail s e) ∨
    s.bookDeposit caller account amount ctx = .ok s ⟨account, 0, 0⟩ ∨
    ∃ minted ledger pool, s.Booked caller account amount minted ctx.number ledger pool ∧
      s.bookDeposit caller account amount ctx
        = .ok { s with ledger, pool } ⟨account, amount, minted⟩ := by
  simp only [bookDeposit]
  split
  · exact .inl ⟨_, rfl⟩
  · rename_i expected hexpected
    split
    · exact .inr (.inl rfl)
    · rename_i hne
      have ha : amount ≠ 0 := by
        rintro rfl
        simp only [↓reduceIte, Except.ok.injEq] at hexpected
        exact hne hexpected.symm
      rw [if_neg ha] at hexpected
      split
      · exact .inl ⟨_, rfl⟩
      · rename_i ledger ht
        obtain ⟨pool, hbooked⟩ := h.booked hcaller account hexpected hne ht
        refine .inr (.inr ⟨expected, ledger, pool, hbooked, ?_⟩)
        rw [hbooked.booked]

/-! ### Withdrawals -/

/-- A withdrawal that goes through: what it parks in the vault, and the pool that released it. -/
structure Released (s : Staking) (account : StakeAccount) (shares amount : Amount) (ctx : BlockContext)
    (id : Nat) (vault : DelayVault) (ledger : Ledger) (pool : SharePool) : Prop where
  preview : s.pool.previewWithdraw account shares ctx.number = .ok amount
  amount_ne : amount ≠ 0
  unlocked : s.checkLock account amount ctx = .ok ()
  parked : ∃ unlockTime, Word.add? ctx.timestamp s.withdrawLockTime = some unlockTime ∧
    s.vault.deposit s.ledger s.account account.owner amount unlockTime = .ok (id, vault, ledger)
  burned : s.pool.withdrawShares account shares ctx.number = .ok (amount, pool)

theorem Released.release_eq {account : StakeAccount} {shares amount : Amount} {ctx : BlockContext}
    {id : Nat} {vault : DelayVault} {ledger : Ledger} {pool : SharePool}
    (h : s.Released account shares amount ctx id vault ledger pool) :
    s.release account shares ctx
      = .ok { s with vault, ledger, pool } ⟨account, amount, shares, some id⟩ := by
  obtain ⟨unlockTime, htime, hdeposit⟩ := h.parked
  simp only [release, h.preview, if_neg h.amount_ne, h.unlocked, htime, hdeposit, h.burned]

theorem release_cases (s : Staking) (account : StakeAccount) (shares : Amount) (ctx : BlockContext) :
    (∃ e, s.release account shares ctx = .fail s e) ∨
    s.release account shares ctx = .ok s ⟨account, 0, 0, none⟩ ∨
    ∃ amount id vault ledger pool, s.Released account shares amount ctx id vault ledger pool ∧
      s.release account shares ctx
        = .ok { s with vault, ledger, pool } ⟨account, amount, shares, some id⟩ := by
  simp only [release]
  split
  · exact .inl ⟨_, rfl⟩
  · rename_i amount hpreview
    split
    · exact .inr (.inl rfl)
    · rename_i hne
      split
      · exact .inl ⟨_, rfl⟩
      · rename_i hlock
        split
        · exact .inl ⟨_, rfl⟩
        · rename_i unlockTime htime
          split
          · exact .inl ⟨_, rfl⟩
          · rename_i id vault ledger hdeposit
            -- the burn releases what the preview said, which is what the vault took
            obtain ⟨pool, hw⟩ := SharePool.withdrawShares_eq hpreview
            refine .inr (.inr ⟨amount, id, vault, ledger, pool,
              ⟨hpreview, hne, hlock, ⟨unlockTime, htime, hdeposit⟩, hw⟩, ?_⟩)
            simp only [hw]

theorem withdrawDelayed_cases (s : Staking) (caller : Address) (id : Nat) (ctx : BlockContext) :
    (∃ e, s.withdrawDelayed caller id ctx = .fail s e) ∨
    ∃ payment vault ledger, s.vault.withdraw s.ledger caller id ctx.timestamp
        = .ok (payment, vault, ledger) ∧
      s.withdrawDelayed caller id ctx = .ok { s with vault, ledger } payment := by
  simp only [withdrawDelayed]
  split
  · exact .inl ⟨_, rfl⟩
  · rename_i payment vault ledger hw
    exact .inr ⟨payment, vault, ledger, hw, rfl⟩

/-! ### Rewards -/

/-- A reward that is pulled: the pool was ready for it, and what the caller paid has arrived. -/
structure Pulled (s : Staking) (caller : Address) (amount : Amount) (now : Nat) (ledger : Ledger) :
    Prop where
  ready : s.pool.checkDistribute now = .ok ()
  amount_ne : amount ≠ 0
  pulled : s.ledger.transferFrom s.account caller s.account amount = .ok ledger

theorem distribute_cases (s : Staking) (caller : Address) (amount : Amount) (ctx : BlockContext) :
    ((∃ e, s.distribute caller amount ctx = .fail s e) ∧
      ¬ ∃ ledger, s.Pulled caller amount ctx.number ledger) ∨
    ∃ ledger, s.Pulled caller amount ctx.number ledger ∧
      ((∃ e, s.pool.distribute amount ctx.number = .error e ∧
          s.distribute caller amount ctx = .fail { s with ledger } e) ∨
        ∃ schedule pool, s.pool.distribute amount ctx.number = .ok (schedule, pool) ∧
          s.distribute caller amount ctx = .ok { s with ledger, pool } schedule) := by
  simp only [distribute]
  split
  · rename_i e he
    refine .inl ⟨⟨e, rfl⟩, ?_⟩
    rintro ⟨ledger, hpulled⟩
    rw [hpulled.ready] at he
    cases he
  · rename_i hready
    split
    · rename_i ha
      exact .inl ⟨⟨_, rfl⟩, fun ⟨_, hpulled⟩ => hpulled.amount_ne ha⟩
    · rename_i ha
      split
      · rename_i e he
        refine .inl ⟨⟨e, rfl⟩, ?_⟩
        rintro ⟨ledger, hpulled⟩
        rw [hpulled.pulled] at he
        cases he
      · rename_i ledger ht
        refine .inr ⟨ledger, ⟨hready, ha, ht⟩, ?_⟩
        split
        · rename_i e he
          exact .inl ⟨e, he, rfl⟩
        · rename_i schedule pool hd
          exact .inr ⟨schedule, pool, hd, rfl⟩

/-! ### Parameters -/

/-- A change of the parameters touches none of the books, and of the pool the period at most. -/
theorem adjust_cases {s' : Staking} {setting : StakingSetting} (hs : s.adjust setting = .ok s') :
    s'.account = s.account ∧ s'.vault = s.vault ∧ s'.ledger = s.ledger ∧
      (s'.pool = s.pool ∨ ∃ blocks, s.pool.setPeriod blocks = .ok s'.pool) := by
  cases setting with
  | withdrawLockTime secs =>
    cases hs
    exact ⟨rfl, rfl, rfl, .inl rfl⟩
  | vestingPeriod blocks =>
    obtain ⟨pool, hp, rfl⟩ := exists_of_map_eq_ok hs
    exact ⟨rfl, rfl, rfl, .inr ⟨blocks, hp⟩⟩
  | addToWhitelist account | removeFromWhitelist account | addLocker account | removeLocker account =>
    obtain ⟨_, -, rfl⟩ := exists_of_map_eq_ok hs
    exact ⟨rfl, rfl, rfl, .inl rfl⟩

/-! ### Outcomes -/

/-- The outcomes of a call. Only a distribution leaves anything behind when it is refused. -/
inductive Outcome (s : Staking) (caller : Address) (ctx : BlockContext) (call : StakingCall) :
    Attempt Staking StakingError Unit → Prop
  | refused (e : StakingError) : Outcome s caller ctx call (.fail s e)
  | idle : Outcome s caller ctx call (.ok s ())
  | paidIn {account : StakeAccount} {amount minted : Amount} {ledger : Ledger} {pool : SharePool}
      (h : s.Booked caller account amount minted ctx.number ledger pool) :
      Outcome s caller ctx call (.ok { s with ledger, pool } ())
  | paidOut {account : StakeAccount} {shares amount : Amount} {id : Nat} {vault : DelayVault}
      {ledger : Ledger} {pool : SharePool} (hsource : call.source? caller = some account)
      (h : s.Released account shares amount ctx id vault ledger pool) :
      Outcome s caller ctx call (.ok { s with vault, ledger, pool } ())
  | collected {id : Nat} {payment : DelayedPayment} {vault : DelayVault} {ledger : Ledger}
      (h : s.vault.withdraw s.ledger caller id ctx.timestamp = .ok (payment, vault, ledger)) :
      Outcome s caller ctx call (.ok { s with vault, ledger } ())
  | rewarded {amount : Amount} {ledger : Ledger} {schedule : VestingSchedule} {pool : SharePool}
      (h : s.Pulled caller amount ctx.number ledger)
      (hd : s.pool.distribute amount ctx.number = .ok (schedule, pool)) :
      Outcome s caller ctx call (.ok { s with ledger, pool } ())
  | stranded {amount : Amount} {ledger : Ledger} {e : StakingError} (hcall : call = .distribute amount)
      (h : s.Pulled caller amount ctx.number ledger)
      (hd : s.pool.distribute amount ctx.number = .error e) :
      Outcome s caller ctx call (.fail { s with ledger } e)
  | locked (locks : Table Address StakeLock) : Outcome s caller ctx call (.ok { s with locks } ())

theorem outcome_bookDeposit (h : s.Solvent) {caller : Address} (hcaller : caller ≠ s.account)
    (account : StakeAccount) (amount : Amount) (ctx : BlockContext) (call : StakingCall) :
    s.Outcome caller ctx call ((s.bookDeposit caller account amount ctx).map fun _ => ()) := by
  rcases bookDeposit_cases h hcaller account amount ctx with ⟨e, hx⟩ | hx | ⟨minted, ledger, pool, hb, hx⟩
  · rw [hx]
    exact .refused e
  · rw [hx]
    exact .idle
  · rw [hx]
    exact .paidIn hb

theorem outcome_release {caller : Address} {call : StakingCall} {account : StakeAccount}
    (hsource : call.source? caller = some account) (shares : Amount) (ctx : BlockContext) :
    s.Outcome caller ctx call ((s.release account shares ctx).map fun _ => ()) := by
  rcases release_cases s account shares ctx with
    ⟨e, hx⟩ | hx | ⟨amount, id, vault, ledger, pool, hr, hx⟩
  · rw [hx]
    exact .refused e
  · rw [hx]
    exact .idle
  · rw [hx]
    exact .paidOut hsource hr

/-- On a solvent state a call of somebody else than the pool's account has one of the outcomes. -/
theorem outcome_perform (h : s.Solvent) {caller : Address} (hcaller : caller ≠ s.account)
    (ctx : BlockContext) (call : StakingCall) : s.Outcome caller ctx call (s.perform caller ctx call) := by
  cases call with
  | deposit amount beneficiary =>
    simp only [perform, deposit]
    split
    · exact .refused _
    · exact outcome_bookDeposit h hcaller _ _ _ _
  | stakeAt amount subaccount =>
    simp only [perform, stakeAt]
    split
    · exact .refused _
    · exact outcome_bookDeposit h hcaller _ _ _ _
  | withdraw amount => exact outcome_release rfl _ _
  | withdrawFrom amount subaccount =>
    simp only [perform, withdrawFrom]
    split
    · exact .refused _
    · exact outcome_release rfl _ _
  | withdrawShares shares => exact outcome_release rfl _ _
  | distribute amount =>
    simp only [perform]
    rcases distribute_cases s caller amount ctx with
      ⟨⟨e, hx⟩, -⟩ | ⟨ledger, hp, ⟨e, hd, hx⟩ | ⟨schedule, pool, hd, hx⟩⟩
    · rw [hx]
      exact .refused e
    · rw [hx]
      exact .stranded rfl hp hd
    · rw [hx]
      exact .rewarded hp hd
  | lockStake owner expiry =>
    simp only [perform, lockStake]
    split
    · exact .locked _
    · exact .refused _
  | withdrawDelayed id =>
    simp only [perform]
    rcases withdrawDelayed_cases s caller id ctx with ⟨e, hx⟩ | ⟨payment, vault, ledger, hw, hx⟩
    · rw [hx]
      exact .refused e
    · rw [hx]
      exact .collected hw

theorem state_of_refused (h : s.Solvent) {caller : Address} (hcaller : caller ≠ s.account)
    {ctx : BlockContext} {call : StakingCall} {e : StakingError}
    (he : (s.perform caller ctx call).result = .error e) :
    (s.perform caller ctx call).state
      = { s with ledger := (s.perform caller ctx call).state.ledger } := by
  have outcome := outcome_perform h hcaller ctx call
  generalize s.perform caller ctx call = x at outcome he
  cases outcome with
  | refused | stranded => rfl
  | idle | paidIn | paidOut | collected | rewarded | locked => cases he

end Staking

end PriceOracle
