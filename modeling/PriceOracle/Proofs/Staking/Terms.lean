import PriceOracle.Proofs.Staking.Calls
/-! The terms of staking: over how many blocks a distribution vests, how long a withdrawal waits and who is
privileged. A setting that is accepted sets one of them and nothing else, and no call touches them. -/
namespace PriceOracle

/-! ### The period of the pool -/

namespace SharePool

variable {p p' : SharePool} {account : StakeAccount} {now : Nat}

theorem period_deposit {amount minted : Amount} (h : p.deposit account amount now = .ok (minted, p')) :
    p'.period = p.period := by
  unfold deposit at h
  split at h
  · cases h
    rfl
  split at h
  · cases h
  split at h
  · cases h
    rfl
  split at h
  · cases h
    dsimp only
    split <;> rfl
  · cases h

theorem period_withdrawShares {shares released : Amount}
    (h : p.withdrawShares account shares now = .ok (released, p')) : p'.period = p.period := by
  unfold withdrawShares at h
  split at h
  · cases h
  split at h
  · cases h
    rfl
  · cases h
    dsimp only
    split <;> rfl

theorem period_distribute {amount : Amount} {schedule : VestingSchedule}
    (h : p.distribute amount now = .ok (schedule, p')) : p'.period = p.period := by
  unfold distribute at h
  split at h
  · cases h
  split at h
  · cases h
  split at h
  · cases h
    rfl
  · cases h

end SharePool

/-- What is set for staking, as opposed to what happens on it. -/
structure StakingTerms where
  vestingPeriod : Nat
  withdrawLockTime : Nat
  whitelist : KeySet Address
  lockers : KeySet Address
deriving DecidableEq, Inhabited

/-- The terms after a setting, which names one of them. -/
def StakingTerms.amend (t : StakingTerms) : StakingSetting → StakingTerms
  | .withdrawLockTime secs => { t with withdrawLockTime := secs }
  | .vestingPeriod blocks => { t with vestingPeriod := blocks }
  | .addToWhitelist account => { t with whitelist := t.whitelist.add account }
  | .removeFromWhitelist account => { t with whitelist := t.whitelist.erase account }
  | .addLocker account => { t with lockers := t.lockers.add account }
  | .removeLocker account => { t with lockers := t.lockers.erase account }

namespace Staking

variable {s s' : Staking} {caller : Address} {ctx : BlockContext}

def terms (s : Staking) : StakingTerms := ⟨s.pool.period, s.withdrawLockTime, s.whitelist, s.lockers⟩

def withTerms (s : Staking) (t : StakingTerms) : Staking :=
  { s with
    pool := { s.pool with period := t.vestingPeriod }
    withdrawLockTime := t.withdrawLockTime
    whitelist := t.whitelist
    lockers := t.lockers }

@[simp]
theorem withTerms_terms (s : Staking) : s.withTerms s.terms = s := rfl

@[simp]
theorem terms_withTerms (s : Staking) (t : StakingTerms) : (s.withTerms t).terms = t := rfl

/-! ### Settings -/

theorem enroll_eq_ok {accounts accounts' : KeySet Address} {account : Address}
    (h : enroll accounts account = .ok accounts') : accounts' = accounts.add account := by
  unfold enroll at h
  split at h
  · cases h
  split at h
  · cases h
  · exact (Except.ok.inj h).symm

theorem dismiss_eq_ok {accounts accounts' : KeySet Address} {account : Address}
    (h : dismiss accounts account = .ok accounts') : accounts' = accounts.erase account := by
  unfold dismiss at h
  split at h
  · exact (Except.ok.inj h).symm
  · cases h

theorem adjust_eq_ok {setting : StakingSetting} (h : s.adjust setting = .ok s') :
    s' = s.withTerms (s.terms.amend setting) := by
  cases setting with
  | withdrawLockTime secs =>
    cases h
    rfl
  | vestingPeriod blocks =>
    obtain ⟨pool, hp, rfl⟩ := exists_of_map_eq_ok h
    unfold SharePool.setPeriod at hp
    split at hp
    · cases hp
    · cases hp
      rfl
  | addToWhitelist account | addLocker account =>
    obtain ⟨accounts, ha, rfl⟩ := exists_of_map_eq_ok h
    rw [enroll_eq_ok ha]
    rfl
  | removeFromWhitelist account | removeLocker account =>
    obtain ⟨accounts, ha, rfl⟩ := exists_of_map_eq_ok h
    rw [dismiss_eq_ok ha]
    rfl

/-! ### Calls -/

/-- A pool with the same period is all that the books of a call change of the terms. -/
theorem terms_books {ledger : Ledger} {vault : DelayVault} {pool : SharePool}
    (h : pool.period = s.pool.period) : ({ s with ledger, vault, pool } : Staking).terms = s.terms := by
  rw [terms, h]
  rfl

theorem terms_bookDeposit (s : Staking) (caller : Address) (account : StakeAccount) (amount : Amount)
    (ctx : BlockContext) : (s.bookDeposit caller account amount ctx).state.terms = s.terms := by
  unfold bookDeposit
  split
  · rfl
  split
  · rfl
  split
  · rfl
  dsimp only
  split
  · rfl
  · rename_i shares pool hd
    exact terms_books (SharePool.period_deposit hd)

theorem terms_release (s : Staking) (account : StakeAccount) (shares : Amount) (ctx : BlockContext) :
    (s.release account shares ctx).state.terms = s.terms := by
  rcases release_cases s account shares ctx with
    ⟨e, hx⟩ | hx | ⟨amount, id, vault, ledger, pool, hr, hx⟩
  · rw [hx]
    rfl
  · rw [hx]
    rfl
  · rw [hx]
    exact terms_books (SharePool.period_withdrawShares hr.burned)

theorem terms_perform (s : Staking) (caller : Address) (ctx : BlockContext) (call : StakingCall) :
    (s.perform caller ctx call).state.terms = s.terms := by
  cases call with
  | deposit amount beneficiary =>
    simp only [perform, deposit, Attempt.map]
    split
    · rfl
    · exact s.terms_bookDeposit caller _ amount ctx
  | stakeAt amount subaccount =>
    simp only [perform, stakeAt, Attempt.map]
    split
    · rfl
    · exact s.terms_bookDeposit caller _ amount ctx
  | withdraw amount => exact s.terms_release _ _ ctx
  | withdrawFrom amount subaccount =>
    simp only [perform, withdrawFrom, Attempt.map]
    split
    · rfl
    · exact s.terms_release _ _ ctx
  | withdrawShares shares => exact s.terms_release _ _ ctx
  | distribute amount =>
    simp only [perform, Attempt.map]
    rcases distribute_cases s caller amount ctx with
      ⟨⟨e, hx⟩, -⟩ | ⟨ledger, -, ⟨e, -, hx⟩ | ⟨schedule, pool, hd, hx⟩⟩
    · rw [hx]
      rfl
    · rw [hx]
      rfl
    · rw [hx]
      exact terms_books (SharePool.period_distribute hd)
  | lockStake owner expiry =>
    simp only [perform, lockStake, Attempt.map]
    split <;> rfl
  | withdrawDelayed id =>
    simp only [perform, Attempt.map]
    rcases withdrawDelayed_cases s caller id ctx with ⟨e, hx⟩ | ⟨payment, vault, ledger, -, hx⟩
    · rw [hx]
      rfl
    · rw [hx]
      rfl

theorem terms_of_perform {call : StakingCall} {x : Attempt Staking StakingError Unit}
    (h : s.perform caller ctx call = x) : x.state.terms = s.terms := by
  rw [← h, terms_perform]

end Staking

end PriceOracle
