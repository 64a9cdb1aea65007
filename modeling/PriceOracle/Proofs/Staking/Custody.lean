import PriceOracle.Proofs.Staking.Solvency
/-! The ledger covers the books. The pool's account holds what the pool answers for and the vault's
account what the vault owes, after any calls of other accounts and any steps of account holders that
leave these two accounts alone. Collateral beyond the books comes from outside only: somebody pays an
account directly, or a distribution is refused after its reward was pulled. -/
namespace PriceOracle

namespace Staking

/-! ### Quiet runs -/

/-- The step brings the two accounts nothing beyond the books: it is no refused distribution, and no
account holder credits them. -/
def Quiet (s : Staking) : StakingStep → Prop
  | .call caller (.distribute amount) ctx => (s.distribute caller amount ctx).result.isOk
  | .call .. | .set _ => True
  | .outside step =>
    ¬ s.ledger.balanceOf s.account < (s.ledger.after step).balanceOf s.account ∧
      ¬ s.ledger.balanceOf s.vault.account < (s.ledger.after step).balanceOf s.vault.account

/-- Every step of a run is quiet where it is taken. -/
def QuietRun : Staking → List StakingStep → Prop
  | _, [] => True
  | s, step :: steps => s.Quiet step ∧ QuietRun (s.after step) steps

instance (s : Staking) : (step : StakingStep) → Decidable (s.Quiet step)
  | .call caller (.distribute amount) ctx =>
    inferInstanceAs (Decidable ((s.distribute caller amount ctx).result.isOk = true))
  | .call _ (.deposit ..) _ | .call _ (.stakeAt ..) _ | .call _ (.withdraw _) _
  | .call _ (.withdrawFrom ..) _ | .call _ (.withdrawShares _) _ | .call _ (.lockStake ..) _
  | .call _ (.withdrawDelayed _) _ | .set _ => .isTrue trivial
  | .outside step => inferInstanceAs (Decidable
      (¬ s.ledger.balanceOf s.account < (s.ledger.after step).balanceOf s.account ∧
        ¬ s.ledger.balanceOf s.vault.account < (s.ledger.after step).balanceOf s.vault.account))

instance decidableQuietRun : (s : Staking) → (steps : List StakingStep) → Decidable (s.QuietRun steps)
  | _, [] => .isTrue trivial
  | s, step :: steps =>
    have := decidableQuietRun (s.after step) steps
    inferInstanceAs (Decidable (s.Quiet step ∧ QuietRun (s.after step) steps))

/-! ### The invariant -/

/-- The ledger covers the books, with something to spare on either account. -/
structure Covered (s : Staking) (spare vaultSpare : Nat) : Prop where
  distinct : s.vault.account ≠ s.account
  pool_sound : s.pool.Sound
  numbered : s.vault.Numbered
  bounded : s.ledger.Bounded
  balance_pool : s.ledger.balanceOf s.account = s.pool.funds + spare
  balance_vault : s.ledger.balanceOf s.vault.account = s.vault.owed + vaultSpare

variable {s : Staking} {spare vaultSpare : Nat}

theorem Covered.solvent (h : s.Covered spare vaultSpare) : s.Solvent := by
  refine ⟨h.pool_sound, fun _ => h.numbered, h.bounded, ?_⟩
  rw [sharedDebt, if_neg h.distinct, h.balance_pool]
  lia

theorem Covered.funds_lt (h : s.Covered spare vaultSpare) : s.pool.funds < Amount.limit :=
  h.solvent.funds_lt

/-- The same two accounts, covered with the same to spare. -/
def Follows (s s' : Staking) (spare vaultSpare : Nat) : Prop :=
  s'.account = s.account ∧ s'.vault.account = s.vault.account ∧ s'.Covered spare vaultSpare

theorem Covered.refl (h : s.Covered spare vaultSpare) : Follows s s spare vaultSpare := ⟨rfl, rfl, h⟩

theorem Follows.trans {s' s'' : Staking} {x y x' y' : Nat} (h : Follows s s' x y)
    (h' : Follows s' s'' x' y') : Follows s s'' x' y' :=
  ⟨h'.1.trans h.1, h'.2.1.trans h.2.1, h'.2.2⟩

/-- A flow of another account moves the balances as it moves the books, but for what is stranded. -/
theorem Covered.follow (h : s.Covered spare vaultSpare) {s' : Staking} {caller : Address}
    {paid parked collected stranded : Nat} (hf : Flow s s' caller paid parked collected stranded)
    (hcaller : (caller ≠ s.account ∧ caller ≠ s.vault.account) ∨ (paid = 0 ∧ collected = 0)) :
    Follows s s' (spare + stranded) vaultSpare := by
  have hpool := hf.balanceOf s.account
  have hvault := hf.balanceOf s.vault.account
  have hfunds := hf.funds
  have howed := hf.owed h.numbered
  have hp := h.balance_pool
  have hv := h.balance_vault
  have hdistinct := h.distinct
  refine ⟨hf.account, hf.vault_account, ?_, hf.pool_sound, hf.numbered h.numbered, hf.bounded, ?_, ?_⟩
  · rwa [hf.account, hf.vault_account]
  · rw [hf.account]
    rcases hcaller with ⟨hne, -⟩ | ⟨rfl, rfl⟩
    · simp only [Ne.symm hdistinct, Ne.symm hne, ↓reduceIte] at hpool
      lia
    · simp only [Ne.symm hdistinct, ite_self, ↓reduceIte] at hpool
      lia
  · rw [hf.vault_account]
    rcases hcaller with ⟨-, hne⟩ | ⟨rfl, rfl⟩
    · simp only [hdistinct, Ne.symm hne, ↓reduceIte] at hvault
      lia
    · simp only [hdistinct, ite_self, ↓reduceIte] at hvault
      lia

/-! ### Steps -/

/-- A distribution answers as a call exactly when it does as an operation. -/
theorem isOk_perform_distribute (s : Staking) (caller : Address) (ctx : BlockContext) (amount : Amount) :
    (s.perform caller ctx (.distribute amount)).result.isOk
      = (s.distribute caller amount ctx).result.isOk := by
  simp only [perform, Attempt.map]
  cases (s.distribute caller amount ctx).result <;> rfl

theorem follows_perform (h : s.Covered spare vaultSpare) {caller : Address} (hp : caller ≠ s.account)
    (hv : caller ≠ s.vault.account) (call : StakingCall) (ctx : BlockContext) :
    ∃ spare', Follows s (s.perform caller ctx call).state spare' vaultSpare ∧
      (s.Quiet (.call caller call ctx) → spare' = spare) := by
  obtain ⟨_, _, _, stranded, hf, hstranded⟩ := h.solvent.flow_perform hp ctx call
  refine ⟨spare + stranded, h.follow hf (.inl ⟨hp, hv⟩), fun hquiet => ?_⟩
  rcases hstranded with rfl | ⟨⟨amount, rfl⟩, hrefused⟩
  · rfl
  · rw [isOk_perform_distribute] at hrefused
    rw [Quiet, hrefused] at hquiet
    cases hquiet

theorem follows_adjust (h : s.Covered spare vaultSpare) {setting : StakingSetting} {s' : Staking}
    (hs : s.adjust setting = .ok s') : Follows s s' spare vaultSpare :=
  h.follow (h.solvent.flow_adjust s.account hs) (.inr ⟨rfl, rfl⟩)

/-- A permitted step keeps the accounts covered, and one that is quiet with as much to spare. -/
theorem follows_after (h : s.Covered spare vaultSpare) {step : StakingStep}
    (hs : step.Permitted s.account s.vault.account) :
    ∃ spare' vaultSpare', Follows s (s.after step) spare' vaultSpare' ∧
      (s.Quiet step → spare' = spare ∧ vaultSpare' = vaultSpare) := by
  cases step with
  | call caller call ctx =>
    obtain ⟨spare', hf, hq⟩ := follows_perform h hs.1 hs.2 call ctx
    exact ⟨spare', vaultSpare, hf, fun quiet => ⟨hq quiet, rfl⟩⟩
  | set setting =>
    refine ⟨spare, vaultSpare, ?_, fun _ => ⟨rfl, rfl⟩⟩
    simp only [after]
    cases ha : s.adjust setting with
    | error e => exact h.refl
    | ok s' => exact follows_adjust h ha
  | outside step =>
    have hpool := Ledger.balanceOf_le_after (l := s.ledger) hs.1
    have hvault := Ledger.balanceOf_le_after (l := s.ledger) hs.2
    have hp := h.balance_pool
    have hv := h.balance_vault
    refine ⟨(s.ledger.after step).balanceOf s.account - s.pool.funds,
      (s.ledger.after step).balanceOf s.vault.account - s.vault.owed,
      ⟨rfl, rfl, h.distinct, h.pool_sound, h.numbered, h.bounded.after step, ?_, ?_⟩, ?_⟩
    · show (s.ledger.after step).balanceOf s.account = s.pool.funds + _
      lia
    · show (s.ledger.after step).balanceOf s.vault.account = s.vault.owed + _
      lia
    · rintro ⟨hqp, hqv⟩
      constructor <;> lia

theorem follows_run {steps : List StakingStep} : ∀ {s : Staking} {spare vaultSpare : Nat},
    s.Covered spare vaultSpare → (∀ step ∈ steps, step.Permitted s.account s.vault.account) →
    ∃ spare' vaultSpare', Follows s (s.run steps) spare' vaultSpare' ∧
      (s.QuietRun steps → spare' = spare ∧ vaultSpare' = vaultSpare) := by
  induction steps with
  | nil =>
    intro s spare vaultSpare h _
    exact ⟨spare, vaultSpare, h.refl, fun _ => ⟨rfl, rfl⟩⟩
  | cons step steps ih =>
    intro s spare vaultSpare h hs
    obtain ⟨x, y, hstep, hq⟩ := follows_after h (hs step (by simp))
    have hrest : ∀ t ∈ steps, t.Permitted (s.after step).account (s.after step).vault.account := by
      intro t ht
      rw [hstep.1, hstep.2.1]
      exact hs t (by simp [ht])
    obtain ⟨x', y', hrun, hq'⟩ := ih hstep.2.2 hrest
    refine ⟨x', y', hstep.trans hrun, fun quiet => ?_⟩
    obtain ⟨rfl, rfl⟩ := hq quiet.1
    exact hq' quiet.2

/-! ### Custody -/

theorem covered_new {account vaultAccount : Address} {params : StakingParams} {s : Staking}
    (hne : vaultAccount ≠ account)
    (hs : Staking.new account params .empty (.new vaultAccount) = .ok s) :
    s.account = account ∧ s.vault.account = vaultAccount ∧ s.Covered 0 0 := by
  obtain ⟨pool, hp, rfl⟩ := new_eq_ok hs
  obtain ⟨hsound, hfunds⟩ := SharePool.Sound.new hp
  exact ⟨rfl, rfl, hne, hsound, DelayVault.numbered_new _, Ledger.bounded_empty, hfunds.symm, rfl⟩

/-- From an empty ledger and vault, after any run by callers other than the pool's and the vault's
accounts, in which nobody else debits these accounts: the pool's account holds at least what the pool
answers for and the vault's account at least what the vault owes, and exactly that if every step was
quiet. -/
theorem custody {account vaultAccount : Address} {params : StakingParams} {s : Staking}
    (hne : vaultAccount ≠ account)
    (hs : Staking.new account params .empty (.new vaultAccount) = .ok s) (steps : List StakingStep)
    (hsteps : ∀ step ∈ steps, step.Permitted account vaultAccount) :
    (s.run steps).pool.held ≤ (s.run steps).ledger.balanceOf account ∧
      (s.run steps).vault.owed ≤ (s.run steps).ledger.balanceOf vaultAccount ∧
      (s.QuietRun steps →
        (s.run steps).ledger.balanceOf account = (s.run steps).pool.held ∧
          (s.run steps).ledger.balanceOf vaultAccount = (s.run steps).vault.owed) := by
  obtain ⟨rfl, rfl, hcov⟩ := covered_new hne hs
  obtain ⟨spare, vaultSpare, ⟨hacc, hvacc, h⟩, hq⟩ := follows_run hcov hsteps
  have hp := h.balance_pool
  have hv := h.balance_vault
  rw [SharePool.held_eq_funds h.funds_lt]
  rw [hacc] at hp
  rw [hvacc] at hv
  refine ⟨by lia, by lia, fun quiet => ?_⟩
  obtain ⟨rfl, rfl⟩ := hq quiet
  exact ⟨hp, hv⟩

/-- A holder stakes a hundred and takes forty out to the vault. -/
theorem custody_of_withdrawal :
    let pool := Address.ofNat 1
    let vault := Address.ofNat 2
    let holder := Address.ofNat 3
    let s : Staking := ⟨pool, ⟨.empty, 0, 0, .none, 0, 10⟩, .empty, .new vault, 60, .empty, .empty, .empty⟩
    let steps : List StakingStep := [
      .outside (.mint holder 100),
      .outside (.approve holder pool 100),
      .call holder (.deposit 100 holder) ⟨1, 15⟩,
      .call holder (.withdraw 40) ⟨2, 30⟩]
    vault ≠ pool ∧ Staking.new pool { withdrawLockTimeSecs := 60 } .empty (.new vault) = .ok s ∧
      (∀ step ∈ steps, step.Permitted pool vault) ∧ s.QuietRun steps ∧
      (s.run steps).ledger.balanceOf pool = (s.run steps).pool.held ∧
      (s.run steps).ledger.balanceOf vault = (s.run steps).vault.owed ∧ (s.run steps).vault.owed = 40 := by
  intro pool vault holder s steps
  have hne : vault ≠ pool := by decide
  have hs : Staking.new pool { withdrawLockTimeSecs := 60 } .empty (.new vault) = .ok s := rfl
  have hsteps : ∀ step ∈ steps, step.Permitted pool vault := by decide
  have hquiet : s.QuietRun steps := by decide +kernel
  obtain ⟨hp, hv⟩ := (custody hne hs steps hsteps).2.2 hquiet
  exact ⟨hne, hs, hsteps, hquiet, hp, hv, by decide +kernel⟩

end Staking

end PriceOracle
