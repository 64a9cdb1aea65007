import PriceOracle.Proofs.Staking.Calls
import PriceOracle.Proofs.Staking.Conversion
/-! Staking without rewards. As long as no distribution is accepted nothing ever vests and every share has exactly one
unit behind it. All conversions are then exact, also after everybody has left and the pool starts again, and the
receipts of a run tell every balance. This is so over any ledger and vault, whoever calls. -/
namespace PriceOracle

namespace SharePool

variable {p p' : SharePool} {account : StakeAccount} {amount minted shares released : Amount} {now : Nat}

/-! ### Pools at par -/

/-- Nothing vests, and there are as many shares as units. -/
structure AtPar (p : SharePool) : Prop where
  tallied : p.Tallied
  unvested : p.schedule.amount = 0
  collateral : p.collateral = p.totalShares
  bounded : p.totalShares < Amount.limit

theorem AtPar.available (h : p.AtPar) (now : Nat) : p.available now = p.totalShares := by
  have hbounded := h.bounded
  have hnothing : p.schedule.unreleased now = 0 := by
    have hle := p.schedule.vested_le now
    rw [h.unvested] at hle
    rw [VestingSchedule.unreleased, Nat.le_zero.1 hle, Nat.zero_sub]
  rw [SharePool.available, hnothing, h.collateral, Amount.satAdd_of_lt (by lia), Nat.add_zero]

theorem AtPar.balanceOf (h : p.AtPar) (account : StakeAccount) (now : Nat) :
    p.balanceOf account now = p.sharesOf account := by
  have hle := h.tallied.sharesOf_le account
  rw [h.tallied.balanceOf_eq, h.available, mul_div_eq_of_imp fun h0 => by lia]

theorem AtPar.new {period : Nat} (hp : SharePool.new period = .ok p) :
    p.AtPar ∧ ∀ account, p.sharesOf account = 0 := by
  have htallied := Tallied.new hp
  simp only [SharePool.new] at hp
  split at hp
  · cases hp
  · cases hp
    have hlimit : 0 < Amount.limit := by decide
    exact ⟨⟨htallied, rfl, rfl, hlimit⟩, fun _ => rfl⟩

theorem AtPar.setPeriod (h : p.AtPar) {period : Nat} (hp : p.setPeriod period = .ok p') :
    p'.AtPar ∧ p'.shares = p.shares := by
  have htallied := h.tallied.setPeriod hp
  simp only [SharePool.setPeriod] at hp
  split at hp
  · cases hp
  · cases hp
    exact ⟨⟨htallied, h.unvested, h.collateral, h.bounded⟩, rfl⟩

theorem AtPar.previewDeposit (h : p.AtPar) (hp : p.previewDeposit amount now = .ok minted) : minted = amount := by
  simp only [SharePool.previewDeposit, h.available, or_self] at hp
  split at hp
  · cases hp
    rfl
  · rename_i hne
    split at hp
    · rename_i q hq
      obtain ⟨-, rfl, -⟩ := Amount.mulDiv?_eq_some.1 hq
      cases hp
      exact mul_div_eq_of_imp fun h0 => absurd h0 hne
    · cases hp

theorem AtPar.deposit (h : p.AtPar) (hm : minted ≠ 0)
    (hd : p.deposit account amount now = .ok (minted, p')) :
    minted = amount ∧ p'.AtPar ∧
      ∀ holder, p'.sharesOf holder = p.sharesOf holder + if holder = account then amount else 0 := by
  obtain ⟨hp, hminted⟩ := h.tallied.minted_of_deposit hd hm
  obtain rfl := h.previewDeposit hp
  refine ⟨rfl, ⟨hminted.tallied, hminted.schedule.1.trans h.unvested, ?_, hminted.bounded.2⟩, fun holder => ?_⟩
  · rw [hminted.collateral, hminted.totalShares, h.available, ite_eq_right_iff.2 fun h0 => h0.symm]
  · rw [hminted.sharesOf]
    split
    · rename_i heq
      rw [heq]
    · rfl

/-- Shares release as many units. -/
theorem AtPar.previewWithdraw (h : p.AtPar) (hp : p.previewWithdraw account shares now = .ok released) :
    shares ≤ p.sharesOf account ∧ released = shares := by
  obtain ⟨hle, hreleased⟩ := previewWithdraw_eq_ok hp
  have hall := h.tallied.sharesOf_le account
  rw [h.available, mul_div_eq_of_imp fun h0 => by lia] at hreleased
  exact ⟨hle, hreleased⟩

theorem AtPar.withdrawShares (h : p.AtPar) (hne : shares ≠ 0)
    (hp : p.previewWithdraw account shares now = .ok released)
    (hw : p.withdrawShares account shares now = .ok (released, p')) :
    p'.AtPar ∧ ∀ holder, p'.sharesOf holder + (if holder = account then shares else 0) = p.sharesOf holder := by
  have htallied := h.tallied.withdrawShares hw
  obtain ⟨hle, rfl⟩ := h.previewWithdraw hp
  rw [withdrawShares_of_ne_zero hne hp] at hw
  have hleft : (p.burn account released released now).collateral = p.totalShares - released := by
    rw [← h.available now]
    rfl
  have hbounded : p.totalShares - released < Amount.limit := Nat.lt_of_le_of_lt (Nat.sub_le _ _) h.bounded
  have hkept : ∀ holder, (p.burn account released released now).sharesOf holder
      + (if holder = account then released else 0) = p.sharesOf holder := by
    intro holder
    split
    · rename_i heq
      rw [heq, sharesOf_burn]
      lia
    · rename_i hother
      rw [sharesOf_burn_of_ne hother, Nat.add_zero]
  by_cases hlast : (p.burn account released released now).totalShares = 0
  · rw [if_pos hlast] at hw
    cases hw
    exact ⟨⟨htallied, h.unvested, hlast.symm, hbounded⟩, hkept⟩
  · rw [if_neg hlast] at hw
    cases hw
    exact ⟨⟨htallied, h.unvested, hleft, hbounded⟩, hkept⟩

/-- An amount is taken at as many shares, or at all that the account has. -/
theorem AtPar.sharesForCollateral (h : p.AtPar) (account : StakeAccount) (amount : Amount) (now : Nat) :
    p.sharesForCollateral account amount now = min amount (p.sharesOf account) := by
  have hall := h.tallied.sharesOf_le account
  have hbounded := h.bounded
  simp only [SharePool.sharesForCollateral, h.available, or_self]
  split
  · lia
  · rename_i hne
    cases hq : Amount.mulDiv? amount p.totalShares p.totalShares with
    | none =>
      simp only [Amount.mulDiv?, if_neg hne, mul_div_eq_of_imp fun h0 => absurd h0 hne] at hq
      split at hq
      · cases hq
      · rw [Option.getD_none, Amount.max]
        lia
    | some q =>
      obtain ⟨-, rfl, -⟩ := Amount.mulDiv?_eq_some.1 hq
      rw [Option.getD_some, mul_div_eq_of_imp fun h0 => absurd h0 hne]

end SharePool

namespace Staking

variable {s s' s'' : Staking} {caller : Address} {account holder : StakeAccount} {amount shares : Amount}
  {ctx : BlockContext} {ins ins' : List DepositReceipt} {outs outs' : List WithdrawReceipt}

/-! ### Receipts -/

/-- The receipt of a step that is an accepted deposit. -/
def deposit? (s : Staking) : StakingStep → Option DepositReceipt
  | .call caller (.deposit amount beneficiary) ctx => (s.deposit caller amount beneficiary ctx).result.toOption
  | .call caller (.stakeAt amount subaccount) ctx => (s.stakeAt caller amount subaccount ctx).result.toOption
  | .call _ (.withdraw _) _ | .call _ (.withdrawFrom ..) _ | .call _ (.withdrawShares _) _
  | .call _ (.distribute _) _ | .call _ (.lockStake ..) _ | .call _ (.withdrawDelayed _) _
  | .set _ | .outside _ => none

/-- The receipt of a step that is an accepted withdrawal. -/
def withdrawal? (s : Staking) : StakingStep → Option WithdrawReceipt
  | .call caller (.withdraw amount) ctx => (s.withdraw caller amount ctx).result.toOption
  | .call caller (.withdrawFrom amount subaccount) ctx =>
    (s.withdrawFrom caller amount subaccount ctx).result.toOption
  | .call caller (.withdrawShares shares) ctx => (s.withdrawShares caller shares ctx).result.toOption
  | .call _ (.deposit ..) _ | .call _ (.stakeAt ..) _ | .call _ (.distribute _) _
  | .call _ (.lockStake ..) _ | .call _ (.withdrawDelayed _) _ | .set _ | .outside _ => none

def deposits : Staking → List StakingStep → List DepositReceipt
  | _, [] => []
  | s, step :: steps => (s.deposit? step).toList ++ deposits (s.after step) steps

def withdrawals : Staking → List StakingStep → List WithdrawReceipt
  | _, [] => []
  | s, step :: steps => (s.withdrawal? step).toList ++ withdrawals (s.after step) steps

section Sums

variable {ρ : Type} (owner : ρ → StakeAccount) (amount : ρ → Amount) (holder : StakeAccount)

/-- The sum of the amounts on an account's receipts. -/
def sumOf (receipts : List ρ) : Nat := ((receipts.filter (holder = owner ·)).map amount).sum

@[simp]
theorem sumOf_nil : sumOf owner amount holder [] = 0 := rfl

@[simp]
theorem sumOf_append (receipts more : List ρ) :
    sumOf owner amount holder (receipts ++ more)
      = sumOf owner amount holder receipts + sumOf owner amount holder more := by
  simp [sumOf]

@[simp]
theorem sumOf_singleton (receipt : ρ) :
    sumOf owner amount holder [receipt] = if holder = owner receipt then amount receipt else 0 := by
  by_cases heq : holder = owner receipt <;> simp [sumOf, heq]

end Sums

/-- What deposit receipts say an account has put in. -/
abbrev credited : StakeAccount → List DepositReceipt → Nat := sumOf (·.account) (·.amount)

/-- What withdrawal receipts say an account has taken out. -/
abbrev debited : StakeAccount → List WithdrawReceipt → Nat := sumOf (·.account) (·.amount)

/-! ### Steps -/

def Rewards (s : Staking) : StakingStep → Prop
  | .call caller (.distribute amount) ctx => (s.distribute caller amount ctx).result.isOk
  | .call _ (.deposit ..) _ | .call _ (.stakeAt ..) _ | .call _ (.withdraw _) _
  | .call _ (.withdrawFrom ..) _ | .call _ (.withdrawShares _) _ | .call _ (.lockStake ..) _
  | .call _ (.withdrawDelayed _) _ | .set _ | .outside _ => False

/-- A run in which no distribution is accepted. -/
def Unrewarded : Staking → List StakingStep → Prop
  | _, [] => True
  | s, step :: steps => ¬ s.Rewards step ∧ Unrewarded (s.after step) steps

instance (s : Staking) : (step : StakingStep) → Decidable (s.Rewards step)
  | .call caller (.distribute amount) ctx =>
    inferInstanceAs (Decidable ((s.distribute caller amount ctx).result.isOk = true))
  | .call _ (.deposit ..) _ | .call _ (.stakeAt ..) _ | .call _ (.withdraw _) _
  | .call _ (.withdrawFrom ..) _ | .call _ (.withdrawShares _) _ | .call _ (.lockStake ..) _
  | .call _ (.withdrawDelayed _) _ | .set _ | .outside _ => .isFalse id

instance decidableUnrewarded : (s : Staking) → (steps : List StakingStep) → Decidable (s.Unrewarded steps)
  | _, [] => .isTrue trivial
  | s, step :: steps =>
    have := decidableUnrewarded (s.after step) steps
    inferInstanceAs (Decidable (¬ s.Rewards step ∧ Unrewarded (s.after step) steps))

/-- The pool is left at par, with everybody's shares moved by what the receipts say. -/
structure Accounted (s s' : Staking) (ins : List DepositReceipt) (outs : List WithdrawReceipt) : Prop where
  atPar : s'.pool.AtPar
  sharesOf (holder : StakeAccount) :
    s'.pool.sharesOf holder + debited holder outs = s.pool.sharesOf holder + credited holder ins

theorem Accounted.kept (h : s.pool.AtPar) (hpool : s'.pool = s.pool) : Accounted s s' [] [] :=
  ⟨hpool ▸ h, fun holder => by simp only [hpool, sumOf_nil]⟩

theorem Accounted.trans (h : Accounted s s' ins outs) (h' : Accounted s' s'' ins' outs') :
    Accounted s s'' (ins ++ ins') (outs ++ outs') := by
  refine ⟨h'.atPar, fun holder => ?_⟩
  have hfirst := h.sharesOf holder
  have hrest := h'.sharesOf holder
  simp only [sumOf_append]
  lia

theorem bookDeposit_atPar (h : s.pool.AtPar) (caller : Address) (account : StakeAccount) (amount : Amount)
    (ctx : BlockContext) :
    (∃ s' e, s.bookDeposit caller account amount ctx = .fail s' e ∧ s'.pool = s.pool) ∨
    ∃ s', s.bookDeposit caller account amount ctx = .ok s' ⟨account, amount, amount⟩ ∧
      Accounted s s' [⟨account, amount, amount⟩] [] := by
  simp only [bookDeposit]
  split
  · exact .inl ⟨s, _, rfl, rfl⟩
  rename_i expected hexpected
  -- also for an amount of zero, which is not converted
  have hone : expected = amount := by
    split at hexpected
    · rename_i hzero
      exact (Except.ok.inj hexpected).symm.trans hzero.symm
    · exact h.previewDeposit hexpected
  subst hone
  by_cases hne : expected = 0
  · subst hne
    exact .inr ⟨s, rfl, h, fun holder => by simp⟩
  rw [if_neg hne] at hexpected ⊢
  split
  · exact .inl ⟨s, _, rfl, rfl⟩
  split
  · exact .inl ⟨_, _, rfl, rfl⟩
  rename_i ledger ht minted pool hd
  obtain rfl := SharePool.minted_eq_preview hne hexpected hd
  obtain ⟨-, hpar, hshares⟩ := h.deposit hne hd
  exact .inr ⟨_, rfl, hpar, fun holder => by simp [hshares]⟩

/-- A release at par is of as many units as shares. -/
theorem release_atPar (h : s.pool.AtPar) (account : StakeAccount) (shares : Amount) (ctx : BlockContext) :
    (∃ e, s.release account shares ctx = .fail s e) ∨
    ∃ s' delayId, s.release account shares ctx = .ok s' ⟨account, shares, shares, delayId⟩ ∧
      Accounted s s' [] [⟨account, shares, shares, delayId⟩] := by
  simp only [release]
  split
  · exact .inl ⟨_, rfl⟩
  rename_i released hp
  obtain ⟨-, rfl⟩ := h.previewWithdraw hp
  by_cases hne : released = 0
  · subst hne
    exact .inr ⟨s, none, rfl, h, fun holder => by simp⟩
  rw [if_neg hne]
  split
  · exact .inl ⟨_, rfl⟩
  split
  · exact .inl ⟨_, rfl⟩
  split
  · exact .inl ⟨_, rfl⟩
  rename_i id vault ledger hdeposit
  obtain ⟨pool, hw⟩ := SharePool.withdrawShares_eq hp
  obtain ⟨hpar, hshares⟩ := h.withdrawShares hne hp hw
  rw [hw]
  exact .inr ⟨_, some id, rfl, hpar, fun holder => by simp [hshares]⟩

theorem accounted_bookDeposit (h : s.pool.AtPar) (caller : Address) (account : StakeAccount) (amount : Amount)
    (ctx : BlockContext) :
    let x := s.bookDeposit caller account amount ctx
    Accounted s x.state x.result.toOption.toList [] := by
  intro x
  rcases bookDeposit_atPar h caller account amount ctx with ⟨s', e, hx, hkept⟩ | ⟨s', hx, haccounted⟩
  · rw [show x = _ from hx]
    exact .kept h hkept
  · rw [show x = _ from hx]
    exact haccounted

theorem accounted_release (h : s.pool.AtPar) (account : StakeAccount) (shares : Amount) (ctx : BlockContext) :
    let x := s.release account shares ctx
    Accounted s x.state [] x.result.toOption.toList := by
  intro x
  rcases release_atPar h account shares ctx with ⟨e, hx⟩ | ⟨s', delayId, hx, haccounted⟩
  · rw [show x = _ from hx]
    exact .kept h rfl
  · rw [show x = _ from hx]
    exact haccounted

theorem receipt_of_bookDeposit (h : s.pool.AtPar) {receipt : DepositReceipt}
    (hr : (s.bookDeposit caller account amount ctx).result = .ok receipt) :
    receipt = ⟨account, amount, amount⟩ := by
  rcases bookDeposit_atPar h caller account amount ctx with ⟨s', e, hx, -⟩ | ⟨s', hx, -⟩
  · rw [hx] at hr
    cases hr
  · rw [hx] at hr
    exact (Except.ok.inj hr).symm

theorem amount_of_release (h : s.pool.AtPar) {receipt : WithdrawReceipt}
    (hr : (s.release account shares ctx).result = .ok receipt) : receipt.amount = shares := by
  rcases release_atPar h account shares ctx with ⟨e, hx⟩ | ⟨s', delayId, hx, -⟩
  · rw [hx] at hr
    cases hr
  · rw [hx] at hr
    cases hr
    rfl

theorem accounted_after (h : s.pool.AtPar) {step : StakingStep} (hs : ¬ s.Rewards step) :
    Accounted s (s.after step) (s.deposit? step).toList (s.withdrawal? step).toList := by
  cases step with
  | call caller call ctx =>
    cases call with
    | deposit amount beneficiary =>
      simp only [Staking.after, perform, deposit?, deposit, Attempt.map]
      split
      · exact .kept h rfl
      · exact accounted_bookDeposit h ..
    | stakeAt amount subaccount =>
      simp only [Staking.after, perform, deposit?, stakeAt, Attempt.map]
      split
      · exact .kept h rfl
      · exact accounted_bookDeposit h ..
    | withdraw amount => exact accounted_release h ..
    | withdrawFrom amount subaccount =>
      simp only [Staking.after, perform, withdrawal?, withdrawFrom, Attempt.map]
      split
      · exact .kept h rfl
      · exact accounted_release h ..
    | withdrawShares shares => exact accounted_release h ..
    | distribute amount =>
      simp only [Staking.after, perform, Attempt.map]
      rcases distribute_cases s caller amount ctx with
        ⟨⟨e, hx⟩, -⟩ | ⟨ledger, -, ⟨e, -, hx⟩ | ⟨schedule, pool, -, hx⟩⟩
      · rw [hx]
        exact .kept h rfl
      · rw [hx]
        exact .kept h rfl
      · refine absurd ?_ hs
        simp only [Rewards, hx]
        rfl
    | lockStake owner expiry =>
      simp only [Staking.after, perform, lockStake, Attempt.map]
      split
      · exact .kept h rfl
      · exact .kept h rfl
    | withdrawDelayed id =>
      simp only [Staking.after, perform, Attempt.map]
      rcases withdrawDelayed_cases s caller id ctx with ⟨e, hx⟩ | ⟨payment, vault, ledger, -, hx⟩
      · rw [hx]
        exact .kept h rfl
      · rw [hx]
        exact .kept h rfl
  | set setting =>
    simp only [Staking.after]
    cases ha : s.adjust setting with
    | error e => exact .kept h rfl
    | ok s' =>
      show Accounted s s' [] []
      rcases (adjust_cases ha).2.2.2 with hpool | ⟨blocks, hp⟩
      · exact .kept h hpool
      · obtain ⟨hpar, hshares⟩ := h.setPeriod hp
        exact ⟨hpar, fun holder => by simp [SharePool.sharesOf, hshares]⟩
  | outside step => exact .kept h rfl

/-! ### Runs -/

theorem accounted_run {steps : List StakingStep} : ∀ {s : Staking}, s.pool.AtPar → s.Unrewarded steps →
    Accounted s (s.run steps) (s.deposits steps) (s.withdrawals steps) := by
  induction steps with
  | nil => exact fun h _ => .kept h rfl
  | cons step steps ih =>
    intro s h hs
    have hstep := accounted_after h hs.1
    exact hstep.trans (ih hstep.atPar hs.2)

/-- From a new pool, over any ledger and vault, through any run of calls, changes of the parameters and steps of
account holders in which no distribution is accepted: every balance, at any block, is what the account's deposit
receipts say less what its withdrawal receipts say. An accepted deposit mints its amount, an accepted withdrawal
of an amount releases that or the whole balance if this is less, and shares release as many units. -/
theorem unrewarded_exact {account : Address} {params : StakingParams} {ledger : Ledger} {vault : DelayVault}
    (hs : Staking.new account params ledger vault = .ok s) (steps : List StakingStep)
    (hnone : s.Unrewarded steps) :
    let before := s.run steps
    (∀ holder now, before.pool.balanceOf holder now + debited holder (s.withdrawals steps)
      = credited holder (s.deposits steps)) ∧
    (∀ caller amount beneficiary ctx receipt,
      (before.deposit caller amount beneficiary ctx).result = .ok receipt →
        receipt = ⟨.own beneficiary, amount, amount⟩) ∧
    (∀ caller amount subaccount ctx receipt,
      (before.stakeAt caller amount subaccount ctx).result = .ok receipt →
        receipt = ⟨⟨caller, subaccount⟩, amount, amount⟩) ∧
    (∀ caller amount ctx receipt, (before.withdraw caller amount ctx).result = .ok receipt →
      receipt.amount = min amount (before.balance caller ctx)) ∧
    (∀ caller amount subaccount ctx receipt,
      (before.withdrawFrom caller amount subaccount ctx).result = .ok receipt →
        receipt.amount = min amount (before.balanceAt caller subaccount ctx)) ∧
    ∀ caller shares ctx receipt, (before.withdrawShares caller shares ctx).result = .ok receipt →
      receipt.amount = shares := by
  obtain ⟨pool, hp, rfl⟩ := new_eq_ok hs
  obtain ⟨hnew, hempty⟩ := SharePool.AtPar.new hp
  have haccounted := accounted_run hnew hnone
  have hpar := haccounted.atPar
  intro before
  refine ⟨fun holder now => ?_, fun caller amount beneficiary ctx receipt hr => ?_,
    fun caller amount subaccount ctx receipt hr => ?_, fun caller amount ctx receipt hr => ?_,
    fun caller amount subaccount ctx receipt hr => ?_, fun caller shares ctx receipt hr => amount_of_release hpar hr⟩
  · rw [hpar.balanceOf, haccounted.sharesOf, hempty, Nat.zero_add]
  · simp only [deposit] at hr
    split at hr
    · cases hr
    · exact receipt_of_bookDeposit hpar hr
  · simp only [stakeAt] at hr
    split at hr
    · cases hr
    · exact receipt_of_bookDeposit hpar hr
  · rw [balance, hpar.balanceOf, ← hpar.sharesForCollateral (.own caller) amount ctx.number]
    exact amount_of_release hpar hr
  · rw [balanceAt, hpar.balanceOf, ← hpar.sharesForCollateral ⟨caller, subaccount⟩ amount ctx.number]
    simp only [withdrawFrom] at hr
    split at hr
    · cases hr
    · exact amount_of_release hpar hr

/-- A holder leaves with all it has, also since it asks for more, and comes back. A reward is refused while nobody
holds shares, and another one since its schedule would end beyond the last block, which keeps what was pulled. -/
theorem unrewarded_exact_of_restart :
    let pool := Address.ofNat 1
    let vault := Address.ofNat 2
    let holder := Address.ofNat 3
    let s : Staking := ⟨pool, ⟨.empty, 0, 0, .none, 0, 10⟩, .empty, .new vault, 60, .empty, .empty, .empty⟩
    let steps : List StakingStep := [
      .outside (.mint holder 100),
      .outside (.approve holder pool 100),
      .call holder (.deposit 60 holder) ⟨1, 15⟩,
      .call holder (.withdraw 90) ⟨2, 30⟩,
      .call holder (.distribute 5) ⟨2, 30⟩,
      .call holder (.deposit 30 holder) ⟨3, 45⟩,
      .set (.vestingPeriod Word.max),
      .call holder (.distribute 5) ⟨3, 45⟩,
      .call holder (.withdraw 10) ⟨4, 60⟩]
    let ctx : BlockContext := ⟨5, 75⟩
    Staking.new pool { withdrawLockTimeSecs := 60 } .empty (.new vault) = .ok s ∧ s.Unrewarded steps ∧
      credited (.own holder) (s.deposits steps) = 90 ∧ debited (.own holder) (s.withdrawals steps) = 70 ∧
      (s.run steps).pool.balanceOf (.own holder) 5 = 20 ∧ (s.run steps).ledger.balanceOf pool = 25 ∧
      (∃ receipt, ((s.run steps).deposit holder 5 holder ctx).result = .ok receipt ∧
        receipt = ⟨.own holder, 5, 5⟩) ∧
      ∃ receipt, ((s.run steps).withdraw holder 50 ctx).result = .ok receipt ∧ receipt.amount = 20 := by
  intro pool vault holder s steps ctx
  have hs : Staking.new pool { withdrawLockTimeSecs := 60 } .empty (.new vault) = .ok s := rfl
  have hnone : s.Unrewarded steps := by decide +kernel
  have hin : credited (.own holder) (s.deposits steps) = 90 := by decide +kernel
  have hout : debited (.own holder) (s.withdrawals steps) = 70 := by decide +kernel
  have hdeposit : ((s.run steps).deposit holder 5 holder ctx).result.map (fun _ => ()) = .ok () := by
    decide +kernel
  have hwithdraw : ((s.run steps).withdraw holder 50 ctx).result.map (fun _ => ()) = .ok () := by decide +kernel
  obtain ⟨hbalance, hminted, -, hreleased, -⟩ := unrewarded_exact hs steps hnone
  have hheld := hbalance (.own holder) 5
  rw [hin, hout] at hheld
  have htwenty : (s.run steps).pool.balanceOf (.own holder) 5 = 20 := by lia
  obtain ⟨booked, hb, -⟩ := exists_of_map_eq_ok hdeposit
  obtain ⟨receipt, hr, -⟩ := exists_of_map_eq_ok hwithdraw
  refine ⟨hs, hnone, hin, hout, htwenty, by decide +kernel, ⟨booked, hb, hminted _ _ _ _ _ hb⟩, receipt, hr, ?_⟩
  have hamount := hreleased _ _ _ _ hr
  rw [balance, htwenty] at hamount
  exact hamount

end Staking

end PriceOracle
