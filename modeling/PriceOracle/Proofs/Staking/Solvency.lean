import PriceOracle.Proofs.Staking.Calls
/-! The pool's account stays solvent. Every call moves collateral between the caller, the pool's account
and the vault's, and the books of the pool and the vault move with it; this flow is stated once, with
what is paid on one side and what is received on the other. Solvency is kept by every flow, hence by
every run of permitted steps from an empty ledger. -/
namespace PriceOracle.Staking

variable {s s' : Staking} {caller : Address}

/-! ### Flows -/

/-- What a call moved: `paid` from the caller to the pool's account, `parked` from there to the vault's,
and `collected` from there to the caller. Of what was paid, the part `stranded` is on no book. -/
structure Flow (s s' : Staking) (caller : Address) (paid parked collected stranded : Nat) : Prop where
  account : s'.account = s.account
  vault_account : s'.vault.account = s.vault.account
  pool_sound : s'.pool.Sound
  bounded : s'.ledger.Bounded
  numbered : s.vault.Numbered → s'.vault.Numbered
  balanceOf (a : Address) : s'.ledger.balanceOf a + (if a = caller then paid else 0)
      + (if a = s.account then parked else 0) + (if a = s.vault.account then collected else 0)
    = s.ledger.balanceOf a + (if a = s.account then paid else 0)
      + (if a = s.vault.account then parked else 0) + (if a = caller then collected else 0)
  funds : s'.pool.funds + parked + stranded = s.pool.funds + paid
  owed : s.vault.Numbered → s'.vault.owed + collected = s.vault.owed + parked

/-- Nothing moves where the ledger, the vault and the funds stay as they are. -/
theorem Solvent.flow_zero (h : s.Solvent) (caller : Address) (hacc : s'.account = s.account)
    (hvault : s'.vault = s.vault) (hledger : s'.ledger = s.ledger) (hs : s'.pool.Sound)
    (hf : s'.pool.funds = s.pool.funds) : Flow s s' caller 0 0 0 0 where
  account := hacc
  vault_account := by rw [hvault]
  pool_sound := hs
  bounded := by
    rw [hledger]
    exact h.bounded
  numbered hn := by rwa [hvault]
  balanceOf a := by simp [hledger]
  funds := by rw [hf]
  owed _ := by rw [hvault]

/-- What is pulled from the caller is booked, up to what the pool's funds do not show. -/
theorem Solvent.flow_pulled (h : s.Solvent) {amount stranded : Amount} {ledger : Ledger} {pool : SharePool}
    (ht : s.ledger.transferFrom s.account caller s.account amount = .ok ledger) (hs : pool.Sound)
    (hf : pool.funds + stranded = s.pool.funds + amount) :
    Flow s { s with ledger, pool } caller amount 0 0 stranded where
  account := rfl
  vault_account := rfl
  pool_sound := hs
  bounded := h.bounded.transferFrom ht
  numbered hn := hn
  balanceOf a := by simpa using Ledger.balanceOf_transferFrom ht a
  funds := hf
  owed _ := rfl

theorem Solvent.flow_booked (h : s.Solvent) (hcaller : caller ≠ s.account) {account : StakeAccount}
    {amount minted : Amount} {now : Nat} {ledger : Ledger} {pool : SharePool}
    (hb : s.Booked caller account amount minted now ledger pool) :
    Flow s { s with ledger, pool } caller amount 0 0 0 := by
  obtain ⟨hs, hf⟩ := h.pool_sound.deposit (h.room hcaller hb.pulled) hb.amount_ne hb.preview
    hb.minted_ne hb.booked
  exact h.flow_pulled hb.pulled hs hf

theorem Solvent.flow_rewarded (h : s.Solvent) (hcaller : caller ≠ s.account) {amount : Amount} {now : Nat}
    {ledger : Ledger} {schedule : VestingSchedule} {pool : SharePool}
    (hp : s.Pulled caller amount now ledger) (hd : s.pool.distribute amount now = .ok (schedule, pool)) :
    Flow s { s with ledger, pool } caller amount 0 0 0 := by
  obtain ⟨hs, hf⟩ := h.pool_sound.distribute (h.room hcaller hp.pulled) hd
  exact h.flow_pulled hp.pulled hs hf

theorem Solvent.flow_released (h : s.Solvent) (caller : Address) {account : StakeAccount}
    {shares amount : Amount} {ctx : BlockContext} {id : Nat} {vault : DelayVault} {ledger : Ledger}
    {pool : SharePool} (hr : s.Released account shares amount ctx id vault ledger pool) :
    Flow s { s with vault, ledger, pool } caller 0 amount 0 0 := by
  obtain ⟨unlockTime, -, hdeposit⟩ := hr.parked
  obtain ⟨-, -, ht, -, hvault⟩ := DelayVault.deposit_eq_ok.1 hdeposit
  obtain ⟨hs, hf⟩ := h.pool_sound.withdrawShares h.funds_lt hr.burned
  exact {
    account := rfl
    vault_account := by rw [hvault]
    pool_sound := hs
    bounded := h.bounded.transfer ht
    numbered := fun hn => (DelayVault.owed_deposit hn hdeposit).1
    balanceOf := fun a => by simpa using Ledger.balanceOf_transfer ht a
    funds := by simpa using hf
    owed := fun hn => by simpa using (DelayVault.owed_deposit hn hdeposit).2 }

theorem Solvent.flow_collected (h : s.Solvent) {id now : Nat} {payment : DelayedPayment}
    {vault : DelayVault} {ledger : Ledger}
    (hw : s.vault.withdraw s.ledger caller id now = .ok (payment, vault, ledger)) :
    Flow s { s with vault, ledger } caller 0 0 payment.amount 0 := by
  obtain ⟨-, -, -, ht, hvault⟩ := DelayVault.withdraw_eq_ok.1 hw
  exact {
    account := rfl
    vault_account := by rw [hvault]
    pool_sound := h.pool_sound
    bounded := h.bounded.transfer ht
    numbered := fun hn => (DelayVault.owed_withdraw hn hw).1
    balanceOf := fun a => by simpa using Ledger.balanceOf_transfer ht a
    funds := rfl
    owed := fun hn => by simpa using (DelayVault.owed_withdraw hn hw).2 }

/-- Every call is a flow, and only a distribution that is refused leaves something stranded. -/
theorem Solvent.flow_perform (h : s.Solvent) (hcaller : caller ≠ s.account) (ctx : BlockContext)
    (call : StakingCall) : ∃ paid parked collected stranded,
      Flow s (s.perform caller ctx call).state caller paid parked collected stranded ∧
      (stranded = 0 ∨
        (∃ amount, call = .distribute amount) ∧ (s.perform caller ctx call).result.isOk = false) := by
  have outcome := outcome_perform h hcaller ctx call
  generalize s.perform caller ctx call = x at outcome
  cases outcome with
  | refused e => exact ⟨0, 0, 0, 0, h.flow_zero _ rfl rfl rfl h.pool_sound rfl, .inl rfl⟩
  | idle => exact ⟨0, 0, 0, 0, h.flow_zero _ rfl rfl rfl h.pool_sound rfl, .inl rfl⟩
  | paidIn hb => exact ⟨_, 0, 0, 0, h.flow_booked hcaller hb, .inl rfl⟩
  | paidOut hsource hr => exact ⟨0, _, 0, 0, h.flow_released _ hr, .inl rfl⟩
  | collected hw => exact ⟨0, 0, _, 0, h.flow_collected hw, .inl rfl⟩
  | rewarded hp hd => exact ⟨_, 0, 0, 0, h.flow_rewarded hcaller hp hd, .inl rfl⟩
  | stranded hcall hp hd =>
    exact ⟨_, 0, 0, _, h.flow_pulled hp.pulled h.pool_sound rfl, .inr ⟨⟨_, hcall⟩, rfl⟩⟩
  | locked locks => exact ⟨0, 0, 0, 0, h.flow_zero _ rfl rfl rfl h.pool_sound rfl, .inl rfl⟩

/-- A change of the parameters moves nothing. -/
theorem Solvent.flow_adjust (h : s.Solvent) (caller : Address) {setting : StakingSetting}
    (hs : s.adjust setting = .ok s') : Flow s s' caller 0 0 0 0 := by
  obtain ⟨hacc, hvault, hledger, hpool | ⟨blocks, hp⟩⟩ := adjust_cases hs
  · exact h.flow_zero caller hacc hvault hledger (hpool ▸ h.pool_sound) (congrArg _ hpool)
  · obtain ⟨hsound, hfunds⟩ := h.pool_sound.setPeriod hp
    exact h.flow_zero caller hacc hvault hledger hsound hfunds

/-! ### Runs -/

theorem Solvent.follow (h : s.Solvent) {paid parked collected stranded : Nat}
    (hf : Flow s s' caller paid parked collected stranded)
    (hcaller : caller ≠ s.account ∨ paid = 0) : s'.Solvent := by
  refine ⟨hf.pool_sound, fun hsame => hf.numbered (h.numbered ?_), hf.bounded, ?_⟩
  · rw [← hf.vault_account, hsame, hf.account]
  · have hbalance := hf.balanceOf s.account
    have hfunds := hf.funds
    have hcovered := h.covered
    have hpaid : (if s.account = caller then paid else 0) = 0 := by
      rcases hcaller with hne | rfl
      · rw [if_neg (Ne.symm hne)]
      · exact ite_self _
    rw [hpaid] at hbalance
    simp only [sharedDebt, hf.account, hf.vault_account] at hcovered ⊢
    simp only [↓reduceIte] at hbalance
    by_cases hsame : s.vault.account = s.account
    · -- what is parked stays on the account, and the vault owes it
      have howed := hf.owed (h.numbered hsame)
      simp only [hsame, ↓reduceIte] at hbalance hcovered ⊢
      lia
    · simp only [hsame, Ne.symm hsame, ↓reduceIte] at hbalance hcovered ⊢
      lia

theorem Solvent.after (h : s.Solvent) {step : StakingStep}
    (hs : step.Permitted s.account s.vault.account) :
    (s.after step).account = s.account ∧ (s.after step).vault.account = s.vault.account ∧
      (s.after step).Solvent := by
  cases step with
  | call caller call ctx =>
    obtain ⟨_, _, _, _, hf, -⟩ := h.flow_perform hs.1 ctx call
    exact ⟨hf.account, hf.vault_account, h.follow hf (.inl hs.1)⟩
  | set setting =>
    simp only [Staking.after]
    cases ha : s.adjust setting with
    | error e => exact ⟨rfl, rfl, h⟩
    | ok s' =>
      have hf := h.flow_adjust s.account ha
      exact ⟨hf.account, hf.vault_account, h.follow hf (.inr rfl)⟩
  | outside step =>
    refine ⟨rfl, rfl, h.pool_sound, h.numbered, h.bounded.after step, ?_⟩
    exact h.covered.trans (Ledger.balanceOf_le_after hs.1)

/-- After the first of some permitted steps the state is solvent, and the others are permitted. -/
theorem Solvent.next (h : s.Solvent) {step : StakingStep} {steps : List StakingStep}
    (hs : ∀ t ∈ step :: steps, t.Permitted s.account s.vault.account) :
    (s.after step).Solvent ∧
      ∀ t ∈ steps, t.Permitted (s.after step).account (s.after step).vault.account := by
  obtain ⟨hacc, hvault, h'⟩ := h.after (hs step (by simp))
  refine ⟨h', fun t ht => ?_⟩
  rw [hacc, hvault]
  exact hs t (by simp [ht])

theorem Solvent.run {steps : List StakingStep} : ∀ {s : Staking}, s.Solvent →
    (∀ step ∈ steps, step.Permitted s.account s.vault.account) →
    (s.run steps).account = s.account ∧ (s.run steps).vault.account = s.vault.account ∧
      (s.run steps).Solvent := by
  induction steps with
  | nil =>
    intro s h _
    exact ⟨rfl, rfl, h⟩
  | cons step steps ih =>
    intro s h hs
    obtain ⟨hacc, hvault, -⟩ := h.after (hs step (by simp))
    obtain ⟨h', hrest⟩ := h.next hs
    obtain ⟨hacc', hvault', h''⟩ := ih h' hrest
    exact ⟨hacc'.trans hacc, hvault'.trans hvault, h''⟩

/-- Staking starts solvent over an empty ledger, if its vault has an account of its own or is empty. -/
theorem solvent_new {account : Address} {params : StakingParams} {vault : DelayVault}
    (hvault : vault.account ≠ account ∨ vault = .new vault.account)
    (hs : Staking.new account params .empty vault = .ok s) :
    s.account = account ∧ s.vault = vault ∧ s.Solvent := by
  obtain ⟨pool, hp, rfl⟩ := new_eq_ok hs
  obtain ⟨hsound, hfunds⟩ := SharePool.Sound.new hp
  refine ⟨rfl, rfl, hsound, fun hsame => ?_, Ledger.bounded_empty, ?_⟩
  · rcases hvault with hne | hnew
    · exact absurd hsame hne
    · show vault.Numbered
      rw [hnew]
      exact DelayVault.numbered_new _
  · show pool.funds + (if vault.account = account then vault.owed else 0) ≤ 0
    rcases hvault with hne | hnew
    · rw [if_neg hne, hfunds]
    · rw [hfunds, hnew, DelayVault.owed_new, ite_self]

/-- Staking with an empty vault starts solvent over any ledger whose balances are amounts. -/
theorem solvent_new_of_bounded {account vaultAccount : Address} {params : StakingParams} {ledger : Ledger}
    (hb : ledger.Bounded) (hs : Staking.new account params ledger (.new vaultAccount) = .ok s) :
    s.account = account ∧ s.vault.account = vaultAccount ∧ s.Solvent := by
  obtain ⟨pool, hp, rfl⟩ := new_eq_ok hs
  obtain ⟨hsound, hfunds⟩ := SharePool.Sound.new hp
  refine ⟨rfl, rfl, hsound, fun _ => DelayVault.numbered_new _, hb, ?_⟩
  show pool.funds + (if vaultAccount = account then (DelayVault.new vaultAccount).owed else 0) ≤ _
  rw [hfunds, DelayVault.owed_new, ite_self]
  exact Nat.zero_le _

end PriceOracle.Staking
