import PriceOracle.Proofs.Staking.ExchangeRate
import PriceOracle.Proofs.Staking.Solvency
/-! Holders are protected from each other. Whatever others deposit, withdraw, distribute or lock, and
however blocks pass, an account from which its owner withdraws nothing keeps its shares, and they never
get worth less: each step compares one state of the pool with the next, and a run chains the steps. -/
namespace PriceOracle

/-! ### Time -/

/-- The block at which the chain stands after a step, if it stood at block `now` before. -/
def StakingStep.block (now : Nat) : StakingStep → Nat
  | .call _ _ ctx => ctx.number
  | .set _ | .outside _ => now

/-- From block `now` to block `later` the calls of a run never go back. -/
def Ascending : Nat → List StakingStep → Nat → Prop
  | now, [], later => now ≤ later
  | now, step :: steps, later => now ≤ step.block now ∧ Ascending (step.block now) steps later

instance decidableAscending : (now : Nat) → (steps : List StakingStep) → (later : Nat) →
    Decidable (Ascending now steps later)
  | now, [], later => inferInstanceAs (Decidable (now ≤ later))
  | now, step :: steps, later =>
    have := decidableAscending (step.block now) steps later
    inferInstanceAs (Decidable (now ≤ step.block now ∧ Ascending (step.block now) steps later))

namespace Staking

variable {s : Staking}

/-- The step is an accepted withdrawal from an account. -/
def TakesFrom (s : Staking) (holder : StakeAccount) : StakingStep → Prop
  | .call caller call ctx => call.source? caller = some holder ∧ (s.perform caller ctx call).result.isOk
  | .set _ | .outside _ => False

/-- A run in which nothing is withdrawn from an account. -/
def Untouched (holder : StakeAccount) : Staking → List StakingStep → Prop
  | _, [] => True
  | s, step :: steps => ¬ s.TakesFrom holder step ∧ Untouched holder (s.after step) steps

/-- A run throughout which somebody holds shares. -/
def Outstanding : Staking → List StakingStep → Prop
  | s, [] => 0 < s.pool.totalShares
  | s, step :: steps => 0 < s.pool.totalShares ∧ Outstanding (s.after step) steps

instance (s : Staking) (holder : StakeAccount) : (step : StakingStep) →
    Decidable (s.TakesFrom holder step)
  | .call caller call ctx => inferInstanceAs (Decidable (call.source? caller = some holder ∧
      (s.perform caller ctx call).result.isOk))
  | .set _ | .outside _ => .isFalse id

instance decidableUntouched (holder : StakeAccount) :
    (s : Staking) → (steps : List StakingStep) → Decidable (s.Untouched holder steps)
  | _, [] => .isTrue trivial
  | s, step :: steps =>
    have := decidableUntouched holder (s.after step) steps
    inferInstanceAs (Decidable (¬ s.TakesFrom holder step ∧ Untouched holder (s.after step) steps))

instance decidableOutstanding : (s : Staking) → (steps : List StakingStep) →
    Decidable (s.Outstanding steps)
  | s, [] => inferInstanceAs (Decidable (0 < s.pool.totalShares))
  | s, step :: steps =>
    have := decidableOutstanding (s.after step) steps
    inferInstanceAs (Decidable (0 < s.pool.totalShares ∧ Outstanding (s.after step) steps))

/-! ### Steps -/

/-- No permitted step makes a share worth less, and only an accepted withdrawal from an account takes
shares from it. -/
theorem Solvent.worthLe_after (h : s.Solvent) {step : StakingStep}
    (hs : step.Permitted s.account s.vault.account) {now : Nat} (hnow : now ≤ step.block now) :
    s.pool.WorthLe now (s.after step).pool (step.block now) ∧
      ∀ holder, ¬ s.TakesFrom holder step →
        s.pool.sharesOf holder ≤ (s.after step).pool.sharesOf holder := by
  have hidle : s.pool.WorthLe now s.pool (step.block now) :=
    SharePool.WorthLe.rfl.mono (Nat.le_refl _) hnow
  cases step with
  | call caller call ctx =>
    have outcome := outcome_perform h hs.1 ctx call
    simp only [Staking.after, TakesFrom]
    generalize s.perform caller ctx call = x at outcome
    cases outcome with
    | refused e => exact ⟨hidle, fun _ _ => Nat.le_refl _⟩
    | idle => exact ⟨hidle, fun _ _ => Nat.le_refl _⟩
    | paidIn hb =>
      obtain ⟨hw, hshares⟩ := h.pool_sound.worthLe_deposit (h.room hs.1 hb.pulled) hb.amount_ne
        hb.preview hb.minted_ne hb.booked
      exact ⟨hw.mono hnow (Nat.le_refl _), fun holder _ => hshares holder⟩
    | paidOut hsource hr =>
      obtain ⟨hw, hshares⟩ := SharePool.worthLe_withdrawShares h.funds_lt hr.burned
      refine ⟨hw.mono hnow (Nat.le_refl _), fun holder hkept => Nat.le_of_eq (hshares holder ?_).symm⟩
      rintro rfl
      exact hkept ⟨hsource, rfl⟩
    | collected hw => exact ⟨hidle, fun _ _ => Nat.le_refl _⟩
    | rewarded hp hd =>
      obtain ⟨hw, hshares⟩ := SharePool.worthLe_distribute h.funds_lt hd
      exact ⟨hw.mono hnow (Nat.le_refl _), fun holder _ => Nat.le_of_eq (hshares holder).symm⟩
    | stranded hcall hp hd => exact ⟨hidle, fun _ _ => Nat.le_refl _⟩
    | locked locks => exact ⟨hidle, fun _ _ => Nat.le_refl _⟩
  | set setting =>
    simp only [Staking.after]
    cases ha : s.adjust setting with
    | error e => exact ⟨hidle, fun _ _ => Nat.le_refl _⟩
    | ok s' =>
      show s.pool.WorthLe now s'.pool now ∧ ∀ holder, _ → s.pool.sharesOf holder ≤ s'.pool.sharesOf holder
      obtain ⟨-, -, -, hpool | ⟨blocks, hp⟩⟩ := adjust_cases ha
      · rw [hpool]
        exact ⟨hidle, fun _ _ => Nat.le_refl _⟩
      · obtain ⟨hw, hshares⟩ := SharePool.worthLe_setPeriod hp
        exact ⟨hw, fun holder _ => Nat.le_of_eq (hshares holder).symm⟩
  | outside step => exact ⟨hidle, fun _ _ => Nat.le_refl _⟩

/-! ### Runs -/

theorem Solvent.kept_run {holder : StakeAccount} {later : Nat} {steps : List StakingStep} :
    ∀ {s : Staking} {now : Nat}, s.Solvent →
    (∀ step ∈ steps, step.Permitted s.account s.vault.account) → Ascending now steps later →
    s.Untouched holder steps →
    s.pool.sharesOf holder ≤ (s.run steps).pool.sharesOf holder ∧
      s.pool.balanceOf holder now ≤ (s.run steps).pool.balanceOf holder later := by
  induction steps with
  | nil =>
    intro s now h _ hnow _
    have hw : s.pool.WorthLe now s.pool later := SharePool.WorthLe.rfl.mono (Nat.le_refl _) hnow
    exact ⟨Nat.le_refl _, hw.balanceOf_le h.pool_sound.tallied h.pool_sound.tallied (Nat.le_refl _)⟩
  | cons step steps ih =>
    intro s now h hs hasc hkept
    obtain ⟨h', hrest⟩ := h.next hs
    obtain ⟨hw, hshares⟩ := h.worthLe_after (hs step (by simp)) hasc.1
    have hle := hshares holder hkept.1
    obtain ⟨hshares', hbalance'⟩ := ih h' hrest hasc.2 hkept.2
    exact ⟨hle.trans hshares',
      (hw.balanceOf_le h.pool_sound.tallied h'.pool_sound.tallied hle).trans hbalance'⟩

/-- What a share is worth over a run throughout which somebody holds shares. -/
theorem Solvent.worthLe_run {later : Nat} {steps : List StakingStep} : ∀ {s : Staking} {now : Nat},
    s.Solvent → (∀ step ∈ steps, step.Permitted s.account s.vault.account) →
    Ascending now steps later → s.Outstanding steps →
    s.pool.WorthLe now (s.run steps).pool later := by
  induction steps with
  | nil =>
    intro s now _ _ hnow _
    exact SharePool.WorthLe.rfl.mono (Nat.le_refl _) hnow
  | cons step steps ih =>
    intro s now h hs hasc hout
    obtain ⟨h', hrest⟩ := h.next hs
    have hpos : 0 < (s.after step).pool.totalShares := by
      cases steps with
      | nil => exact hout.2
      | cons next rest => exact hout.2.1
    exact (h.worthLe_after (hs step (by simp)) hasc.1).1.trans (ih h' hrest hasc.2 hout.2) hpos

/-! ### Protection -/

/-- After any past, over any run of permitted steps at blocks that do not go back: an account from which
nothing is withdrawn has at the end no fewer shares and no smaller balance than at the start; and while
somebody holds shares, the collateral available for each does not shrink. -/
theorem holder_protected {account : Address} {params : StakingParams} {vault : DelayVault}
    (hne : vault.account ≠ account) (hs : Staking.new account params .empty vault = .ok s)
    (past steps : List StakingStep)
    (hsteps : ∀ step ∈ past ++ steps, step.Permitted account vault.account) {now later : Nat}
    (hblocks : Ascending now steps later) :
    (∀ holder, (s.run past).Untouched holder steps →
      (s.run past).pool.sharesOf holder ≤ ((s.run past).run steps).pool.sharesOf holder ∧
        (s.run past).pool.balanceOf holder now
          ≤ ((s.run past).run steps).pool.balanceOf holder later) ∧
      ((s.run past).Outstanding steps →
        (s.run past).pool.available now * ((s.run past).run steps).pool.totalShares
          ≤ ((s.run past).run steps).pool.available later * (s.run past).pool.totalShares) := by
  obtain ⟨rfl, rfl, hnew⟩ := solvent_new (.inl hne) hs
  obtain ⟨hacc, hvault, h⟩ := hnew.run fun step hstep => hsteps step (List.mem_append_left _ hstep)
  have hrest : ∀ step ∈ steps, step.Permitted (s.run past).account (s.run past).vault.account := by
    intro step hstep
    rw [hacc, hvault]
    exact hsteps step (List.mem_append_right _ hstep)
  exact ⟨fun holder hkept => h.kept_run hrest hblocks hkept,
    fun hout => h.worthLe_run hrest hblocks hout⟩

/-- While one holder's own withdrawal is refused, another deposits, pays a reward, and leaves again. -/
theorem holder_protected_of_reward :
    let pool := Address.ofNat 1
    let vault := Address.ofNat 2
    let holder := Address.ofNat 3
    let other := Address.ofNat 4
    let s : Staking :=
      ⟨pool, ⟨.empty, 0, 0, .none, 0, 10⟩, .empty, .new vault, 3600, .empty, .empty, .empty⟩
    let past : List StakingStep := [
      .outside (.mint holder 100),
      .outside (.approve holder pool 100),
      .call holder (.deposit 100 holder) ⟨1, 15⟩]
    let steps : List StakingStep := [
      .outside (.mint other 60),
      .outside (.approve other pool 60),
      .call other (.deposit 50 other) ⟨2, 30⟩,
      .call other (.distribute 10) ⟨3, 45⟩,
      .call holder (.withdrawShares 101) ⟨5, 75⟩,
      .call other (.withdraw 60) ⟨7, 105⟩]
    vault ≠ pool ∧ Staking.new pool {} .empty (.new vault) = .ok s ∧
      (∀ step ∈ past ++ steps, step.Permitted pool vault) ∧ Ascending 1 steps 20 ∧
      (s.run past).Untouched (.own holder) steps ∧ (s.run past).Outstanding steps ∧
      (s.run past).pool.balanceOf (.own holder) 1
        ≤ ((s.run past).run steps).pool.balanceOf (.own holder) 20 ∧
      (s.run past).pool.balanceOf (.own holder) 1 = 100 ∧
      ((s.run past).run steps).pool.balanceOf (.own holder) 20 = 109 := by
  intro pool vault holder other s past steps
  have hne : vault ≠ pool := by decide
  have hs : Staking.new pool {} .empty (.new vault) = .ok s := rfl
  have hsteps : ∀ step ∈ past ++ steps, step.Permitted pool vault := by decide
  have hblocks : Ascending 1 steps 20 := by decide
  have hkept : (s.run past).Untouched (.own holder) steps := by decide +kernel
  have hout : (s.run past).Outstanding steps := by decide +kernel
  obtain ⟨hholders, -⟩ := holder_protected hne hs past steps hsteps hblocks
  exact ⟨hne, hs, hsteps, hblocks, hkept, hout, (hholders _ hkept).2, by decide +kernel,
    by decide +kernel⟩

end Staking

end PriceOracle
