import PriceOracle.Proofs.Network.Turns
/-! Lawful runs: nobody acts for the accounts of staking, no fees that a switch pays out are theirs, and
blocks do not go back. Along such a run stakes are current throughout, so every command is a turn. -/
namespace PriceOracle

/-! ### Commands -/

namespace Command

/-- The pair whose round a command asks to switch. -/
def switched? : Command → Option CoinPair
  | .act _ (.switchRound pair) => some pair
  | _ => none

/-- The owner who asks, in its own name, for a withdrawal from its own account. -/
def withdrawer? : Command → Option Address
  | .act caller (.withdraw _) | .act caller (.withdrawShares _) => some caller
  | .act caller (.withdrawFrom _ subaccount) => if subaccount = caller then some caller else none
  | _ => none

/-- The command is in the name of neither the pool nor the vault, and pays out fees of neither. -/
def Permitted (c : Command) : Prop :=
  (∀ caller ∈ c.caller?, caller ≠ stakingAccount ∧ caller ≠ vaultAccount) ∧
    ∀ pair ∈ c.switched?, pair.feeAccount ≠ stakingAccount ∧ pair.feeAccount ≠ vaultAccount

instance (c : Command) : Decidable c.Permitted := inferInstanceAs (Decidable (_ ∧ _))

end Command

namespace Network

variable {n n' : Network} {now : Nat} {ctx : BlockContext}

/-- Stake of the caller's own account is taken by its withdrawals alone. -/
theorem withdrawer?_of_source? {caller owner : Address} {action : Action} {call : StakingCall}
    (hcall : action.staking? caller = some call) (hsource : call.source? caller = some (.own owner)) :
    owner = caller ∧ (Command.act caller action).withdrawer? = some owner := by
  cases action <;> cases hcall <;> cases hsource
  case withdraw => exact ⟨rfl, rfl⟩
  case withdrawFrom => exact ⟨rfl, if_pos rfl⟩
  case withdrawShares => exact ⟨rfl, rfl⟩

theorem Outcome.turn (h : n.Current now) (hnow : now ≤ ctx.number) {c : Command} (hc : c.Permitted)
    {accepted : Bool} (ho : n.Outcome ctx c accepted n') :
    Turn n ctx (c.switched? = some ·) (c.withdrawer? = some ·) accepted n' := by
  have hm := h.inOrder.mirrored
  obtain ⟨hcaller, hfees⟩ := hc
  cases ho with
  | refused _ | read _ => exact .unchanged h hnow _
  | refusedLate _ | readLate _ =>
    rw [h.refreshStakes_eq hnow]
    exact .refreshed h hnow _
  | registered hr => exact (Turn.registered h hnow hr).record _
  | renamed hr => exact (Turn.renamed h hnow hr).record _
  | removed hr hidle => exact (Turn.removed h hnow hr hidle).record _
  | subscribed htracked hf hs =>
    rw [h.refreshStakes_eq hnow] at hf hs ⊢
    exact (Turn.subscribed h hnow hf hs).record _
  | unsubscribed hf hlisted hregistered => exact (Turn.unsubscribed h hnow hf hlisted).record _
  | @unlisted caller pair f hf hlisted =>
    rw [show n.withFeed f = n from congrArg ({ n with feeds := · }) (insert_of_get? hm hf)]
    exact .unchanged h hnow _
  | @unknown caller pair f hf hlisted hnone =>
    -- whoever is subscribed is registered
    have hregistered := hm.isRegistered hf caller hlisted
    rw [Registry.isRegistered, hnone] at hregistered
    cases hregistered
  | approved caller amount => exact .aside ((h.mono hnow).withLedger h.solvent.bounded (Nat.le_refl _)) rfl
  | stakingRefused hcall hs => exact .stakingRefused h hnow (hcaller _ rfl) hs
  | @staked caller action call staking events hcall hkept hs hevents =>
    have hsource : call.source? caller = none := by cases call <;> first | rfl | cases hkept
    exact (Turn.staked h hnow (hcaller caller rfl) hs fun owner => by simp [hsource]).record events
  | restaked hcall hmoves hs hevents =>
    exact .restaked h hnow (hcaller _ rfl) hs (fun owner => withdrawer?_of_source? hcall) _
  | @published caller m signatures f f' outcome hf hp =>
    have heffect : f.Effect (.publish caller m signatures ctx : PriceFeed.Call Ledger) f' := .published hp
    exact (Turn.called h hnow hf heffect trivial fun _ => trivial).record _
  | @emergency caller pair price f f' hf hp =>
    have heffect : f.Effect (.emergencyPublish caller price ctx : PriceFeed.Call Ledger) f' := .emergency hp
    exact (Turn.called h hnow hf heffect trivial fun _ => trivial).record _
  | @switched caller pair f f' ledger outcome htracked hf hs =>
    rw [h.refreshStakes_eq hnow] at hf hs ⊢
    have hswitches : (Command.act caller (.switchRound pair)).switched? = some pair := rfl
    exact (Turn.switched h hnow (hfees pair rfl).1 hswitches hf hs).record _
  | @switchRefused caller pair f ledger e htracked hf hs =>
    rw [h.refreshStakes_eq hnow] at hf hs ⊢
    exact .switchRefused h hnow (hfees pair rfl).1 hf hs
  | changed hauthorized hchanged => exact (hchanged.turn h hnow).record _

theorem Current.turn_command (h : n.Current now) (hnow : now ≤ ctx.number) {c : Command}
    (hc : c.Permitted) :
    Turn n ctx (c.switched? = some ·) (c.withdrawer? = some ·) (c.run n ctx).result.isOk (c.run n ctx).state :=
  (n.outcome_run c ctx).turn h hnow hc

/-! ### Steps -/

namespace Step

/-- The block at which the chain stands after a step, if it stood at block `now` before. -/
def block (now : Nat) : Step → Nat
  | .command _ ctx | .refreshStakes ctx => ctx.number
  | .outside _ | .authorize _ | .drain => now

/-- Commands are permitted and blocks do not go back. What account holders do on the ledger by themselves
is a step of the ledger that spares the accounts of staking. -/
def Lawful (n : Network) (now : Nat) : Step → Prop
  | .command c ctx => c.Permitted ∧ now ≤ ctx.number
  | .refreshStakes ctx => now ≤ ctx.number
  | .outside ledger => ∃ step : LedgerStep, ledger = n.ledger.after step ∧
      step.Spares stakingAccount ∧ step.Spares vaultAccount
  | .authorize _ | .drain => True

def Switches (n : Network) (pair : CoinPair) : Step → Prop
  | .command c ctx => c.switched? = some pair ∧ (c.run n ctx).result.isOk
  | _ => False

/-- The step is an accepted withdrawal of an owner's from its own account. -/
def Withdraws (n : Network) (owner : Address) : Step → Prop
  | .command c ctx => c.withdrawer? = some owner ∧ (c.run n ctx).result.isOk
  | _ => False

end Step

theorem Current.step {j : Journal} (h : j.network.Current now) {step : Step}
    (hs : step.Lawful j.network now) : (j.after step).network.Current (step.block now) := by
  cases step with
  | command c ctx => exact (h.turn_command hs.2 hs.1).current
  | refreshStakes ctx =>
    show (j.network.refreshStakes ctx).Current ctx.number
    rw [h.refreshStakes_eq hs]
    exact h.restaked hs
  | outside ledger =>
    obtain ⟨step, rfl, hspares⟩ := hs
    obtain ⟨haccount, hvault, hsolvent, -⟩ := h.after (.outside step) hspares (Nat.le_refl now)
    exact h.withStaking haccount hvault hsolvent h.stake_le
  | authorize authorizer | drain => exact h.congr rfl rfl rfl

/-- In a lawful step that does not switch a pair's round, a seat in it is kept, unless its owner withdraws. -/
theorem Current.seats_step {j : Journal} (h : j.network.Current now) {step : Step}
    (hs : step.Lawful j.network now) {pair : CoinPair} (hkeep : ¬ step.Switches j.network pair)
    (owner : Address) : j.network.Retains (j.after step).network pair owner ∨
      step.Withdraws j.network owner ∧ j.network.Leaves (j.after step).network pair owner := by
  cases step with
  | command c ctx =>
    rcases (h.turn_command hs.2 hs.1).seats pair owner with hkept | ⟨hok, hswitch | ⟨hown, hleaves⟩⟩
    · exact .inl hkept
    · exact absurd ⟨hswitch, hok⟩ hkeep
    · exact .inr ⟨⟨hown, hok⟩, hleaves⟩
  | refreshStakes ctx =>
    have hsame : (j.network.refreshStakes ctx).feeds = j.network.feeds := by
      rw [h.refreshStakes_eq hs]
    exact .inl (.of_feeds_eq hsame pair owner)
  | outside ledger | authorize authorizer | drain => exact .inl (.of_feeds_eq rfl pair owner)

/-! ### Runs -/

def Journal.Lawful : Journal → Nat → List Step → Prop
  | _, _, [] => True
  | j, now, step :: steps => step.Lawful j.network now ∧ Lawful (j.after step) (step.block now) steps

theorem Journal.lawful_append {past steps : List Step} : ∀ {j : Journal} {now : Nat},
    j.Lawful now (past ++ steps) ↔ j.Lawful now past ∧
      (past.foldl after j).Lawful (past.foldl (fun now step => step.block now) now) steps := by
  induction past with
  | nil => exact fun {j now} => ⟨fun h => ⟨trivial, h⟩, And.right⟩
  | cons step past ih =>
    intro j now
    exact ⟨fun ⟨hs, h⟩ => ⟨⟨hs, (ih.1 h).1⟩, (ih.1 h).2⟩, fun ⟨⟨hs, h⟩, h'⟩ => ⟨hs, ih.2 ⟨h, h'⟩⟩⟩

theorem Current.run {steps : List Step} : ∀ {j : Journal} {now : Nat}, j.network.Current now →
    j.Lawful now steps → (steps.foldl Journal.after j).network.Current
      (steps.foldl (fun now step => step.block now) now) := by
  induction steps with
  | nil => exact fun h _ => h
  | cons step steps ih => exact fun h hl => ih (h.step hl.1) hl.2

/-- After a lawful run of a new network, what comes next begins with current stakes. -/
theorem Current.of_lawful {params : NetworkParams} {ledger : Ledger} (hledger : ledger.Balanced)
    (hn : Network.new params ledger = .ok n) {past steps : List Step}
    (hl : Journal.Lawful ⟨[], n⟩ 0 (past ++ steps)) :
    ∃ now, (n.run past).network.Current now ∧ (n.run past).Lawful now steps := by
  obtain ⟨hpast, hsteps⟩ := Journal.lawful_append.1 hl
  exact ⟨_, (current_new hledger hn).run hpast, hsteps⟩

end Network

end PriceOracle
