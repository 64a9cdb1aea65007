import PriceOracle.Proofs.Network.Lawful
/-! A seat is lost only through one's own withdrawal. Between two switches of a pair's round, members keep
their seats and points through whatever others do; the first step after which an owner is out of the round
is an accepted withdrawal of its own from its own account. -/
namespace PriceOracle.Network

variable {n : Network} {pair : CoinPair}

/-- No step of a run switches the pair's round. -/
def Journal.Unswitched (pair : CoinPair) : Journal → List Step → Prop
  | _, [] => True
  | j, step :: steps => ¬ step.Switches j.network pair ∧ Unswitched pair (j.after step) steps

/-- The first step that takes an owner's seat is a withdrawal of its own. -/
theorem Current.seats_run {steps : List Step} (owner : Address) : ∀ {j : Journal} {now : Nat},
    j.network.Current now → j.Lawful now steps → j.Unswitched pair steps →
    j.network.Retains (steps.foldl Journal.after j).network pair owner ∨
      ∃ before step after, steps = before ++ step :: after ∧
        let j' := before.foldl Journal.after j
        j.network.Retains j'.network pair owner ∧ step.Withdraws j'.network owner ∧
          j'.network.Leaves (j'.after step).network pair owner := by
  induction steps with
  | nil => exact fun _ _ _ => .inl (.refl _ pair owner)
  | cons step steps ih =>
    intro j now h hl hkeep
    rcases h.seats_step hl.1 hkeep.1 owner with hkept | ⟨hown, hleaves⟩
    · rcases ih (h.step hl.1) hl.2 hkeep.2 with hkept' | ⟨before, s, after, rfl, hkept', hlost⟩
      · exact .inl (hkept.trans hkept')
      · exact .inr ⟨step :: before, s, after, rfl, hkept.trans hkept', hlost⟩
    · exact .inr ⟨[], step, steps, rfl, .refl _ pair owner, hown, hleaves⟩

/-- In a lawful run of a new network, while a pair's round is not switched: an owner with a seat in it keeps
the seat, with no fewer points, up to an accepted withdrawal of its own, from its own account, by which it
leaves the round. -/
theorem tenure_run {params : NetworkParams} {ledger : Ledger} (hledger : ledger.Balanced)
    (hn : Network.new params ledger = .ok n) (past steps : List Step)
    (hl : Journal.Lawful ⟨[], n⟩ 0 (past ++ steps)) (hkeep : (n.run past).Unswitched pair steps)
    (owner : Address) :
    (n.run past).network.Retains (n.run (past ++ steps)).network pair owner ∨
      ∃ before step after, steps = before ++ step :: after ∧
        let m := (n.run (past ++ before)).network
        (n.run past).network.Retains m pair owner ∧ step.Withdraws m owner ∧
          m.Leaves (n.run (past ++ before ++ [step])).network pair owner := by
  obtain ⟨now, h, hl⟩ := Current.of_lawful hledger hn hl
  simp only [run, List.foldl_append] at h hl hkeep ⊢
  exact h.seats_run owner hl hkeep

/-- In the second round a rival who stakes more takes the only place on the list, a reward vests, and the
stake that a subscription takes is raised beyond both. The first oracle keeps the only seat. -/
theorem tenure_run_of_rival :
    let governor := Address.ofNat 1
    let owner := Address.ofNat 2
    let rival := Address.ofNat 3
    let pair : CoinPair := default
    let ledger : Ledger :=
      ⟨((Table.empty.insert governor 15).insert owner 5).insert rival 10, .empty, 30⟩
    let staking : Staking :=
      ⟨stakingAccount, ⟨.empty, 0, 0, .none, 0, 10⟩, ledger, .new vaultAccount, 3600, .empty, .empty, .empty⟩
    let n : Network := ⟨.empty, staking, .empty, ⟨0, 1⟩, .governor governor, []⟩
    let params : RoundParams := { minOracles := 1, maxOracles := 1, maxSubscribed := 1 }
    let past : List Step := [
      .command (.act governor (.executeChange (.registerPair pair params))) ⟨1, 10⟩,
      .command (.act owner (.approve 5)) ⟨2, 20⟩,
      .command (.act owner (.deposit 5 none)) ⟨3, 30⟩,
      .command (.act owner (.registerOracle owner "host")) ⟨4, 40⟩,
      .command (.act owner (.subscribe pair)) ⟨5, 50⟩,
      .command (.act owner (.switchRound pair)) ⟨6, 60⟩]
    let steps : List Step := [
      .command (.act rival (.registerOracle rival "host")) ⟨7, 70⟩,
      .command (.act rival (.approve 10)) ⟨8, 80⟩,
      .command (.act rival (.deposit 10 none)) ⟨9, 90⟩,
      .command (.act rival (.subscribe pair)) ⟨10, 100⟩,
      .command (.act governor (.approve 15)) ⟨11, 110⟩,
      .command (.act governor (.distribute 15)) ⟨12, 120⟩,
      .command (.act governor (.executeChange (.setMinSubscriptionStake 50))) ⟨13, 130⟩,
      .refreshStakes ⟨15, 150⟩]
    ledger.Balanced ∧ Network.new { governor } ledger = .ok n ∧
      Journal.Lawful ⟨[], n⟩ 0 (past ++ steps) ∧ (n.run past).Unswitched pair steps ∧
      (n.run past).network.Retains (n.run (past ++ steps)).network pair owner ∧
      ((n.run past).network.feeds.get? pair).map (fun f => (f.round.number, f.round.owners))
        = some (2, [owner]) ∧
      ((n.run (past ++ steps)).network.feeds.get? pair).map
        (fun f => (f.round.number, f.round.owners, f.subscribed.keys)) = some (2, [owner], [rival]) := by
  intro governor owner rival pair ledger staking n params past steps
  have hn : Network.new { governor } ledger = .ok n := new_of_governor rfl ledger
  have hledger : ledger.Balanced := by decide
  have hfees : pair.feeAccount ≠ stakingAccount ∧ pair.feeAccount ≠ vaultAccount := by
    rw [CoinPair.feeAccount, keccak256_eq, stakingAccount_eq, vaultAccount_eq]
    decide +kernel
  have hl : Journal.Lawful ⟨[], n⟩ 0 (past ++ steps) := by
    simp [past, steps, Journal.Lawful, Step.Lawful, Step.block, Command.Permitted, Command.caller?,
      Command.switched?, hfees]
    simp [stakingAccount_eq, vaultAccount_eq, governor, owner, rival, Address.ofNat]
  have hkeep : (n.run past).Unswitched pair steps := by
    simp [steps, Journal.Unswitched, Step.Switches, Command.switched?]
  have hseats : ((n.run past).network.feeds.get? pair).map (fun f => (f.round.number, f.round.owners))
      = some (2, [owner]) ∧
      ((n.run (past ++ steps)).network.feeds.get? pair).map
        (fun f => (f.round.number, f.round.owners, f.subscribed.keys)) = some (2, [owner], [rival]) := by
    simp only [n, staking, stakingAccount_eq, vaultAccount_eq]
    decide +kernel
  refine ⟨hledger, hn, hl, hkeep, ?_, hseats⟩
  rcases tenure_run hledger hn past steps hl hkeep owner with hkept | ⟨before, step, after, heq, -, hown, -⟩
  · exact hkept
  · have hnone : ∀ step ∈ steps, ∀ m, ¬ step.Withdraws m owner := by
      simp [steps, Step.Withdraws, Command.withdrawer?]
    exact absurd hown (hnone step (by simp [heq]) _)

end PriceOracle.Network
