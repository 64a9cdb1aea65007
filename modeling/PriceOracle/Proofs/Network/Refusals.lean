import PriceOracle.Proofs.Network.Lawful
/-! A refused command records nothing. Stakes may be brought up to date before a command fails its checks,
but where they are current none of them drops, so nobody is expelled and no seat is passed on meanwhile. -/
namespace PriceOracle.Network

variable {n : Network}

/-- A command that is refused after a lawful run of a new network has recorded no event and has left the feeds,
the terms and the authorizer as they were, and of staking everything but the ledger. Of the registry it has
left everything, or everything but stakes, and these are then what the owners' own accounts are worth. -/
theorem unrecorded_run {params : NetworkParams} {ledger : Ledger} (hledger : ledger.Balanced)
    (hn : Network.new params ledger = .ok n) (steps : List Step) (command : Command) (ctx : BlockContext)
    (hl : Journal.Lawful ⟨[], n⟩ 0 (steps ++ [.command command ctx]))
    (hrefused : ¬ (command.run (n.run steps).network ctx).result.isOk) :
    let m := (n.run steps).network
    let m' := (command.run m ctx).state
    m'.events = m.events ∧ m'.feeds = m.feeds ∧ m'.policy = m.policy ∧ m'.authorizer = m.authorizer ∧
      m'.staking = { m.staking with ledger := m'.staking.ledger } ∧
      m'.registry.identities.Perm m.registry.identities ∧
      ((∀ owner, m'.registry.get? owner = m.registry.get? owner) ∨
        ∀ owner, m'.registry.get? owner
          = (m.registry.get? owner).map ({ · with stake := m.staking.balance owner ctx })) := by
  intro m m'
  obtain ⟨now, hm, ⟨hcommand, hnow⟩, -⟩ := Current.of_lawful hledger hn hl
  have hu : m.registry.Unambiguous := hm.inOrder.mirrored.unambiguous
  have h : m.Unrecorded ctx m' := (hm.turn_command hnow hcommand).refused (eq_false_of_ne_true hrefused)
  refine ⟨h.events, h.feeds, h.policy, h.authorizer, h.staking, ?_⟩
  rcases h.registry with hsame | hrestaked
  · rw [hsame]
    exact ⟨.refl _, .inl fun _ => rfl⟩
  · rw [hrestaked]
    exact ⟨perm_restaked hu ctx, .inr (get?_restaked hu ctx)⟩

/-- A reward has been vesting when the only subscriber subscribes once more. That is refused, and all it
leaves is the higher stake. -/
theorem unrecorded_run_of_reward :
    let governor := Address.ofNat 1
    let owner := Address.ofNat 2
    let pair : CoinPair := default
    let ledger : Ledger := ⟨(Table.empty.insert governor 15).insert owner 5, .empty, 20⟩
    let staking : Staking :=
      ⟨stakingAccount, ⟨.empty, 0, 0, .none, 0, 10⟩, ledger, .new vaultAccount, 3600, .empty, .empty, .empty⟩
    let n : Network := ⟨.empty, staking, .empty, ⟨0, 1⟩, .governor governor, []⟩
    let steps : List Step := [
      .command (.act governor (.executeChange (.registerPair pair {}))) ⟨1, 10⟩,
      .command (.act owner (.approve 5)) ⟨2, 20⟩,
      .command (.act owner (.deposit 5 none)) ⟨3, 30⟩,
      .command (.act owner (.registerOracle owner "host")) ⟨4, 40⟩,
      .command (.act owner (.subscribe pair)) ⟨5, 50⟩,
      .command (.act governor (.approve 15)) ⟨6, 60⟩,
      .command (.act governor (.distribute 15)) ⟨7, 70⟩]
    let again : Command := .act owner (.subscribe pair)
    let m := (n.run steps).network
    let m' := (again.run m ⟨17, 170⟩).state
    ledger.Balanced ∧ Network.new { governor } ledger = .ok n ∧
      Journal.Lawful ⟨[], n⟩ 0 (steps ++ [.command again ⟨17, 170⟩]) ∧
      ¬ (again.run m ⟨17, 170⟩).result.isOk ∧
      m'.events = m.events ∧ (m.registry.get? owner).map (·.stake) = some 5 ∧
      (m'.registry.get? owner).map (·.stake) = some 20 := by
  intro governor owner pair ledger staking n steps again m m'
  have hn : Network.new { governor } ledger = .ok n := new_of_governor rfl ledger
  have hledger : ledger.Balanced := by decide
  have hl : Journal.Lawful ⟨[], n⟩ 0 (steps ++ [.command again ⟨17, 170⟩]) := by
    simp [steps, again, Journal.Lawful, Step.Lawful, Step.block, Command.Permitted, Command.caller?,
      Command.switched?, stakingAccount_eq, vaultAccount_eq, governor, owner, Address.ofNat]
  have hstates : ¬ (again.run m ⟨17, 170⟩).result.isOk ∧ (m.registry.get? owner).map (·.stake) = some 5 ∧
      (m'.registry.get? owner).map (·.stake) = some 20 := by
    simp only [m', m, n, staking, stakingAccount_eq, vaultAccount_eq]
    decide +kernel
  have hm : m = (n.run steps).network := rfl
  have hm' : m' = (again.run m ⟨17, 170⟩).state := rfl
  obtain ⟨hrefused, hstakes⟩ := hstates
  obtain ⟨hevents, -⟩ := unrecorded_run hledger hn steps again ⟨17, 170⟩ hl hrefused
  rw [← hm, ← hm'] at hevents
  exact ⟨hledger, hn, hl, hrefused, hevents, hstakes⟩

end PriceOracle.Network
