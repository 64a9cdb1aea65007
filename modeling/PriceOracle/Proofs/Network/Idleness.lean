import PriceOracle.Proofs.Network.Pasts
/-! Who may leave. An oracle is removed once it is idle on every pair. What a feed notes of its seats stands for
the whole past of the feed, so whoever leaves has had no seat in the last rounds, and whoever had none may. -/
namespace PriceOracle.Network

variable {n : Network} {owner : Address}

theorem canRemove_iff {policy : SubscriptionPolicy} {feeds : Feeds} :
    policy.canRemove owner feeds ↔
      ∀ pair f, feeds.get? pair = some f → f.isIdle owner policy.idleRounds := by
  unfold SubscriptionPolicy.canRemove
  rw [List.all_eq_true]
  constructor
  · exact fun h pair f hf => h f (List.mem_map_of_mem (Table.mem_toList.2 hf))
  · intro h f hf
    obtain ⟨⟨pair, g⟩, hg, rfl⟩ := List.mem_map.1 hf
    exact h pair g (Table.mem_toList.1 hg)

/-- A registered oracle is removed if it is idle on every pair. -/
theorem isOk_removeOracle_iff (h : n.registry.isRegistered owner) :
    (n.removeOracle owner).result.isOk ↔
      ∀ pair f, n.feeds.get? pair = some f → f.isIdle owner n.policy.idleRounds := by
  obtain ⟨e, he⟩ := Option.isSome_iff_exists.1 h
  rw [← canRemove_iff, Network.removeOracle, Registry.remove, he]
  dsimp only
  split
  · rename_i hidle
    exact iff_of_true rfl hidle
  · rename_i hbusy
    exact iff_of_false Bool.false_ne_true hbusy

/-- A feed's word on whether an owner is idle is about its whole past: the owner has no seat and had none at any
moment of the last rounds. Every run of a new network has a chronicle, which tells how its feeds came about; and
by any of them, a registered oracle is removed exactly if it sat out on every pair as many rounds as it takes. -/
theorem removable_run {params : NetworkParams} {ledger : Ledger} (hn : Network.new params ledger = .ok n)
    (steps : List Step) :
    let m := (n.run steps).network
    (∀ (L : Type) [CollateralLedger L] (h : PriceFeed.Past L) (owner : Address) (rounds : Nat),
      h.feed.isIdle owner rounds ↔ h.SitsOut owner rounds) ∧
    (∃ pasts, n.Chronicle steps pasts) ∧
    ∀ pasts, n.Chronicle steps pasts → ∀ owner, m.registry.isRegistered owner →
      ((m.removeOracle owner).result.isOk ↔
        ∀ pair, m.feeds.contains pair → (pasts pair).SitsOut owner m.policy.idleRounds) := by
  intro m
  refine ⟨fun L _ h => h.isIdle_iff, exists_chronicle hn steps, fun pasts h owner hregistered => ?_⟩
  rw [isOk_removeOracle_iff hregistered]
  refine forall_congr' fun pair => ?_
  rw [Table.contains, Option.isSome_iff_exists, forall_exists_index]
  refine forall_congr' fun f => forall_congr' fun hf => ?_
  rw [← PriceFeed.Past.isIdle_iff, h.feed pair f hf]

/-- An oracle sits in the first round of a pair, unsubscribes and sits out the second. It may leave if one round
is asked of it, and two are more than it sat out. -/
theorem removable_run_of_retired :
    let governor := Address.ofNat 1
    let owner := Address.ofNat 2
    let pair : CoinPair := default
    let staking : Staking :=
      ⟨stakingAccount, ⟨.empty, 0, 0, .none, 0, 10⟩, .empty, .new vaultAccount, 3600, .empty, .empty, .empty⟩
    let n : Network := ⟨.empty, staking, .empty, ⟨0, 1⟩, .governor governor, []⟩
    let steps : List Step := [
      .command (.act governor (.executeChange (.registerPair pair {}))) ⟨1, 10⟩,
      .command (.act owner (.registerOracle owner "host")) ⟨2, 20⟩,
      .command (.act owner (.subscribe pair)) ⟨3, 30⟩,
      .command (.act owner (.unsubscribe pair)) ⟨4, 40⟩,
      .command (.act owner (.switchRound pair)) ⟨5, 50⟩]
    Network.new { governor } .empty = .ok n ∧
      ∃ pasts, n.Chronicle steps pasts ∧ (pasts pair).SitsOut owner 1 ∧ ¬ (pasts pair).SitsOut owner 2 := by
  intro governor owner pair staking n steps
  have hn : Network.new { governor } .empty = .ok n := new_of_governor rfl .empty
  have hleaves : ((n.run steps).network.removeOracle owner).result.isOk ∧
      (n.run steps).network.registry.isRegistered owner ∧ (n.run steps).network.policy.idleRounds = 1 ∧
      ((n.run steps).network.feeds.get? pair).map (·.isIdle owner 2) = some false := by
    decide +kernel
  obtain ⟨hremoved, hregistered, hrounds, hbusy⟩ := hleaves
  obtain ⟨hidle, ⟨pasts, h⟩, hleave⟩ := removable_run hn steps
  obtain ⟨f, hf, hbusy⟩ := Option.map_eq_some_iff.1 hbusy
  have hsits := (hleave pasts h owner hregistered).1 hremoved pair (Option.isSome_iff_exists.2 ⟨f, hf⟩)
  refine ⟨hn, pasts, h, hrounds ▸ hsits, ?_⟩
  rw [← hidle, h.feed pair f hf, hbusy]
  exact Bool.false_ne_true

end PriceOracle.Network
