import PriceOracle.Proofs.Feed.Ranking
import PriceOracle.Proofs.Network.Refresh
/-! Places on a list. In every state that a network comes to, a registry ranks the subscribers of each pair,
for the two stores of subscriptions agree and the registry is in its order. So a newcomer to a full list takes
the place of the last in the ranking, and a new cap leaves the beginning of it. -/
namespace PriceOracle.Network

variable {n : Network} {params : NetworkParams} {ledger : Ledger} {pair : CoinPair} {f : PriceFeed}

theorem eq_ok_of_toOption {ε α : Type} {x : Except ε α} {a : α} (h : x.toOption = some a) : x = .ok a := by
  cases x with
  | error e => cases h
  | ok b => exact congrArg _ (Option.some.inj h)

theorem InOrder.ranks (h : n.InOrder) (hf : n.feeds.get? pair = some f) :
    f.Ranks n.registry n.registry.stakeOf (f.ranked n.registry) :=
  PriceFeed.ranks_ranked h.ordered h.mirrored.unambiguous (h.mirrored.isRegistered hf) fun _ he =>
    (Registry.stakeOf_of_mem h.mirrored.unambiguous he).symm

/-- After any run of a new network, on every pair, whose subscribers have one ranking. A subscription is accepted
exactly if the owner is registered, is not on the list, and finds room there or has more at stake than the
lowest on it. Then the list and the round change as an admission has it; a refusal changes nothing. -/
theorem admits_run (hn : Network.new params ledger = .ok n) (steps : List Step)
    (hf : (n.run steps).network.feeds.get? pair = some f) :
    let r := (n.run steps).network.registry
    (∃! ranking, f.Ranks r r.stakeOf ranking) ∧ ∀ ranking, f.Ranks r r.stakeOf ranking → ∀ owner,
      ((∃ outcome f', f.subscribe owner r = .ok (outcome, f')) ↔
        ∃ e, r.get? owner = some e ∧ ¬ f.isSubscribed owner ∧
          (f.subscribed.size < f.params.maxSubscribed ∨ ∃ low, f.LowestStake r low ∧ low < e.stake)) ∧
      (∀ outcome f', f.subscribe owner r = .ok (outcome, f') →
        ∃ e, r.get? owner = some e ∧ f.Admits ranking e outcome f') ∧
      ∀ err, f.subscribe owner r = .error err →
        f.after (.subscribe owner r : PriceFeed.Call Ledger) = f := by
  intro r
  have h : (n.run steps).network.InOrder := inOrder_run hn steps
  have hranks : f.Ranks r r.stakeOf (f.ranked r) := h.ranks hf
  have hcapped := h.mirrored.capped pair f hf
  refine ⟨hranks.existsUnique, fun ranking hranking owner => ?_⟩
  obtain rfl := hranking.unique hranks
  refine ⟨PriceFeed.exists_subscribe_iff hcapped hranks,
    fun outcome f' hs => PriceFeed.admits_of_subscribe hcapped hranks hs, fun err herr => ?_⟩
  show f.orElse ((f.subscribe owner r).map (·.2)) = f
  rw [herr]
  rfl

/-- A list for two is full, and so is the round. A rival who stakes more takes the place of the later of two
with equal stakes, whose seat stays, and gets no seat. -/
theorem admits_run_of_tie :
    let governor := Address.ofNat 1
    let early := Address.ofNat 2
    let late := Address.ofNat 3
    let rival := Address.ofNat 4
    let pair : CoinPair := default
    let ledger : Ledger :=
      ⟨((Table.empty.insert early 5).insert late 5).insert rival 6, .empty, 16⟩
    let staking : Staking :=
      ⟨stakingAccount, ⟨.empty, 0, 0, .none, 0, 10⟩, ledger, .new vaultAccount, 3600, .empty, .empty, .empty⟩
    let n : Network := ⟨.empty, staking, .empty, ⟨0, 1⟩, .governor governor, []⟩
    let params : RoundParams := { minOracles := 1, maxOracles := 2, maxSubscribed := 2 }
    let joins (owner : Address) (stake : Amount) : List Step := [
      .command (.act owner (.approve stake)) ⟨2, 20⟩,
      .command (.act owner (.deposit stake none)) ⟨2, 20⟩,
      .command (.act owner (.registerOracle owner "host")) ⟨2, 20⟩]
    let steps : List Step :=
      .command (.act governor (.executeChange (.registerPair pair params))) ⟨1, 10⟩
        :: joins early 5 ++ joins late 5 ++ joins rival 6 ++ [
      .command (.act early (.subscribe pair)) ⟨3, 30⟩,
      .command (.act late (.subscribe pair)) ⟨3, 30⟩]
    let r := (n.run steps).network.registry
    Network.new { governor } ledger = .ok n ∧
      ∃ f, (n.run steps).network.feeds.get? pair = some f ∧
        ∃ outcome f', f.subscribe rival r = .ok (outcome, f') ∧
          (∀ o, f'.isSubscribed o ↔ o = rival ∨ f.isSubscribed o ∧ o ≠ late) ∧
          f'.round.seats = [⟨early, early, 0, false⟩, ⟨late, late, 0, true⟩] := by
  intro governor early late rival pair ledger staking n params joins steps r
  have hn : Network.new { governor } ledger = .ok n := new_of_governor rfl ledger
  have hsubscribes : ((n.run steps).network.feeds.get? pair).bind (fun f =>
      (f.subscribe rival r).toOption.map fun x => (x.1.evicted, x.2.round.seats))
        = some (some late, [⟨early, early, 0, false⟩, ⟨late, late, 0, true⟩]) := by
    simp only [r, n, staking, stakingAccount_eq, vaultAccount_eq]
    decide +kernel
  obtain ⟨f, hf, hx⟩ := Option.bind_eq_some_iff.1 hsubscribes
  obtain ⟨⟨outcome, f'⟩, hs, hx⟩ := Option.map_eq_some_iff.1 hx
  obtain ⟨hevicted, hseats⟩ := Prod.mk.inj hx
  have hs : f.subscribe rival r = .ok (outcome, f') := eq_ok_of_toOption hs
  obtain ⟨⟨ranking, hranks, -⟩, hadmits⟩ := admits_run hn steps hf
  obtain ⟨e, he, h⟩ := (hadmits ranking hranks rival).2.1 outcome f' hs
  refine ⟨hn, f, hf, outcome, f', hs, fun o => ?_, hseats⟩
  rw [h.listed, Registry.owner_of_get? he, hevicted, ne_eq, Option.some_inj, eq_comm (a := late)]

/-- After any run of a new network, on every pair, whose subscribers have one ranking. A cap is refused exactly
if the parameters do not fit together with it, and then nothing changes. Else the first in the ranking stay, as
many as it allows, and the others are answered, the last first; the marks in the round change for them alone. -/
theorem trims_run (hn : Network.new params ledger = .ok n) (steps : List Step)
    (hf : (n.run steps).network.feeds.get? pair = some f) :
    let r := (n.run steps).network.registry
    (∃! ranking, f.Ranks r r.stakeOf ranking) ∧ ∀ ranking, f.Ranks r r.stakeOf ranking → ∀ value,
      (∀ err, f.setMaxSubscribed value r = .error err ↔
        ({ f.params with maxSubscribed := value }).validate = .error err) ∧
      (∀ err, f.setMaxSubscribed value r = .error err →
        f.after (.setMaxSubscribed value r : PriceFeed.Call Ledger) = f) ∧
      ∀ gone f', f.setMaxSubscribed value r = .ok (gone, f') → f.Trims ranking value gone f' := by
  intro r
  have hranks : f.Ranks r r.stakeOf (f.ranked r) := (inOrder_run hn steps).ranks hf
  refine ⟨hranks.existsUnique, fun ranking hranking value => ?_⟩
  obtain rfl := hranking.unique hranks
  refine ⟨fun err => PriceFeed.setMaxSubscribed_eq_error, fun err herr => ?_,
    fun gone f' hs => PriceFeed.trims_of_setMaxSubscribed hranks hs⟩
  show f.orElse ((f.setMaxSubscribed value r).map (·.2)) = f
  rw [herr]
  rfl

/-- Three are subscribed, and the first of two with equal stakes has the only seat. A list for one keeps the
rival who stakes more, and the seat stays. -/
theorem trims_run_of_three :
    let governor := Address.ofNat 1
    let early := Address.ofNat 2
    let late := Address.ofNat 3
    let rival := Address.ofNat 4
    let pair : CoinPair := default
    let ledger : Ledger :=
      ⟨((Table.empty.insert early 5).insert late 5).insert rival 6, .empty, 16⟩
    let staking : Staking :=
      ⟨stakingAccount, ⟨.empty, 0, 0, .none, 0, 10⟩, ledger, .new vaultAccount, 3600, .empty, .empty, .empty⟩
    let n : Network := ⟨.empty, staking, .empty, ⟨0, 1⟩, .governor governor, []⟩
    let params : RoundParams := { minOracles := 1, maxOracles := 1, maxSubscribed := 3 }
    let joins (owner : Address) (stake : Amount) : List Step := [
      .command (.act owner (.approve stake)) ⟨2, 20⟩,
      .command (.act owner (.deposit stake none)) ⟨2, 20⟩,
      .command (.act owner (.registerOracle owner "host")) ⟨2, 20⟩,
      .command (.act owner (.subscribe pair)) ⟨2, 20⟩]
    let steps : List Step :=
      .command (.act governor (.executeChange (.registerPair pair params))) ⟨1, 10⟩
        :: joins early 5 ++ joins late 5 ++ joins rival 6
    let r := (n.run steps).network.registry
    Network.new { governor } ledger = .ok n ∧
      ∃ f, (n.run steps).network.feeds.get? pair = some f ∧
        ∃ f', f.setMaxSubscribed 1 r = .ok ([late, early], f') ∧ (∀ o, f'.isSubscribed o ↔ o = rival) ∧
          f'.round.seats = [⟨early, early, 0, true⟩] := by
  intro governor early late rival pair ledger staking n params joins steps r
  have hn : Network.new { governor } ledger = .ok n := new_of_governor rfl ledger
  have hlowers : ((n.run steps).network.feeds.get? pair).bind (fun f =>
      (f.setMaxSubscribed 1 r).toOption.map fun x => (x.1, f.round.seats, x.2.subscribed.keys))
        = some ([late, early], [⟨early, early, 0, false⟩], [rival]) := by
    simp only [r, n, staking, stakingAccount_eq, vaultAccount_eq]
    decide +kernel
  obtain ⟨f, hf, hx⟩ := Option.bind_eq_some_iff.1 hlowers
  obtain ⟨⟨gone, f'⟩, hs, hx⟩ := Option.map_eq_some_iff.1 hx
  simp only [Prod.mk.injEq] at hx
  obtain ⟨rfl, hseats, hkeys⟩ := hx
  have hs : f.setMaxSubscribed 1 r = .ok ([late, early], f') := eq_ok_of_toOption hs
  obtain ⟨⟨ranking, hranks, -⟩, htrims⟩ := trims_run hn steps hf
  have h := (htrims ranking hranks 1).2.2 _ f' hs
  refine ⟨hn, f, hf, f', hs, fun o => ?_, ?_⟩
  · rw [PriceFeed.isSubscribed, ← Table.mem_keys, hkeys, List.mem_singleton]
  · rw [h.seats, hseats]
    decide +kernel

end PriceOracle.Network
