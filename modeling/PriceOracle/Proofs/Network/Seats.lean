import PriceOracle.Proofs.Network.EventLog
/-! Whose seats there are. A seat is given to a registered oracle and copies its reporting address; the
oracle leaves the registry only when it has no seat, so the address of a seat stays that of its owner's
entry, whoever registers it again later. Since entries share no address, neither do seats. -/
namespace PriceOracle

/-- Everyone seated is registered and reports from the address in its entry. -/
structure Round.SeatsOracles (x : Round) (r : Registry) : Prop where
  entry : ∀ s ∈ x.seats, ∃ e, r.get? s.owner = some e ∧ e.address = s.address
  owners : (x.seats.map (·.owner)).Nodup
  addresses : (x.seats.map (·.address)).Nodup

/-- With one oracle an address, seats of different owners have different addresses. -/
theorem Round.SeatsOracles.of_distinct {x : Round} {r : Registry} (hr : r.Unambiguous)
    (hx : x.Distinct) (h : ∀ s ∈ x.seats, ∃ e, r.get? s.owner = some e ∧ e.address = s.address) :
    x.SeatsOracles r := by
  refine ⟨h, hx, ?_⟩
  have hseats : x.seats.Nodup := .of_map _ hx
  refine (List.nodup_map_iff_inj_on hseats).2 fun s hs t ht heq => ?_
  obtain ⟨e, he, hadr⟩ := h s hs
  obtain ⟨e', he', hadr'⟩ := h t ht
  have hentries : e = e' := List.inj_on_of_nodup_map hr.addresses (Registry.mem_of_get? he)
    (Registry.mem_of_get? he') (by rw [hadr, hadr', heq])
  have howners : s.owner = t.owner := by
    rw [← Registry.owner_of_get? he, ← Registry.owner_of_get? he', hentries]
  exact List.inj_on_of_nodup_map hx hs ht howners

/-- Whoever has been removed is not in the rounds, and nobody in them reports from its address. -/
theorem Round.SeatsOracles.ne_of_remove {x : Round} {r r' : Registry} (hr : r.Unambiguous)
    (h : x.SeatsOracles r') {owner : Address} {entry : OracleEntry}
    (hremove : r.remove owner = .ok (entry, r')) {s : Seat} (hs : s ∈ x.seats) :
    s.owner ≠ owner ∧ s.address ≠ entry.address := by
  obtain ⟨e, he, hadr⟩ := h.entry s hs
  rw [Registry.get?_remove hremove] at he
  split at he
  · cases he
  · rename_i hne
    refine ⟨hne, fun heq => hne ?_⟩
    obtain ⟨hentry, -⟩ := Registry.remove_eq_ok hremove
    have hentries : e = entry := List.inj_on_of_nodup_map hr.addresses (Registry.mem_of_get? he)
      (Registry.mem_of_get? hentry) (by rw [hadr, heq])
    rw [← Registry.owner_of_get? he, ← Registry.owner_of_get? hentry, hentries]

namespace Network

variable {n : Network} {past : List Event}

theorem Logged.seatsOracles (h : n.Logged past) {pair : CoinPair} {f : PriceFeed}
    (hf : n.feeds.get? pair = some f) : f.round.SeatsOracles n.registry := by
  have hpage := h.page pair f hf
  refine .of_distinct h.book.unambiguous hpage.round_distinct fun s hs => ?_
  have hview : SeatView.of s ∈ ((NetworkView.initial.replay (past ++ n.events)).page pair).seats := by
    rw [hpage.seats]
    exact List.mem_map_of_mem hs
  obtain ⟨name, hname⟩ := hpage.seated _ hview
  rw [h.book.entry, Option.map_eq_some_iff] at hname
  obtain ⟨e, he, heq⟩ := hname
  exact ⟨e, he, (Prod.mk.inj heq).1⟩

theorem removeOracle_eq_ok {owner : Address} {entry : OracleEntry}
    (h : (n.removeOracle owner).result = .ok entry) :
    n.registry.remove owner = .ok (entry, (n.removeOracle owner).state.registry) := by
  unfold Network.removeOracle at h ⊢
  cases hr : n.registry.remove owner with
  | error e =>
    rw [hr] at h
    cases h
  | ok x =>
    simp only [hr] at h ⊢
    split at h
    · rename_i hidle
      cases h
      rw [if_pos hidle]
      rfl
    · cases h

/-- After any run of a new network, in the rounds of all pairs: everyone seated is registered and reports
from the address in its entry, and no two seats share an owner or an address. Once an oracle is removed,
none of them is its owner's or has its address. -/
theorem seatsOracles_run {params : NetworkParams} {ledger : Ledger}
    (hn : Network.new params ledger = .ok n) (steps : List Step) :
    (∀ pair f, (n.run steps).network.feeds.get? pair = some f →
      f.round.SeatsOracles (n.run steps).network.registry) ∧
    ∀ owner entry, ((n.run steps).network.removeOracle owner).result = .ok entry →
      ∀ pair f, ((n.run steps).network.removeOracle owner).state.feeds.get? pair = some f →
        ∀ s ∈ f.round.seats, s.owner ≠ owner ∧ s.address ≠ entry.address := by
  have h : (n.run steps).network.Logged (n.run steps).taken := Logged.foldl_after steps (logged_new hn)
  refine ⟨fun pair f hf => h.seatsOracles hf, fun owner entry hremoved pair f hf s hs => ?_⟩
  have hseats := (h.outcome (outcome_removeOracle _ owner default)).seatsOracles hf
  exact hseats.ne_of_remove h.book.unambiguous (removeOracle_eq_ok hremoved) hs

/-- An oracle sits in a round, unsubscribes and sits out the next one, is removed, and another owner
registers its address and takes a seat. -/
theorem seatsOracles_run_of_successor :
    let governor := Address.ofNat 1
    let owner := Address.ofNat 2
    let successor := Address.ofNat 3
    let address := Address.ofNat 4
    let pair : CoinPair := default
    let staking : Staking :=
      ⟨stakingAccount, ⟨.empty, 0, 0, .none, 0, 10⟩, .empty, .new vaultAccount, 3600, .empty, .empty, .empty⟩
    let n : Network := ⟨.empty, staking, .empty, ⟨0, 1⟩, .governor governor, []⟩
    let steps : List Step := [
      .command (.act governor (.executeChange (.registerPair pair {}))) ⟨1, 10⟩,
      .command (.act owner (.registerOracle address "host")) ⟨2, 20⟩,
      .command (.act owner (.subscribe pair)) ⟨3, 30⟩,
      .command (.act owner (.unsubscribe pair)) ⟨4, 40⟩,
      .command (.act owner (.switchRound pair)) ⟨5, 50⟩,
      .command (.act owner .removeOracle) ⟨6, 60⟩,
      .command (.act successor (.registerOracle address "host")) ⟨7, 70⟩,
      .command (.act successor (.subscribe pair)) ⟨8, 80⟩]
    Network.new { governor } .empty = .ok n ∧
      ((n.run steps).network.feeds.get? pair).map (·.round.seats) = some [.fresh successor address] ∧
      ((n.run steps).network.registry.get? successor).map (·.address) = some address ∧
      (n.run steps).network.registry.get? owner = none := by
  intro governor owner successor address pair staking n steps
  have hn : Network.new { governor } .empty = .ok n := new_of_governor rfl .empty
  have hseats : ((n.run steps).network.feeds.get? pair).map (·.round.seats)
      = some [.fresh successor address] := by decide +kernel
  obtain ⟨f, hf, hseated⟩ := Option.map_eq_some_iff.1 hseats
  obtain ⟨e, he, hadr⟩ := ((seatsOracles_run hn steps).1 pair f hf).entry (.fresh successor address)
    (by rw [hseated]; exact List.mem_singleton_self _)
  refine ⟨hn, hseats, ?_, by decide +kernel⟩
  show ((n.run steps).network.registry.get? (Seat.fresh successor address).owner).map (·.address)
    = some address
  rw [he, Option.map_some, hadr]
  rfl

end Network

end PriceOracle
