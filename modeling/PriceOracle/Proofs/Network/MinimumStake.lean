import PriceOracle.Proofs.Network.Refresh
/-! Everyone on a list or in a round has the stake that a subscription takes. No call brings in anybody but an
oracle that subscribes with enough at stake: seats go to subscribers, whether by selection or in place of
another. Stakes fall by refreshes only, and each expels whoever it leaves with too little; so it may well pass
seats on while others still wait to be expelled, for whoever takes one has more stake than somebody with
enough. -/
namespace PriceOracle

/-! ### Who a feed involves -/

namespace PriceFeed

variable {f f' : PriceFeed} {owner other : Address}

/-- The owner is on the list or has a seat. -/
def Involves (f : PriceFeed) (owner : Address) : Prop := f.isSubscribed owner ∨ f.round.seatsOwner owner

theorem involves_foldl_drop {dropped : List Address} (h : (dropped.foldl drop f).Involves other) :
    f.Involves other := by
  rcases h with hlisted | hseated
  · exact .inl ((isSubscribed_foldl_drop dropped f).1 hlisted).2
  · rw [Round.seatsOwner_iff, owners_foldl_drop, ← Round.seatsOwner_iff] at hseated
    exact .inr hseated

theorem involves_drop (h : (f.drop owner).Involves other) : f.Involves other := by
  have hone : ([owner].foldl drop f).Involves other := h
  exact involves_foldl_drop hone

theorem involves_enlist {address : Address} (h : (f.enlist owner address).2.Involves other) :
    other = owner ∨ f.Involves other := by
  rcases h with hlisted | hseated
  · exact (isSubscribed_enlist.1 hlisted).imp_right .inl
  · unfold enlist at hseated
    dsimp only at hseated
    split at hseated
    · rw [Round.seatsOwner_iff, Round.owners_setExcluded, ← Round.seatsOwner_iff] at hseated
      exact .inr (.inr hseated)
    · split at hseated
      · rw [Round.seatsOwner_iff] at hseated
        change other ∈ (f.round.seat owner address).owners at hseated
        rw [Round.owners_seat, List.mem_append, List.mem_singleton, ← Round.seatsOwner_iff] at hseated
        exact hseated.symm.imp_right .inr
      · exact .inr (.inr hseated)

theorem involves_expel (h : (f.expel owner).2.Involves other) : f.Involves other :=
  h.imp (fun hlisted => (isSubscribed_expel.1 hlisted).2) fun hseated => (seatsOwner_expel.1 hseated).2

/-- A call that keeps the list involves nobody new. -/
theorem involves_of_effect {L : Type} {call : Call L} (hc : call.KeepsList) (h : f.Effect call f')
    (ho : f'.Involves other) : f.Involves other := by
  cases h with
  | listed | dropped | expelled | capped => exact absurd hc id
  | idle | readers | publishers => exact ho
  | yielded he hlisted hwaits =>
    refine ho.elim .inl fun hseated => ?_
    rw [Round.seatsOwner_iff] at hseated
    change other ∈ ((f.round.unseat _).seat _ _).owners at hseated
    rw [Round.owners_seat, List.mem_append, List.mem_singleton, ← Round.seatsOwner_iff] at hseated
    rcases hseated with hkept | rfl
    · exact .inr (Round.seatsOwner_of_unseat hkept)
    · exact .inl hlisted
  | published hp =>
    obtain ⟨-, seat, -, -, -, rfl⟩ := publish_eq_ok.1 hp
    refine ho.imp id fun hseated => ?_
    rw [Round.seatsOwner_iff] at hseated
    change other ∈ (f.round.award _).owners at hseated
    rwa [Round.owners_award, ← Round.seatsOwner_iff] at hseated
  | emergency hp =>
    obtain ⟨-, rfl, -⟩ := emergencyPublish_eq_ok hp
    exact ho
  | switched lockUntil => exact .inl (ho.elim id isSubscribed_of_nextRound)
  | params hp hcap =>
    obtain ⟨-, rfl⟩ := withParams_eq_ok hp
    exact ho

theorem involves_yieldSeat {registry : Registry}
    (h : ((f.yieldSeat? owner registry).elim f (·.2)).Involves other) : f.Involves other := by
  have hkeeps : (.yieldSeat owner registry : Call Ledger).KeepsList := trivial
  exact involves_of_effect hkeeps (f.effect_after _) h

end PriceFeed

theorem SubscriptionPolicy.minStake_le_of_subscribe {p : SubscriptionPolicy} {owner : Address}
    {f f' : PriceFeed} {r r' : Registry} {outcome : SubscribeOutcome}
    (h : p.subscribe owner f r = .ok (outcome, f', r')) :
    ∃ s, r.stake? owner = some s ∧ p.minStake ≤ s := by
  unfold subscribe at h
  split at h
  · cases h
  rename_i e he
  split at h
  · cases h
  rename_i henough
  exact ⟨e.stake, by rw [Registry.stake?, he]; rfl, Nat.le_of_not_lt henough⟩

/-! ### Edits -/

/-- Everyone involved in a feed is registered with the least stake or more. -/
def Upheld (minStake : Amount) (r : Registry) (feeds : Feeds) : Prop :=
  ∀ pair f, feeds.get? pair = some f → ∀ owner, f.Involves owner →
    ∃ s, r.stake? owner = some s ∧ minStake ≤ s

namespace Upheld

variable {minStake : Amount} {r r' : Registry} {feeds : Feeds} {f f' : PriceFeed} {owner : Address}

/-- Every stake stays, and whoever a changed feed involves has enough. -/
theorem withFeed (h : Upheld minStake r feeds) (hstake : ∀ o, r'.stake? o = r.stake? o)
    (hfeed : ∀ o, f'.Involves o → ∃ s, r.stake? o = some s ∧ minStake ≤ s) :
    Upheld minStake r' (feeds.insert f'.pair f') := by
  intro pair g hg o ho
  rw [hstake]
  rw [Table.get?_insert] at hg
  split at hg
  · cases hg
    exact hfeed o ho
  · exact h pair g hg o ho

theorem reregister (h : Upheld minStake r feeds)
    (hstake : ∀ o s, r.stake? o = some s → r'.stake? o = some s) : Upheld minStake r' feeds :=
  fun pair f hf o ho => (h pair f hf o ho).imp fun s hs => ⟨hstake o s hs.1, hs.2⟩

theorem registered (h : Upheld minStake r feeds) {address : Address} {name : String} {stake : Amount}
    {entry : OracleEntry} (hr : r.register owner address name stake none = .ok (entry, r')) :
    Upheld minStake r' feeds := by
  obtain ⟨hnew, -⟩ := Registry.identities_register hr
  refine h.reregister fun o s hs => ?_
  rw [Registry.stake?_register hr, if_neg]
  · exact hs
  · rintro rfl
    rw [Registry.stake?, hnew] at hs
    cases hs

theorem removed (h : Upheld minStake r feeds) {p : SubscriptionPolicy} {entry : OracleEntry}
    (hr : r.remove owner = .ok (entry, r')) (hidle : p.canRemove owner feeds) :
    Upheld minStake r' (feeds.map fun _ f => if f.isSubscribed owner then f.drop owner else f) := by
  intro pair f' hf' o ho
  rw [Table.get?_map, Option.map_eq_some_iff] at hf'
  obtain ⟨f, hf, rfl⟩ := hf'
  have hseat := Network.not_seatsOwner_of_canRemove hidle hf
  have hstays : o ≠ owner ∧ f.Involves o := by
    split at ho
    · refine ⟨?_, PriceFeed.involves_drop ho⟩
      rintro rfl
      rcases ho with hlisted | hseated
      · exact (PriceFeed.isSubscribed_drop.1 hlisted).1 rfl
      · rw [Round.seatsOwner_iff, PriceFeed.owners_drop, ← Round.seatsOwner_iff] at hseated
        exact hseat hseated
    · rename_i hnot
      refine ⟨?_, ho⟩
      rintro rfl
      exact ho.elim hnot hseat
  rw [Registry.stake?_remove hr, if_neg hstays.1]
  exact h pair f hf o hstays.2

theorem subscribed (h : Upheld minStake r feeds) {pair : CoinPair} (hf : feeds.get? pair = some f)
    {p : SubscriptionPolicy} (hp : p.minStake = minStake) {outcome : SubscribeOutcome}
    (hs : p.subscribe owner f r = .ok (outcome, f', r')) :
    Upheld minStake r' (feeds.insert f'.pair f') := by
  obtain ⟨s, hstake, hle⟩ := p.minStake_le_of_subscribe hs
  obtain ⟨hfeed, rfl⟩ := Network.subscribe_eq_ok hs
  obtain ⟨e, -, -, -, hx⟩ := PriceFeed.subscribe_eq_ok hfeed
  obtain rfl : ((outcome.evicted.elim f f.drop).enlist owner e.address).2 = f' := by rw [hx]
  have hroom : ∀ o, (outcome.evicted.elim f f.drop).Involves o → f.Involves o := by
    cases outcome.evicted with
    | none => exact fun _ => id
    | some tail => exact fun _ => PriceFeed.involves_drop
  refine h.withFeed (fun o => ?_) fun o ho => ?_
  · rw [Registry.stake?_enlist]
    cases outcome.evicted with
    | none => rfl
    | some tail => exact Registry.stake?_delist r tail _ o
  · rcases PriceFeed.involves_enlist ho with rfl | ho
    · exact ⟨s, hstake, hp ▸ hle⟩
    · exact h pair f hf o (hroom o ho)

theorem tracked (h : Upheld minStake r feeds) {pair : CoinPair} {params : RoundParams} {ctx : BlockContext}
    (hs : PriceFeed.start pair params ctx = .ok f) : Upheld minStake r (feeds.insert f.pair f) := by
  refine h.withFeed (fun _ => rfl) fun o ho => ?_
  unfold PriceFeed.start at hs
  split at hs
  · cases hs
  · cases hs
    rcases ho with hlisted | hseated
    · cases hlisted
    · cases hseated

end Upheld

namespace Network

variable {n n' : Network}

theorem upheld_of_edit {r : Registry} {feeds : Feeds} (h : Upheld n.policy.minStake n.registry n.feeds)
    (hedit : n.Edit r feeds) : Upheld n.policy.minStake r feeds := by
  cases hedit with
  | idle => exact h
  | @stored pair f hf => exact h.withFeed (fun _ => rfl) (h pair f hf)
  | registered hr => exact h.registered hr
  | renamed hr => exact h.reregister fun o _ hs => (Registry.stake?_setName hr o).trans hs
  | removed hr hidle => exact h.removed hr hidle
  | subscribed hf hs => exact h.subscribed hf rfl hs
  | @unsubscribed owner pair f hf hlisted =>
    have hstake := Registry.stake?_delist n.registry owner f.pair
    have hfeed : ∀ o, (f.drop owner).Involves o →
        ∃ s, n.registry.stake? o = some s ∧ n.policy.minStake ≤ s :=
      fun o ho => h pair f hf o (PriceFeed.involves_drop ho)
    exact h.withFeed hstake hfeed
  | @capped pair value f f' dropped hf hs =>
    obtain ⟨-, -, rfl⟩ := PriceFeed.setMaxSubscribed_eq_ok hs
    have hstake := fun o => Registry.stake?_foldl_delist id (fun _ => pair) o dropped n.registry
    refine h.withFeed hstake fun o ho => ?_
    have hwas := PriceFeed.involves_foldl_drop ho
    exact h pair f hf o hwas
  | @called pair f f' call hf heffect hcall =>
    exact h.withFeed (fun _ => rfl) fun o ho => h pair f hf o (PriceFeed.involves_of_effect hcall heffect ho)
  | tracked hnew hs => exact h.tracked hs

/-! ### Refreshes -/

/-- The feeds of `n'` are those of `n`, and involve nobody new. -/
def Confined (n n' : Network) : Prop :=
  ∀ pair f', n'.feeds.get? pair = some f' →
    ∃ f, n.feeds.get? pair = some f ∧ ∀ owner, f'.Involves owner → f.Involves owner

theorem confined_carryDrop (n : Network) (owner : Address) (previous : Amount) :
    n.Confined (n.carryDrop owner previous) := by
  intro pair f' hf'
  rcases (n.carryDrop_cases owner previous).2 with ⟨hsame, -⟩ | ⟨s, -, ⟨-, hfeeds⟩ | ⟨-, hfeeds⟩⟩
  · rw [hsame] at hf'
    exact ⟨f', hf', fun _ => id⟩
  · rw [hfeeds, Option.map_eq_some_iff] at hf'
    obtain ⟨f, hf, rfl⟩ := hf'
    exact ⟨f, hf, fun _ => PriceFeed.involves_expel⟩
  · rw [hfeeds, Option.map_eq_some_iff] at hf'
    obtain ⟨f, hf, rfl⟩ := hf'
    exact ⟨f, hf, fun _ => PriceFeed.involves_yieldSeat⟩

theorem confined_refreshStakes (n : Network) (ctx : BlockContext) : n.Confined (n.refreshStakes ctx) := by
  refine refreshStakes_induction (motive := n.Confined) (fun pair f hf => ⟨f, hf, fun _ => id⟩) ?_
  intro m owner previous h pair f' hf'
  obtain ⟨f₁, hf₁, hsub₁⟩ := m.confined_carryDrop owner previous pair f' hf'
  obtain ⟨f, hf, hsub⟩ := h pair f₁ hf₁
  exact ⟨f, hf, fun o ho => hsub o (hsub₁ o ho)⟩

/-- A refresh expels whoever it leaves with too little; all others had enough, and have no less. -/
theorem upheld_refreshStakes (hn : n.InOrder) (h : Upheld n.policy.minStake n.registry n.feeds)
    (ctx : BlockContext) :
    Upheld n.policy.minStake (n.refreshStakes ctx).registry (n.refreshStakes ctx).feeds := by
  obtain ⟨-, hpolicy, hstakes, hsettled⟩ := settled_refreshStakes hn ctx
  intro pair f' hf' o ho
  obtain ⟨f, hf, hsub⟩ := n.confined_refreshStakes ctx pair f' hf'
  obtain ⟨s, hs, hle⟩ := h pair f hf o (hsub o ho)
  obtain ⟨e, he, rfl⟩ := Option.map_eq_some_iff.1 hs
  obtain rfl := Registry.owner_of_get? he
  have hstake : (n.refreshStakes ctx).registry.stake? e.owner = some (n.staking.balance e.owner ctx) := by
    rw [hstakes, he]
    rfl
  refine ⟨_, hstake, ?_⟩
  by_contra hless
  have hdropped : n.staking.balance e.owner ctx < e.stake := by lia
  have hout := (hsettled e (Registry.mem_of_get? he) hdropped pair f' hf').out _ hstake
    (by rw [hpolicy]; lia)
  exact ho.elim hout.1 hout.2

/-! ### Runs -/

theorem Leads.upheld (hl : n.Leads n') (hn : n.InOrder) (h : Upheld n.policy.minStake n.registry n.feeds) :
    n'.policy.minStake = n.policy.minStake ∧ Upheld n.policy.minStake n'.registry n'.feeds := by
  induction hl with
  | refl => exact ⟨rfl, h⟩
  | @tail m m' hm hstride ih =>
    obtain ⟨hterms, hup⟩ := ih
    rw [← hterms] at hup ⊢
    cases hstride with
    | edited hterms' hedit => exact ⟨hterms', upheld_of_edit hup hedit⟩
    | refreshed ctx heq =>
      subst heq
      have hm : m.InOrder := hn.reaches (Leads.reaches hm)
      exact ⟨congrArg _ (settled_refreshStakes hm ctx).2.1, upheld_refreshStakes hm hup ctx⟩

/-- No step of a run sets the stake that a subscription takes. -/
def Journal.KeepsMinStake : Journal → List Step → Prop
  | _, [] => True
  | j, step :: steps => ¬ step.SetsMinStake j.network ∧ KeepsMinStake (j.after step) steps

instance (n : Network) : (step : Step) → Decidable (step.SetsMinStake n)
  | .command c ctx =>
    inferInstanceAs (Decidable (c.newMinStake?.isSome = true ∧ (c.run n ctx).result.isOk = true))
  | .refreshStakes _ | .outside _ | .authorize _ | .drain => .isFalse id

instance Journal.decidableKeepsMinStake : (j : Journal) → (steps : List Step) →
    Decidable (j.KeepsMinStake steps)
  | _, [] => .isTrue trivial
  | j, step :: steps =>
    have := decidableKeepsMinStake (j.after step) steps
    inferInstanceAs (Decidable (¬ step.SetsMinStake j.network ∧ KeepsMinStake (j.after step) steps))

theorem leads_foldl_after {steps : List Step} : ∀ {j : Journal}, j.KeepsMinStake steps →
    j.network.Leads (steps.foldl Journal.after j).network := by
  induction steps with
  | nil => exact fun _ => .refl _
  | cons step steps ih => exact fun hkeep => (leads_after _ hkeep.1).trans (ih hkeep.2)

/-- After any run of a new network in which no change of the stake that a subscription takes is accepted:
every subscriber of a pair and every member of its round is registered, with at least that stake. -/
theorem minStake_run {params : NetworkParams} {ledger : Ledger} (hn : Network.new params ledger = .ok n)
    (steps : List Step) (hkeep : Journal.KeepsMinStake ⟨[], n⟩ steps) :
    let m := (n.run steps).network
    m.policy.minStake = params.minSubscriptionStake ∧
      ∀ pair f, m.feeds.get? pair = some f →
        (∀ owner, f.isSubscribed owner →
          ∃ e, m.registry.get? owner = some e ∧ m.policy.minStake ≤ e.stake) ∧
        ∀ s ∈ f.round.seats, ∃ e, m.registry.get? s.owner = some e ∧ m.policy.minStake ≤ e.stake := by
  intro m
  have hin := inOrder_new hn
  obtain ⟨staking, -, hnew⟩ := new_eq_ok hn
  have hfirst : n.policy.minStake = params.minSubscriptionStake := by rw [hnew]
  have hnobody : Upheld n.policy.minStake n.registry n.feeds := by
    rw [hnew]
    intro pair f hf
    cases hf
  obtain ⟨hterms, h⟩ := (leads_foldl_after hkeep).upheld hin hnobody
  have hregistered : ∀ pair f, m.feeds.get? pair = some f → ∀ owner, f.Involves owner →
      ∃ e, m.registry.get? owner = some e ∧ m.policy.minStake ≤ e.stake := by
    intro pair f hf owner ho
    obtain ⟨s, hs, hle⟩ := h pair f hf owner ho
    obtain ⟨e, he, rfl⟩ := Option.map_eq_some_iff.1 hs
    exact ⟨e, he, Nat.le_trans (Nat.le_of_eq hterms) hle⟩
  refine ⟨hterms.trans hfirst, fun pair f hf => ⟨fun owner ho => hregistered pair f hf owner (.inl ho),
    fun s hs => hregistered pair f hf s.owner (.inr ?_)⟩⟩
  exact Round.seatsOwner_iff.2 (List.mem_map_of_mem hs)

/-- One oracle withdraws below the stake that a subscription takes and is expelled; a change of that stake by
somebody else than the governor is refused, and how long an oracle must sit out is changed. -/
theorem minStake_run_of_withdrawal :
    let governor := Address.ofNat 1
    let owner := Address.ofNat 2
    let rival := Address.ofNat 3
    let pair : CoinPair := default
    let ledger : Ledger := ⟨(Table.empty.insert owner 10).insert rival 6, .empty, 16⟩
    let staking : Staking :=
      ⟨stakingAccount, ⟨.empty, 0, 0, .none, 0, 10⟩, ledger, .new vaultAccount, 3600, .empty, .empty, .empty⟩
    let n : Network := ⟨.empty, staking, .empty, ⟨5, 1⟩, .governor governor, []⟩
    let subscribes (owner : Address) (amount now : Nat) : List Step := [
      .command (.act owner (.approve amount)) ⟨now, 10 * now⟩,
      .command (.act owner (.deposit amount none)) ⟨now, 10 * now⟩,
      .command (.act owner (.registerOracle owner "host")) ⟨now, 10 * now⟩,
      .command (.act owner (.subscribe pair)) ⟨now, 10 * now⟩]
    let steps : List Step :=
      .command (.act governor (.executeChange (.registerPair pair {}))) ⟨1, 10⟩
        :: subscribes owner 10 2 ++ subscribes rival 6 3 ++ [
      .command (.act rival (.executeChange (.setMinSubscriptionStake 1))) ⟨4, 40⟩,
      .command (.act governor (.executeChange (.setNumIdleRounds 0))) ⟨5, 50⟩,
      .command (.act rival (.withdraw 2)) ⟨6, 60⟩]
    let m := (n.run steps).network
    Network.new { governor, minSubscriptionStake := 5 } ledger = .ok n ∧
      Journal.KeepsMinStake ⟨[], n⟩ steps ∧
      (m.registry.get? rival).map (·.stake) = some 4 ∧
      (m.feeds.get? pair).map (fun f => (f.round.owners, f.subscribed.keys)) = some ([owner], [owner]) ∧
      ∃ e, m.registry.get? owner = some e ∧ 5 ≤ e.stake := by
  intro governor owner rival pair ledger staking n subscribes steps m
  have hn : Network.new { governor, minSubscriptionStake := 5 } ledger = .ok n := new_of_governor rfl ledger
  have hkeep : Journal.KeepsMinStake ⟨[], n⟩ steps := by
    simp only [n, staking, stakingAccount_eq, vaultAccount_eq]
    decide +kernel
  have hstates : (m.registry.get? rival).map (·.stake) = some 4 ∧
      (m.feeds.get? pair).map (fun f => (f.round.owners, f.subscribed.keys))
        = some ([owner], [owner]) := by
    simp only [m, n, staking, stakingAccount_eq, vaultAccount_eq]
    decide +kernel
  obtain ⟨hrival, hlists⟩ := hstates
  obtain ⟨f, hf, hboth⟩ := Option.map_eq_some_iff.1 hlists
  obtain ⟨hterms, hall⟩ := minStake_run hn steps hkeep
  have hlisted : f.isSubscribed owner := by
    rw [PriceFeed.isSubscribed, ← Table.mem_keys, (Prod.mk.inj hboth).2]
    exact List.mem_singleton_self _
  obtain ⟨e, he, hle⟩ := (hall pair f hf).1 owner hlisted
  exact ⟨hn, hkeep, hrival, hlists, e, he, Nat.le_trans (Nat.le_of_eq hterms.symm) hle⟩

end Network

end PriceOracle
