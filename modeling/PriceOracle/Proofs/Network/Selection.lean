import PriceOracle.Proofs.Network.Places
/-! What a switch selects. Before a switch all stakes are brought up to date, which strikes off the lists those
whose stakes dropped below what a subscription takes, and nobody else. Whoever is left has its balance for its
stake, so the registry ranks the list by balances, and the next round is the beginning of that ranking. -/
namespace PriceOracle

/-! ### Feeds -/

namespace PriceFeed

variable {f f' f'' : PriceFeed} {owner other : Address} {gone gone' : Address → Prop}

/-- The same round on the same parameters, with some struck off the list. -/
structure Without (f f' : PriceFeed) (gone : Address → Prop) : Prop where
  params : f'.params = f.params
  number : f'.round.number = f.round.number
  listed : ∀ o, f'.isSubscribed o ↔ f.isSubscribed o ∧ ¬ gone o

theorem Without.refl (f : PriceFeed) (hnone : ∀ o, ¬ gone o) : f.Without f gone :=
  ⟨rfl, rfl, fun o => by simp [hnone o]⟩

theorem Without.trans (h : f.Without f' gone) (h' : f'.Without f'' gone') :
    f.Without f'' fun o => gone o ∨ gone' o :=
  ⟨h'.params.trans h.params, h'.number.trans h.number, fun o => by
    rw [h'.listed, h.listed, and_assoc, not_or]⟩

theorem Without.congr (h : f.Without f' gone) (hgone : ∀ o, gone o ↔ gone' o) : f.Without f' gone' :=
  ⟨h.params, h.number, fun o => by rw [h.listed, hgone]⟩

theorem without_expel (f : PriceFeed) (owner : Address) : f.Without (f.expel owner).2 (· = owner) :=
  ⟨rfl, rfl, fun _ => isSubscribed_expel.trans and_comm⟩

theorem without_yieldSeat (f : PriceFeed) (owner : Address) (registry : Registry) :
    f.Without ((f.yieldSeat? owner registry).elim f (·.2)) fun _ => False := by
  cases hy : f.yieldSeat? owner registry with
  | none => exact .refl f fun _ => id
  | some x =>
    obtain ⟨e, -, -, -, -, hx⟩ := yieldSeat?_eq_some hy
    rw [Option.elim_some, hx]
    exact ⟨rfl, rfl, fun o => (and_iff_left id).symm⟩

end PriceFeed

/-! ### Refreshes -/

namespace Network

variable {n : Network} {pair : CoinPair} {f : PriceFeed} {ctx : BlockContext}

/-- The owner's balance at a block is below its stake, and below what a subscription takes. -/
def FallsShort (n : Network) (ctx : BlockContext) (owner : Address) : Prop :=
  ∃ e, n.registry.get? owner = some e ∧ n.staking.balance owner ctx < e.stake ∧
    n.staking.balance owner ctx < n.policy.minStake

/-- A drop below what a subscription takes strikes its owner off every list, and others do not. -/
theorem without_carryDrop {owner : Address} {previous s : Amount}
    (hs : n.registry.stake? owner = some s) (hdropped : s < previous) (hf : n.feeds.get? pair = some f) :
    ∃ f', (n.carryDrop owner previous).feeds.get? pair = some f' ∧
      f.Without f' fun o => o = owner ∧ s < n.policy.minStake := by
  rcases (n.carryDrop_cases owner previous).2 with ⟨-, hkept⟩ | ⟨t, ht, ⟨hlow, hfeeds⟩ | ⟨henough, hfeeds⟩⟩
  · have := hkept s hs
    lia
  · obtain rfl : s = t := Option.some.inj (hs.symm.trans ht)
    refine ⟨_, by rw [hfeeds, hf, Option.map_some], (f.without_expel owner).congr fun o => ?_⟩
    exact (and_iff_left hlow).symm
  · obtain rfl : s = t := Option.some.inj (hs.symm.trans ht)
    refine ⟨_, by rw [hfeeds, hf, Option.map_some], (f.without_yieldSeat owner n.registry).congr fun o => ?_⟩
    exact iff_of_false id fun h => henough h.2

theorem without_foldl_carryDrop (stakeOf : Address → Amount) (es : List OracleEntry) :
    ∀ {n : Network} {f : PriceFeed}, n.feeds.get? pair = some f →
      (∀ e ∈ es, n.registry.stake? e.owner = some (stakeOf e.owner) ∧ stakeOf e.owner < e.stake) →
      ∃ f', (es.foldl (fun n e => n.carryDrop e.owner e.stake) n).feeds.get? pair = some f' ∧
        f.Without f' fun o => o ∈ es.map (·.owner) ∧ stakeOf o < n.policy.minStake := by
  induction es with
  | nil => exact fun {n f} hf _ => ⟨f, hf, .refl f fun o ho => List.not_mem_nil ho.1⟩
  | cons e es ih =>
    intro n f hf hes
    obtain ⟨hstake, hdropped⟩ := hes e (by simp)
    obtain ⟨f₁, hf₁, hfirst⟩ := without_carryDrop hstake hdropped hf
    obtain ⟨f', hf', hrest⟩ := ih hf₁ fun x hx => by
      rw [stake?_carryDrop]
      exact hes x (by simp [hx])
    refine ⟨f', hf', (hfirst.trans hrest).congr fun o => ?_⟩
    have hpolicy : (n.carryDrop e.owner e.stake).policy = n.policy := rfl
    rw [hpolicy, List.map_cons, List.mem_cons, or_and_right]
    refine or_congr_left (and_congr_right fun heq => ?_)
    rw [heq]

theorem without_refreshStakes (h : n.InOrder) (ctx : BlockContext) (hf : n.feeds.get? pair = some f) :
    ∃ f', (n.refreshStakes ctx).feeds.get? pair = some f' ∧ f.Without f' (n.FallsShort ctx) := by
  have hu := h.mirrored.unambiguous
  have hes : ∀ e ∈ n.registry.entries.filter (fun e => n.staking.balance e.owner ctx < e.stake),
      (n.restaked ctx).stake? e.owner = some (n.staking.balance e.owner ctx) ∧
        n.staking.balance e.owner ctx < e.stake := by
    intro e he
    obtain ⟨he, hlow⟩ := List.mem_filter.1 he
    refine ⟨?_, of_decide_eq_true hlow⟩
    rw [Registry.stake?, get?_restaked hu, (Registry.get?_eq_some hu).2 ⟨he, rfl⟩]
    rfl
  obtain ⟨f', hf', hwithout⟩ := without_foldl_carryDrop
    (n := { n with registry := n.restaked ctx }) (n.staking.balance · ctx) _ hf hes
  refine ⟨f', hf', hwithout.congr fun o => ?_⟩
  constructor
  · rintro ⟨ho, hlow⟩
    obtain ⟨e, he, rfl⟩ := List.mem_map.1 ho
    obtain ⟨he, hdropped⟩ := List.mem_filter.1 he
    exact ⟨e, (Registry.get?_eq_some hu).2 ⟨he, rfl⟩, of_decide_eq_true hdropped, hlow⟩
  · rintro ⟨e, he, hdropped, hlow⟩
    obtain rfl := Registry.owner_of_get? he
    refine ⟨List.mem_map_of_mem (List.mem_filter.2 ⟨Registry.mem_of_get? he, decide_eq_true hdropped⟩), hlow⟩

/-! ### Switches -/

theorem exists_of_isOk {ε α : Type} {x : Except ε α} (h : x.isOk) : ∃ a, x = .ok a := by
  cases x with
  | error e => cases h
  | ok a => exact ⟨a, rfl⟩

/-- A switch that is accepted starts the next round by the selection of the refreshed registry. -/
theorem feeds_switchRound {caller : Address} {outcome : SwitchOutcome}
    (h : (n.switchRound caller pair ctx).result = .ok outcome) :
    ∃ f f₁ lockUntil, n.feeds.get? pair = some f ∧ (n.refreshStakes ctx).feeds.get? pair = some f₁ ∧
      (n.switchRound caller pair ctx).state.registry = (n.refreshStakes ctx).registry ∧
      (n.switchRound caller pair ctx).state.feeds = (n.refreshStakes ctx).feeds.insert f₁.pair
        (f₁.nextRound (f₁.selection (n.refreshStakes ctx).registry) lockUntil) := by
  have hout := n.outcome_switchRound caller pair ctx
  rw [h, show (Except.ok outcome : Except NetworkError SwitchOutcome).isOk = true from rfl] at hout
  generalize (n.switchRound caller pair ctx).state = n' at hout ⊢
  cases hout with
  | read hreads => cases hreads
  | staked hcall | restaked hcall => cases hcall
  | @switched _ _ f₁ f' ledger outcome' htracked hf₁ hs =>
    obtain ⟨f, hf⟩ := Option.isSome_iff_exists.1 htracked
    have hcases := f₁.switchRound_cases (n.refreshStakes ctx).registry (n.refreshStakes ctx).ledger ctx
    rw [hs] at hcases
    rcases hcases with ⟨e, he, -⟩ | ⟨o, -, hnext, -⟩
    · cases he
    · obtain rfl : f' = _ := hnext
      exact ⟨f, f₁, o.lockUntil, hf, hf₁, rfl, rfl⟩

theorem InOrder.ranks_refreshStakes (h : n.InOrder) (ctx : BlockContext)
    (hf : (n.refreshStakes ctx).feeds.get? pair = some f) :
    f.Ranks (n.refreshStakes ctx).registry (fun o => n.staking.balance o ctx)
      (f.ranked (n.refreshStakes ctx).registry) := by
  obtain ⟨-, -, hstakes, -⟩ := settled_refreshStakes h ctx
  have h' := h.reaches (n.reaches_refreshStakes ctx)
  refine PriceFeed.ranks_ranked h'.ordered h'.mirrored.unambiguous (h'.mirrored.isRegistered hf)
    fun e he => ?_
  have hstake : (n.refreshStakes ctx).registry.stake? e.owner = some e.stake := by
    rw [Registry.stake?, (Registry.get?_eq_some h'.mirrored.unambiguous).2 ⟨he, rfl⟩]
    rfl
  rw [hstakes, Option.map_eq_some_iff] at hstake
  obtain ⟨-, -, hbalance⟩ := hstake
  exact hbalance.symm

/-- In any state that a network comes to, a switch that is accepted selects by balances at its block. Those who
fall short then are off the list, and nobody else; the new round has the first of those who are left, by their
balances and, among equals, by registration. -/
theorem selects_run {params : NetworkParams} {ledger : Ledger} (hn : Network.new params ledger = .ok n)
    (steps : List Step) {caller : Address} {outcome : SwitchOutcome}
    (hok : ((n.run steps).network.switchRound caller pair ctx).result = .ok outcome) :
    let m := (n.run steps).network
    let m' := (m.switchRound caller pair ctx).state
    ∃ f f', m.feeds.get? pair = some f ∧ m'.feeds.get? pair = some f' ∧
      (∀ o, f'.isSubscribed o ↔ f.isSubscribed o ∧ ¬ m.FallsShort ctx o) ∧
      (∃! ranking, f'.Ranks m'.registry (fun o => m.staking.balance o ctx) ranking) ∧
      ∀ ranking, f'.Ranks m'.registry (fun o => m.staking.balance o ctx) ranking →
        f.Selects ranking f' := by
  intro m m'
  have h : m.InOrder := inOrder_run hn steps
  obtain ⟨f, f₁, lockUntil, hf, hf₁, hregistry, hfeeds⟩ := feeds_switchRound (n := m) hok
  obtain ⟨f₁', hf₁', hwithout⟩ := without_refreshStakes h ctx hf
  obtain rfl : f₁ = f₁' := Option.some.inj (hf₁.symm.trans hf₁')
  have h₁ : (m.refreshStakes ctx).InOrder := h.reaches (m.reaches_refreshStakes ctx)
  have hranks := h.ranks_refreshStakes ctx hf₁
  have hselects := PriceFeed.selects_nextRound (h₁.mirrored.capped pair f₁ hf₁).valid hranks lockUntil
  have hranks' : (f₁.nextRound (f₁.selection (m.refreshStakes ctx).registry) lockUntil).Ranks m'.registry
      (fun o => m.staking.balance o ctx) (f₁.ranked (m.refreshStakes ctx).registry) := by
    rw [hregistry]
    exact ⟨hranks.entry, hranks.listed, hranks.sorted⟩
  refine ⟨f, f₁.nextRound (f₁.selection (m.refreshStakes ctx).registry) lockUntil, hf, ?_, hwithout.listed,
    hranks'.existsUnique, fun ranking hranking => ?_⟩
  · rw [hfeeds, h₁.mirrored.pair_eq pair f₁ hf₁, Table.get?_insert_self]
  · obtain rfl := hranking.unique hranks'
    refine ⟨hselects.number.trans (congrArg (· + 1) hwithout.number), ?_, hselects.seated, ?_⟩
    · rw [← hwithout.params]
      exact hselects.seats
    · rw [← hwithout.params]
      exact hselects.flagged

/-- Four oracles are subscribed, a reward doubles their stakes, and a subscription is made to take more. A switch
at a block before the reward strikes off the one that falls short then, and of the others selects the one with
the highest balance and the earlier of two with equal ones. -/
theorem selects_run_of_shortfall :
    let governor := Address.ofNat 1
    let low := Address.ofNat 2
    let early := Address.ofNat 3
    let late := Address.ofNat 4
    let high := Address.ofNat 5
    let pair : CoinPair := default
    let ledger : Ledger :=
      ⟨((((Table.empty.insert low 4).insert early 6).insert late 6).insert high 7).insert governor 23,
        .empty, 46⟩
    let staking : Staking :=
      ⟨stakingAccount, ⟨.empty, 0, 0, .none, 0, 10⟩, ledger, .new vaultAccount, 3600, .empty, .empty, .empty⟩
    let n : Network := ⟨.empty, staking, .empty, ⟨0, 1⟩, .governor governor, []⟩
    let params : RoundParams := { minOracles := 1, maxOracles := 2, maxSubscribed := 4 }
    let joins (owner : Address) (stake : Amount) : List Step := [
      .command (.act owner (.approve stake)) ⟨2, 20⟩,
      .command (.act owner (.deposit stake none)) ⟨2, 20⟩,
      .command (.act owner (.registerOracle owner "host")) ⟨2, 20⟩,
      .command (.act owner (.subscribe pair)) ⟨2, 20⟩]
    let steps : List Step :=
      .command (.act governor (.executeChange (.registerPair pair params))) ⟨1, 10⟩
        :: joins low 4 ++ joins early 6 ++ joins late 6 ++ joins high 7 ++ [
      .command (.act governor (.approve 23)) ⟨3, 30⟩,
      .command (.act governor (.distribute 23)) ⟨3, 30⟩,
      .refreshStakes ⟨13, 130⟩,
      .command (.act governor (.executeChange (.setMinSubscriptionStake 6))) ⟨13, 130⟩]
    let m := (n.run steps).network
    let switch := m.switchRound governor pair ⟨3, 30⟩
    Network.new { governor } ledger = .ok n ∧ switch.result.isOk ∧ m.FallsShort ⟨3, 30⟩ low ∧
      (switch.state.feeds.get? pair).map (fun f => (f.subscribed.keys, f.round.seats))
        = some ([early, late, high], [⟨high, high, 0, false⟩, ⟨early, early, 0, false⟩]) := by
  intro governor low early late high pair ledger staking n params joins steps
  have hn : Network.new { governor } ledger = .ok n := new_of_governor rfl ledger
  have hswitch : ((n.run steps).network.switchRound governor pair ⟨3, 30⟩).result.isOk ∧
      ((n.run steps).network.feeds.get? pair).map (fun f => f.isSubscribed low) = some true ∧
      (((n.run steps).network.switchRound governor pair ⟨3, 30⟩).state.feeds.get? pair).map
          (fun f => (f.subscribed.keys, f.round.seats))
        = some ([early, late, high], [⟨high, high, 0, false⟩, ⟨early, early, 0, false⟩]) := by
    simp only [n, staking, stakingAccount_eq, vaultAccount_eq]
    decide +kernel
  obtain ⟨hisOk, hlisted, hselected⟩ := hswitch
  obtain ⟨outcome, hok⟩ :
      ∃ outcome, ((n.run steps).network.switchRound governor pair ⟨3, 30⟩).result = .ok outcome :=
    exists_of_isOk hisOk
  obtain ⟨f, f', hf, hf', hleft, -⟩ := selects_run hn steps hok
  refine ⟨hn, hisOk, not_not.1 fun hkept => ?_, hselected⟩
  -- who does not fall short would still be on the list
  rw [hf, Option.map_some, Option.some_inj] at hlisted
  have hstill : f'.isSubscribed low := (hleft low).2 ⟨hlisted, hkept⟩
  rw [hf', Option.map_some, Option.some_inj] at hselected
  rw [PriceFeed.isSubscribed, ← Table.mem_keys, (Prod.mk.inj hselected).1] at hstill
  exact absurd hstill (by decide)

end Network

end PriceOracle
