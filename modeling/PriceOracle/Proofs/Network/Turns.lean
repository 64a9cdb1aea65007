import PriceOracle.Proofs.Feed.Rewards
import PriceOracle.Proofs.Feed.Tenure
import PriceOracle.Proofs.Network.Current
/-! What one call does to a network whose stakes are current. If it is refused, nothing has happened but that
stakes were brought up to date, silently. If it is accepted, every round goes on and every seat in it stays,
unless the call switches that round or is a withdrawal of the seat's owner. Either way stakes are current
again. -/
namespace PriceOracle.Network

/-! ### What a call leaves -/

/-- Nothing is recorded and nothing has changed but registered stakes, which may be up to date now. What is
on the ledger is not told. -/
structure Unrecorded (n : Network) (ctx : BlockContext) (n' : Network) : Prop where
  events : n'.events = n.events
  feeds : n'.feeds = n.feeds
  policy : n'.policy = n.policy
  authorizer : n'.authorizer = n.authorizer
  registry : n'.registry = n.registry ∨ n'.registry = n.restaked ctx
  staking : n'.staking = { n.staking with ledger := n'.staking.ledger }

/-- The pair's round goes on, and an owner with a seat in it keeps the seat and its points. -/
def Retains (n n' : Network) (pair : CoinPair) (owner : Address) : Prop :=
  ∀ f, n.feeds.get? pair = some f → ∃ f', n'.feeds.get? pair = some f' ∧ f.round.Retains f'.round owner

/-- The pair's round goes on without an owner. -/
def Leaves (n n' : Network) (pair : CoinPair) (owner : Address) : Prop :=
  ∃ f f', n.feeds.get? pair = some f ∧ n'.feeds.get? pair = some f' ∧
    f'.round.number = f.round.number ∧ ¬ f'.round.seatsOwner owner

/-- What a call leaves at a block: a refusal leaves no record, and a seat is lost only where the call switches
the pair's round, or to an owner that is free to leave. -/
structure Turn (n : Network) (ctx : BlockContext) (switches : CoinPair → Prop) (leaves : Address → Prop)
    (accepted : Bool) (n' : Network) : Prop where
  current : n'.Current ctx.number
  refused : accepted = false → n.Unrecorded ctx n'
  seats : ∀ pair owner, n.Retains n' pair owner ∨
    accepted ∧ (switches pair ∨ leaves owner ∧ n.Leaves n' pair owner)

variable {n n' n'' : Network} {now : Nat} {ctx : BlockContext} {switches : CoinPair → Prop}
  {leaves : Address → Prop}

theorem Retains.of_feeds_eq (h : n'.feeds = n.feeds) (pair : CoinPair) (owner : Address) :
    n.Retains n' pair owner := fun f hf => ⟨f, h ▸ hf, .refl _ _⟩

theorem Retains.refl (n : Network) (pair : CoinPair) (owner : Address) : n.Retains n pair owner :=
  .of_feeds_eq rfl pair owner

theorem Retains.trans {pair : CoinPair} {owner : Address} (h : n.Retains n' pair owner)
    (h' : n'.Retains n'' pair owner) : n.Retains n'' pair owner := by
  intro f hf
  obtain ⟨f', hf', hround⟩ := h f hf
  obtain ⟨f'', hf'', hround'⟩ := h' f' hf'
  exact ⟨f'', hf'', hround.trans hround'⟩

theorem Retains.withFeed (hm : Mirrored n.registry n.feeds) {pair : CoinPair} {f f' : PriceFeed}
    (hf : n.feeds.get? pair = some f) (hr : ∀ owner, f.Retains f' owner)
    (hfeeds : n'.feeds = n.feeds.insert f'.pair f') (p : CoinPair) (owner : Address) :
    n.Retains n' p owner := by
  intro g hg
  rw [hfeeds, Table.get?_insert]
  by_cases heq : p = f'.pair
  · rw [if_pos heq]
    have hpair : p = pair := by rw [heq, (hr owner).pair, hm.pair_eq pair f hf]
    rw [hpair, hf] at hg
    cases hg
    exact ⟨f', rfl, (hr owner).round⟩
  · rw [if_neg heq]
    exact ⟨g, hg, .refl _ _⟩

/-- A feed that is stored again is stored already. -/
theorem insert_of_get? (hm : Mirrored n.registry n.feeds) {pair : CoinPair} {f : PriceFeed}
    (hf : n.feeds.get? pair = some f) : n.feeds.insert f.pair f = n.feeds := by
  apply Table.ext
  intro p
  rw [Table.get?_insert, hm.pair_eq pair f hf]
  split
  · rename_i heq
    rw [heq, hf]
  · rfl

/-! ### Kinds of turns -/

/-- A call that only reads, or is refused at once. -/
theorem Turn.unchanged (h : n.Current now) (hnow : now ≤ ctx.number) (accepted : Bool) :
    Turn n ctx switches leaves accepted n where
  current := h.mono hnow
  refused _ := ⟨rfl, rfl, rfl, rfl, .inl rfl, rfl⟩
  seats pair owner := .inl (.refl n pair owner)

/-- A call that only reads, or is refused, once stakes are up to date. -/
theorem Turn.refreshed (h : n.Current now) (hnow : now ≤ ctx.number) (accepted : Bool) :
    Turn n ctx switches leaves accepted { n with registry := n.restaked ctx } where
  current := h.restaked hnow
  refused _ := ⟨rfl, rfl, rfl, rfl, .inr rfl, rfl⟩
  seats pair owner := .inl (.of_feeds_eq rfl pair owner)

theorem Turn.ok (h : n'.Current ctx.number) (hseats : ∀ pair owner, n.Retains n' pair owner) :
    Turn n ctx switches leaves true n' where
  current := h
  refused he := by cases he
  seats pair owner := .inl (hseats pair owner)

theorem Turn.aside (h : n'.Current ctx.number) (hfeeds : n'.feeds = n.feeds) :
    Turn n ctx switches leaves true n' :=
  .ok h fun pair owner => .of_feeds_eq hfeeds pair owner

theorem Turn.record (h : Turn n ctx switches leaves true n') (es : List Event) :
    Turn n ctx switches leaves true (n'.record es) :=
  ⟨h.current.congr rfl rfl rfl, fun he => (by cases he), h.seats⟩

/-! ### Oracles and subscriptions -/

theorem Turn.registered (h : n.Current now) (hnow : now ≤ ctx.number) {caller address : Address} {name : String}
    {entry : OracleEntry} {registry : Registry}
    (hr : n.registry.register caller address name (n.staking.balance caller ctx) none = .ok (entry, registry)) :
    Turn n ctx switches leaves true { n with registry } := by
  refine .aside ?_ rfl
  refine (h.mono hnow).of_reaches (Edit.registered hr).reaches rfl fun owner s hs => ?_
  have hstake := Registry.stake?_register hr owner
  by_cases heq : owner = caller
  · rw [if_pos heq] at hstake
    rw [heq]
    exact .inr (Option.some.inj (hs.symm.trans hstake))
  · rw [if_neg heq] at hstake
    exact .inl (hstake.symm.trans hs)

theorem Turn.renamed (h : n.Current now) (hnow : now ≤ ctx.number) {caller : Address} {name : String}
    {registry : Registry} (hr : n.registry.setName caller name = .ok registry) :
    Turn n ctx switches leaves true { n with registry } := by
  refine .aside ?_ rfl
  exact (h.mono hnow).of_reaches (Edit.renamed hr).reaches rfl fun owner s hs =>
    .inl ((Registry.stake?_setName hr owner).symm.trans hs)

theorem Turn.removed (h : n.Current now) (hnow : now ≤ ctx.number) {caller : Address} {entry : OracleEntry}
    {registry : Registry} (hr : n.registry.remove caller = .ok (entry, registry))
    (hidle : n.policy.canRemove caller n.feeds) :
    Turn n ctx switches leaves true
      { n with
        registry
        feeds := n.feeds.map fun _ (f : PriceFeed) => if f.isSubscribed caller then f.drop caller else f } := by
  refine .ok ?_ fun pair owner f hf => ?_
  · refine (h.mono hnow).of_reaches (Edit.removed hr hidle).reaches rfl fun owner s hs => ?_
    have hstake := (Registry.stake?_remove hr owner).symm.trans hs
    split at hstake
    · cases hstake
    · exact .inl hstake
  · refine ⟨_, (Table.get?_map _ n.feeds pair).trans (congrArg _ hf), ?_⟩
    dsimp only
    split
    · exact (f.retains_drop caller owner).round
    · exact .refl _ _

theorem Turn.subscribed (h : n.Current now) (hnow : now ≤ ctx.number) {caller : Address} {pair : CoinPair}
    {f f' : PriceFeed} {outcome : SubscribeOutcome} {registry : Registry} (hf : n.feeds.get? pair = some f)
    (hs : n.policy.subscribe caller f (n.restaked ctx) = .ok (outcome, f', registry)) :
    Turn n ctx switches leaves true ({ n with registry }.withFeed f') := by
  obtain ⟨hfeed, hregistry⟩ := subscribe_eq_ok hs
  refine .ok ?_ ?_
  · have hedit : Edit { n with registry := n.restaked ctx } registry (n.feeds.insert f'.pair f') :=
      .subscribed hf hs
    refine (h.restaked hnow).of_reaches hedit.reaches rfl fun owner s hstake => .inl (Eq.trans ?_ hstake)
    show _ = registry.stake? owner
    rw [hregistry, Registry.stake?_enlist]
    cases outcome.evicted with
    | none => rfl
    | some tail => exact (Registry.stake?_delist _ tail _ owner).symm
  · have heffect := f.effect_after (.subscribe caller (n.restaked ctx) : PriceFeed.Call Ledger)
    rw [PriceFeed.after, hfeed] at heffect
    exact .withFeed h.inOrder.mirrored hf (fun owner => PriceFeed.retains_of_effect heffect trivial) rfl

theorem Turn.unsubscribed (h : n.Current now) (hnow : now ≤ ctx.number) {caller : Address} {pair : CoinPair}
    {f : PriceFeed} (hf : n.feeds.get? pair = some f) (hlisted : f.isSubscribed caller) :
    Turn n ctx switches leaves true
      ({ n with registry := n.registry.delist caller f.pair }.withFeed (f.drop caller)) := by
  refine .ok ?_ (.withFeed h.inOrder.mirrored hf (f.retains_drop caller) rfl)
  exact (h.mono hnow).of_reaches (Edit.unsubscribed hf hlisted).reaches rfl fun owner s hs =>
    .inl ((Registry.stake?_delist _ caller f.pair owner).symm.trans hs)

/-! ### Staking -/

section

variable {caller : Address} {call : StakingCall} {staking : Staking}

theorem Current.performed (h : n.Current now) (hnow : now ≤ ctx.number)
    (hcaller : caller ≠ stakingAccount ∧ caller ≠ vaultAccount)
    (hs : (n.staking.perform caller ctx call).state = staking) :
    staking.account = stakingAccount ∧ staking.vault.account = vaultAccount ∧ staking.Solvent ∧
      ∀ owner s, n.registry.stake? owner = some s →
        ¬ n.staking.TakesFrom (.own owner) (.call caller call ctx) →
        s ≤ staking.pool.balanceOf (.own owner) ctx.number := by
  subst hs
  exact h.after (.call caller call ctx) hcaller hnow

/-- A call on staking that is refused. A reward may have been pulled already, but then nothing has changed
besides the ledger. -/
theorem Turn.stakingRefused (h : n.Current now) (hnow : now ≤ ctx.number)
    (hcaller : caller ≠ stakingAccount ∧ caller ≠ vaultAccount) {e : StakingError}
    (hs : n.staking.perform caller ctx call = .fail staking e) :
    Turn n ctx switches leaves false { n with staking } := by
  obtain ⟨haccount, hvault, hsolvent, -⟩ := h.performed hnow hcaller (congrArg Attempt.state hs)
  have hsame := Staking.state_of_refused h.solvent (h.account ▸ hcaller.1) (congrArg Attempt.result hs)
  rw [hs] at hsame
  have hsame : staking = { n.staking with ledger := staking.ledger } := hsame
  have hpool : staking.pool = n.staking.pool := by rw [hsame]
  refine ⟨h.withStaking haccount hvault hsolvent ?_, fun _ => ⟨rfl, rfl, rfl, rfl, .inl rfl, hsame⟩,
    fun pair owner => .inl (.of_feeds_eq rfl _ _)⟩
  rw [hpool]
  exact (h.mono hnow).stake_le

/-- A call on staking that takes nothing from anybody's own account. -/
theorem Turn.staked (h : n.Current now) (hnow : now ≤ ctx.number)
    (hcaller : caller ≠ stakingAccount ∧ caller ≠ vaultAccount)
    (hs : n.staking.perform caller ctx call = .ok staking ())
    (hkept : ∀ owner, call.source? caller ≠ some (.own owner)) :
    Turn n ctx switches leaves true { n with staking } := by
  obtain ⟨haccount, hvault, hsolvent, hle⟩ := h.performed hnow hcaller (congrArg Attempt.state hs)
  refine .aside (h.withStaking haccount hvault hsolvent fun owner s hstake => ?_) rfl
  exact hle owner s hstake fun htaken => hkept owner htaken.1

/-- All feeds change alike, and that costs nobody but one owner a seat. -/
theorem retains_or_leaves_of_map {pair : CoinPair} {owner other : Address} {g : PriceFeed → PriceFeed}
    (hfeeds : n'.feeds.get? pair = (n.feeds.get? pair).map g)
    (hother : other ≠ owner → ∀ f : PriceFeed, f.Retains (g f) other)
    (hown : ∀ f : PriceFeed, f.Retains (g f) owner ∨
      (g f).round.number = f.round.number ∧ ¬ (g f).round.seatsOwner owner) :
    n.Retains n' pair other ∨ other = owner ∧ n.Leaves n' pair other := by
  cases hf : n.feeds.get? pair with
  | none => exact .inl fun f hf' => by rw [hf] at hf'; cases hf'
  | some f =>
    rw [hf, Option.map_some] at hfeeds
    have kept (hr : f.Retains (g f) other) : n.Retains n' pair other := by
      intro f₁ hf₁
      obtain rfl : f = f₁ := Option.some.inj (hf.symm.trans hf₁)
      exact ⟨g f, hfeeds, hr.round⟩
    by_cases heq : other = owner
    · subst heq
      rcases hown f with hr | ⟨hnumber, hout⟩
      · exact .inl (kept hr)
      · exact .inr ⟨rfl, f, g f, hf, hfeeds, hnumber, hout⟩
    · exact .inl (kept (hother heq f))

/-- Whoever passes its seat on is out of the round. -/
theorem retains_or_out_yieldSeat {registry : Registry} (ho : registry.Ordered) (hu : registry.Unambiguous)
    (owner : Address) (f : PriceFeed) :
    f.Retains ((f.yieldSeat? owner registry).elim f (·.2)) owner ∨
      ((f.yieldSeat? owner registry).elim f (·.2)).round.number = f.round.number ∧
        ¬ ((f.yieldSeat? owner registry).elim f (·.2)).round.seatsOwner owner := by
  cases hy : f.yieldSeat? owner registry with
  | none => exact .inl (.refl f owner)
  | some x =>
    obtain ⟨e, -, -, -, -, hx⟩ := PriceFeed.yieldSeat?_eq_some hy
    obtain ⟨c, -, -, -, -, -, -, hwaits, hheld, -, -, hseats⟩ := PriceFeed.yieldSeat?_cases ho hu hy
    have hnumber : x.2.round.number = f.round.number := by
      rw [hx]
      rfl
    refine .inr ⟨hnumber, fun hseat => ?_⟩
    rcases (hseats owner).1 hseat with rfl | ⟨hne, -⟩
    · exact hwaits hheld
    · exact hne rfl

theorem retains_carryDrop (h : n.InOrder) (owner : Address) (previous : Amount) (pair : CoinPair)
    (other : Address) : n.Retains (n.carryDrop owner previous) pair other ∨
      other = owner ∧ n.Leaves (n.carryDrop owner previous) pair other := by
  rcases (n.carryDrop_cases owner previous).2 with ⟨hsame, -⟩ | ⟨s, -, ⟨-, hfeeds⟩ | ⟨-, hfeeds⟩⟩
  · rw [hsame]
    exact .inl (.refl n pair other)
  · exact retains_or_leaves_of_map (hfeeds pair) (fun hne f => f.retains_expel hne) fun f =>
      .inr ⟨rfl, fun hseat => (PriceFeed.seatsOwner_expel.1 hseat).1 rfl⟩
  · exact retains_or_leaves_of_map (hfeeds pair) (fun hne f => f.retains_yieldSeat n.registry hne)
      (retains_or_out_yieldSeat h.ordered h.mirrored.unambiguous owner)

/-- A refresh in which only the caller's stake can drop costs nobody else a seat. -/
theorem Turn.refreshing {m : Network} (hm : m.InOrder) (haccount : m.staking.account = stakingAccount)
    (hvault : m.staking.vault.account = vaultAccount) (hs : m.staking.Solvent) (hfeeds : m.feeds = n.feeds)
    (hdrops : ∀ e ∈ m.registry.entries, m.staking.balance e.owner ctx < e.stake →
      e.owner = caller ∧ leaves e.owner) :
    Turn n ctx switches leaves true (m.refreshStakes ctx) := by
  refine ⟨current_refreshStakes hm haccount hvault hs ctx, fun he => (by cases he), fun pair owner => ?_⟩
  rcases refreshStakes_cases hm.mirrored.unambiguous (fun e he hlow => (hdrops e he hlow).1) with
    heq | ⟨e, he, hown, hlow, heq⟩
  · rw [heq]
    exact .inl (.of_feeds_eq hfeeds pair owner)
  · rw [heq]
    have hrestaked : ({ m with registry := m.restaked ctx } : Network).InOrder :=
      hm.reaches (Move.restaked ctx).reaches
    rcases retains_carryDrop hrestaked caller e.stake pair owner with hkept | ⟨rfl, f, f', hf, hleft⟩
    · exact .inl (Retains.trans (.of_feeds_eq hfeeds pair owner) hkept)
    · exact .inr ⟨rfl, .inr ⟨hown ▸ (hdrops e he (hown ▸ hlow)).2, f, f', hfeeds ▸ hf, hleft⟩⟩

/-- A call on staking after which stakes are brought up to date. Only a withdrawal of the caller's from its
own account can lower a balance. -/
theorem Turn.restaked (h : n.Current now) (hnow : now ≤ ctx.number)
    (hcaller : caller ≠ stakingAccount ∧ caller ≠ vaultAccount)
    (hs : n.staking.perform caller ctx call = .ok staking ())
    (hsource : ∀ owner, call.source? caller = some (.own owner) → owner = caller ∧ leaves owner)
    (events : List Event) :
    Turn n ctx switches leaves true (({ n with staking }.record events).refreshStakes ctx) := by
  obtain ⟨haccount, hvault, hsolvent, hle⟩ := h.performed hnow hcaller (congrArg Attempt.state hs)
  have hinOrder : ({ n with staking }.record events).InOrder := h.inOrder.reaches (.aside rfl rfl)
  have hdrops : ∀ e ∈ n.registry.entries, staking.balance e.owner ctx < e.stake →
      e.owner = caller ∧ leaves e.owner := by
    intro e he hlow
    have hstake : n.registry.stake? e.owner = some e.stake := by
      rw [Registry.stake?, (Registry.get?_eq_some h.inOrder.mirrored.unambiguous).2 ⟨he, rfl⟩]
      rfl
    by_contra hnot
    have hkept := hle e.owner e.stake hstake fun htaken => hnot (hsource e.owner htaken.1)
    exact absurd hlow (Nat.not_lt.2 hkept)
  exact .refreshing hinOrder haccount hvault hsolvent rfl hdrops

end

/-! ### Prices and rounds -/

/-- An accepted call on one feed that is no switch and takes nobody's seat. -/
theorem Turn.called (h : n.Current now) (hnow : now ≤ ctx.number) {pair : CoinPair} {f f' : PriceFeed}
    (hf : n.feeds.get? pair = some f) {call : PriceFeed.Call Ledger} (heffect : f.Effect call f')
    (hkeeps : call.KeepsList) (hspares : ∀ owner, call.Spares owner) :
    Turn n ctx switches leaves true (n.withFeed f') := by
  refine .ok ?_ (.withFeed h.inOrder.mirrored hf
    (fun owner => PriceFeed.retains_of_effect heffect (hspares owner)) rfl)
  exact (h.mono hnow).of_reaches (Edit.called hf heffect hkeeps).reaches rfl fun _ _ hs => .inl hs

section

variable {pair : CoinPair} {f f' : PriceFeed} {ledger : Ledger}

/-- A switch, accepted or refused, takes nothing from staking. -/
theorem Current.switched {block : Nat} (h : n.Current block) (hfees : f.pair.feeAccount ≠ stakingAccount)
    {registry : Registry} {result : Except RoundError SwitchOutcome}
    (hs : f.switchRound registry n.ledger ctx = ⟨result, (f', ledger)⟩) : (n.withLedger ledger).Current block := by
  obtain ⟨hb, hle⟩ := Ledger.balanceOf_switchRound f registry h.solvent.bounded ctx hfees.symm
  rw [show n.staking.ledger = n.ledger from rfl, hs] at hb hle
  exact h.withLedger hb hle

/-- The next round has begun on its pair, and no other feed has changed. -/
theorem Turn.switched (h : n.Current now) (hnow : now ≤ ctx.number)
    (hfees : pair.feeAccount ≠ stakingAccount) (hswitches : switches pair) {outcome : SwitchOutcome}
    (hf : n.feeds.get? pair = some f)
    (hs : f.switchRound (n.restaked ctx) n.ledger ctx = ⟨.ok outcome, (f', ledger)⟩) :
    Turn n ctx switches leaves true
      (({ n with registry := n.restaked ctx }.withFeed f').withLedger ledger) := by
  have hm := h.inOrder.mirrored
  have hpair : f.pair = pair := hm.pair_eq pair f hf
  have heffect := effect_of_switchRound hs
  have hpair' : f'.pair = pair := (PriceFeed.onSameTerms_switchRound hs).pair.trans hpair
  have hedit : Edit { n with registry := n.restaked ctx } (n.restaked ctx) (n.feeds.insert f'.pair f') :=
    .called hf heffect trivial
  have hmoved : (({ n with registry := n.restaked ctx } : Network).withFeed f').Current ctx.number :=
    (h.restaked hnow).of_reaches hedit.reaches rfl fun _ _ hs => .inl hs
  refine ⟨hmoved.switched (hpair ▸ hfees) hs, fun he => (by cases he), fun p owner => ?_⟩
  by_cases heq : p = pair
  · exact .inr ⟨rfl, .inl (heq ▸ hswitches)⟩
  · refine .inl fun g hg => ⟨g, ?_, .refl _ _⟩
    exact (Table.get?_insert_ne n.feeds f' (hpair' ▸ heq)).trans hg

/-- A switch that is refused half way has paid its rewards back. -/
theorem Turn.switchRefused (h : n.Current now) (hnow : now ≤ ctx.number)
    (hfees : pair.feeAccount ≠ stakingAccount) {e : RoundError} (hf : n.feeds.get? pair = some f)
    (hs : f.switchRound (n.restaked ctx) n.ledger ctx = ⟨.error e, (f, ledger)⟩) :
    Turn n ctx switches leaves false
      (({ n with registry := n.restaked ctx }.withFeed f).withLedger ledger) := by
  have hm := h.inOrder.mirrored
  have hpair : f.pair = pair := hm.pair_eq pair f hf
  have hfeeds : n.feeds.insert f.pair f = n.feeds := insert_of_get? hm hf
  refine ⟨?_, fun _ => ⟨rfl, hfeeds, rfl, rfl, .inr rfl, rfl⟩, fun p owner => .inl (.of_feeds_eq hfeeds p owner)⟩
  exact ((h.restaked hnow).switched (hpair ▸ hfees) hs).congr rfl hfeeds rfl

end

/-! ### Protocol changes -/

theorem Turn.tracked (h : n.Current now) (hnow : now ≤ ctx.number) {pair : CoinPair} {params : RoundParams}
    {f : PriceFeed} (hnew : n.feeds.get? pair = none) (hs : PriceFeed.start pair params ctx = .ok f) :
    Turn n ctx switches leaves true (n.withFeed f) := by
  obtain ⟨hpair, -, -⟩ := PriceFeed.Capped.start hs
  refine .ok ?_ fun p owner g hg => ⟨g, ?_, .refl _ _⟩
  · exact (h.mono hnow).of_reaches (Edit.tracked hnew hs).reaches rfl fun _ _ hs => .inl hs
  · have hne : p ≠ f.pair := by
      rintro rfl
      rw [hpair, hnew] at hg
      cases hg
    exact (Table.get?_insert_ne n.feeds f hne).trans hg

theorem Turn.capped (h : n.Current now) (hnow : now ≤ ctx.number) {pair : CoinPair} {value : Nat}
    {f f' : PriceFeed} {dropped : List Address} (hf : n.feeds.get? pair = some f)
    (hs : f.setMaxSubscribed value (n.restaked ctx) = .ok (dropped, f')) :
    Turn n ctx switches leaves true
      ({ n with
          registry := dropped.foldl (fun registry owner => registry.delist owner pair)
            (n.restaked ctx) }.withFeed f') := by
  have heffect : f.Effect (.setMaxSubscribed value (n.restaked ctx) : PriceFeed.Call Ledger) f' := .capped hs
  have hedit : Edit { n with registry := n.restaked ctx }
      (dropped.foldl (fun registry owner => registry.delist owner pair) (n.restaked ctx))
      (n.feeds.insert f'.pair f') := .capped hf hs
  refine .ok ?_ (.withFeed h.inOrder.mirrored hf
    (fun owner => PriceFeed.retains_of_effect heffect trivial) rfl)
  refine (h.restaked hnow).of_reaches hedit.reaches rfl fun owner s hstake => ?_
  exact .inl ((Registry.stake?_foldl_delist _ _ _ _ _).symm.trans hstake)

/-- A change of the parameters of staking lowers no balance. -/
theorem Turn.adjusted (h : n.Current now) (hnow : now ≤ ctx.number) {setting : StakingSetting}
    {staking : Staking} (hs : n.staking.adjust setting = .ok staking) :
    Turn n ctx switches leaves true { n with staking } := by
  obtain ⟨haccount, hvault, hsolvent, hle⟩ := h.after (.set setting) trivial (Nat.le_refl now)
  rw [Staking.after, hs] at haccount hvault hsolvent hle
  refine .aside ?_ rfl
  have hcurrent : ({ n with staking } : Network).Current now :=
    h.withStaking haccount hvault hsolvent fun owner s hstake => hle owner s hstake id
  exact hcurrent.mono hnow

theorem Changed.turn (h : n.Current now) (hnow : now ≤ ctx.number) {change : ProtocolChange}
    (hc : n.Changed ctx change n') : Turn n ctx switches leaves true n' := by
  cases hc with
  | tracked hnew hs => exact .tracked h hnow hnew hs
  | capped htracked hf hs =>
    rw [h.refreshStakes_eq hnow] at hf hs ⊢
    exact (Turn.capped h hnow hf hs).record _
  | @set pair change call f f' hcall hf hafter hterms =>
    exact .called h hnow hf (hafter ▸ f.effect_after call) (PairChange.keepsList_of_setter? hcall)
      (PairChange.spares_of_setter? hcall)
  | minStake amount | idleRounds rounds => exact .aside ((h.mono hnow).congr rfl rfl rfl) rfl
  | adjusted hsetting hs => exact .adjusted h hnow hs

end PriceOracle.Network
