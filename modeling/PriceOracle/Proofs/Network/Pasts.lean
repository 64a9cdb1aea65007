import PriceOracle.Proofs.Feed.Idleness
import PriceOracle.Proofs.Network.Terms
/-! How feeds come about on a network. Whatever is done to a network, it changes a feed by the feed's own calls,
and starts it before the first of them. So in a run every tracked feed has a past, and this goes through all
states that the feed had after the steps of the run. -/
namespace PriceOracle.Network

variable {n n' n'' : Network} {pair : CoinPair} {f f' : PriceFeed}

/-- From one network to another, feeds change by calls on them, and new ones have a past of their own. -/
structure ByCalls (n n' : Network) : Prop where
  kept : ∀ pair f, n.feeds.get? pair = some f →
    ∃ calls : List (PriceFeed.Call Ledger), n'.feeds.get? pair = some (f.run calls)
  started : ∀ pair f', n.feeds.get? pair = none → n'.feeds.get? pair = some f' →
    ∃ h : PriceFeed.Past Ledger, h.feed = f'

theorem ByCalls.aside (hfeeds : n'.feeds = n.feeds) : n.ByCalls n' where
  kept pair f hf := ⟨[], by rw [hfeeds, hf]; rfl⟩
  started pair f' hnone hf' := by
    rw [hfeeds, hnone] at hf'
    cases hf'

theorem ByCalls.refl (n : Network) : n.ByCalls n := .aside rfl

theorem ByCalls.trans (h : n.ByCalls n') (h' : n'.ByCalls n'') : n.ByCalls n'' where
  kept pair f hf := by
    obtain ⟨calls, hf'⟩ := h.kept pair f hf
    obtain ⟨calls', hf''⟩ := h'.kept pair _ hf'
    exact ⟨calls ++ calls', hf''.trans (congrArg some (List.foldl_append ..).symm)⟩
  started pair f'' hnone hf'' := by
    cases hf' : n'.feeds.get? pair with
    | none => exact h'.started pair f'' hf' hf''
    | some f' =>
      obtain ⟨past, rfl⟩ := h.started pair f' hnone hf'
      obtain ⟨calls, hcalls⟩ := h'.kept pair _ hf'
      exact ⟨past.extend calls, (past.feed_extend calls).trans (Option.some.inj (hcalls.symm.trans hf''))⟩

theorem ByCalls.map (call : PriceFeed.Call Ledger)
    (hfeeds : ∀ p, n'.feeds.get? p = (n.feeds.get? p).map (·.after call)) : n.ByCalls n' where
  kept pair f hf := ⟨[call], by rw [hfeeds, hf]; rfl⟩
  started pair f' hnone hf' := by
    rw [hfeeds, hnone] at hf'
    cases hf'

theorem ByCalls.stored (hm : Mirrored n.registry n.feeds) (hf : n.feeds.get? pair = some f)
    (call : PriceFeed.Call Ledger) (hcall : f.after call = f') (hfeeds : n'.feeds = n.feeds.insert f'.pair f') :
    n.ByCalls n' := by
  subst hcall
  have hget : ∀ p, n'.feeds.get? p = if p = pair then some (f.after call) else n.feeds.get? p := by
    intro p
    rw [hfeeds, PriceFeed.pair_of_effect (f.effect_after call), hm.pair_eq pair f hf, Table.get?_insert]
  refine ⟨fun p g hg => ?_, fun p g hnone hg => ?_⟩
  · by_cases heq : p = pair
    · obtain rfl : f = g := Option.some.inj (hf.symm.trans (heq ▸ hg))
      exact ⟨[call], by rw [hget, if_pos heq]; rfl⟩
    · exact ⟨[], by rw [hget, if_neg heq, hg]; rfl⟩
  · by_cases heq : p = pair
    · rw [heq, hf] at hnone
      cases hnone
    · rw [hget, if_neg heq, hnone] at hg
      cases hg

/-! ### Stakes -/

theorem byCalls_carryDrop (n : Network) (owner : Address) (previous : Amount) :
    n.ByCalls (n.carryDrop owner previous) := by
  rcases (n.carryDrop_cases owner previous).2 with ⟨hsame, -⟩ | ⟨s, -, ⟨-, hfeeds⟩ | ⟨-, hfeeds⟩⟩
  · rw [hsame]
    exact .refl n
  · exact .map (.expel owner) hfeeds
  · exact .map (.yieldSeat owner n.registry) hfeeds

theorem byCalls_refreshStakes (n : Network) (ctx : BlockContext) : n.ByCalls (n.refreshStakes ctx) :=
  refreshStakes_induction (motive := n.ByCalls) (.aside rfl) fun m owner previous h =>
    h.trans (m.byCalls_carryDrop owner previous)

/-! ### Commands -/

/-- A new pair has a feed that was just started. -/
theorem ByCalls.tracked {params : RoundParams} {ctx : BlockContext} (hnew : n.feeds.get? pair = none)
    (hs : PriceFeed.start pair params ctx = .ok f) : n.ByCalls (n.withFeed f) := by
  have hget : ∀ p, (n.withFeed f).feeds.get? p = if p = pair then some f else n.feeds.get? p := by
    intro p
    rw [withFeed, (PriceFeed.start_eq_ok hs).1, Table.get?_insert]
  refine ⟨fun p g hg => ⟨[], ?_⟩, fun p g hg hg' => ?_⟩
  · have hne : p ≠ pair := by
      rintro rfl
      rw [hnew] at hg
      cases hg
    rw [hget, if_neg hne, hg]
    rfl
  · rw [hget] at hg'
    split at hg'
    · cases hg'
      exact ⟨⟨f, ⟨pair, params, ctx, hs⟩, []⟩, rfl⟩
    · rw [hg] at hg'
      cases hg'

theorem Changed.byCalls (hm : Mirrored n.registry n.feeds) {ctx : BlockContext} {change : ProtocolChange}
    (h : n.Changed ctx change n') : n.ByCalls n' := by
  cases h with
  | tracked hnew hs => exact .tracked hnew hs
  | @capped pair value f f' dropped htracked hf hs =>
    refine (n.byCalls_refreshStakes ctx).trans (.stored (mirrored_refreshStakes hm ctx) hf
      (.setMaxSubscribed value (n.refreshStakes ctx).registry) ?_ rfl)
    rw [PriceFeed.after, hs]
    rfl
  | set hcall hf hafter hterms => exact .stored hm hf _ hafter rfl
  | minStake amount | idleRounds rounds | adjusted hsetting hs => exact .aside rfl

/-- Whatever a command does to a feed is a call on it. -/
theorem Outcome.byCalls (hm : Mirrored n.registry n.feeds) {ctx : BlockContext} {command : Command}
    {accepted : Bool} (h : n.Outcome ctx command accepted n') : n.ByCalls n' := by
  have hstakes := n.byCalls_refreshStakes ctx
  have hm' := mirrored_refreshStakes hm ctx
  have unsubscribed (caller : Address) (f : PriceFeed) :
      f.after (.unsubscribe caller : PriceFeed.Call Ledger)
        = if f.isSubscribed caller then f.drop caller else f := by
    show f.orElse (f.unsubscribe caller) = _
    unfold PriceFeed.unsubscribe
    split <;> rfl
  cases h with
  | refused _ | read hreads => exact .refl n
  | refusedLate _ | readLate _ => exact hstakes
  | registered hr | renamed hr | approved caller amount | stakingRefused hcall hs
  | staked hcall hkept hs hevents => exact .aside rfl
  | @removed caller entry registry hr hidle =>
    -- an oracle that is removed is unsubscribed from every pair
    refine .map (.unsubscribe caller) fun p => ?_
    rw [funext (unsubscribed caller)]
    exact Table.get?_map ..
  | @subscribed caller pair f f' outcome registry htracked hf hs =>
    refine hstakes.trans (.stored hm' hf (.subscribe caller (n.refreshStakes ctx).registry) ?_ rfl)
    rw [PriceFeed.after, (subscribe_eq_ok hs).1]
    rfl
  | @unsubscribed caller pair f hf hlisted hregistered =>
    exact .stored hm hf (.unsubscribe caller) ((unsubscribed caller f).trans (if_pos hlisted)) rfl
  | @unlisted caller pair f hf hlisted =>
    exact .stored hm hf (.unsubscribe caller) ((unsubscribed caller f).trans (if_neg hlisted)) rfl
  | @unknown caller pair f hf hlisted hnone =>
    exact .stored hm hf (.unsubscribe caller) ((unsubscribed caller f).trans (if_pos hlisted)) rfl
  | @restaked caller action call staking events hcall hmoves hs hevents =>
    have hmoved : n.ByCalls ({ n with staking }.record events) := .aside rfl
    exact hmoved.trans (byCalls_refreshStakes _ ctx)
  | @published caller m signatures f f' outcome hf hp =>
    refine .stored hm hf (.publish caller m signatures ctx) ?_ rfl
    rw [PriceFeed.after, hp]
    rfl
  | @emergency caller pair price f f' hf hp =>
    refine .stored hm hf (.emergencyPublish caller price ctx) ?_ rfl
    rw [PriceFeed.after, hp]
    rfl
  | switched htracked hf hs | switchRefused htracked hf hs =>
    exact hstakes.trans (.stored hm' hf (.switchRound _ _ ctx) (congrArg (·.state.1) hs) rfl)
  | changed hauthorized hchanged => exact (hchanged.byCalls hm).trans (.aside rfl)

/-! ### Runs -/

theorem byCalls_after {j : Journal} (hm : Mirrored j.network.registry j.network.feeds) (step : Step) :
    j.network.ByCalls (j.after step).network := by
  cases step with
  | command command ctx => exact (j.network.outcome_run command ctx).byCalls hm
  | refreshStakes ctx => exact j.network.byCalls_refreshStakes ctx
  | outside ledger | authorize authorizer | drain => exact .aside rfl

theorem InOrder.byCalls_foldl_after (steps : List Step) : ∀ {j : Journal}, j.network.InOrder →
    j.network.ByCalls (steps.foldl Journal.after j).network := by
  induction steps with
  | nil => exact fun {j} _ => .refl j.network
  | cons step steps ih =>
    exact fun {j} h => (byCalls_after h.mirrored step).trans (ih (h.reaches (reaches_after j step)))

/-! ### Chronicles -/

/-- Pasts that tell how the tracked feeds came about in a run: each ends in its feed, and goes through all states
that the feed had after the steps. -/
structure Chronicle (n : Network) (steps : List Step) (pasts : CoinPair → PriceFeed.Past Ledger) : Prop where
  feed : ∀ pair f, (n.run steps).network.feeds.get? pair = some f → (pasts pair).feed = f
  passes : ∀ pair before f, before <+: steps → (n.run before).network.feeds.get? pair = some f →
    (pasts pair).Passes f

theorem untracked_before {params : NetworkParams} {ledger : Ledger}
    (hn : Network.new params ledger = .ok n) {before steps : List Step} (hbefore : before <+: steps)
    (hnone : (n.run steps).network.feeds.get? pair = none) :
    (n.run before).network.feeds.get? pair = none := by
  obtain ⟨rest, rfl⟩ := hbefore
  have hcalls : (n.run before).network.ByCalls (n.run (before ++ rest)).network := by
    rw [show n.run (before ++ rest) = rest.foldl Journal.after (n.run before) from List.foldl_append ..]
    exact (inOrder_run hn before).byCalls_foldl_after rest
  cases hf : (n.run before).network.feeds.get? pair with
  | none => rfl
  | some f =>
    obtain ⟨calls, hf'⟩ := hcalls.kept pair f hf
    rw [hnone] at hf'
    cases hf'

theorem exists_chronicle {params : NetworkParams} {ledger : Ledger}
    (hn : Network.new params ledger = .ok n) (steps : List Step) : ∃ pasts, n.Chronicle steps pasts := by
  induction steps using List.reverseRecOn with
  | nil =>
    obtain ⟨staking, -, rfl⟩ := new_eq_ok hn
    refine ⟨fun _ => ⟨_, ⟨default, {}, default, rfl⟩, []⟩, ⟨fun pair f hf => ?_, fun pair before f hb hf => ?_⟩⟩
    · cases hf
    · rw [List.prefix_nil.1 hb] at hf
      cases hf
  | append_singleton steps step ih =>
    obtain ⟨pasts, h⟩ := ih
    have hcalls : (n.run steps).network.ByCalls (n.run (steps ++ [step])).network := by
      rw [run_concat]
      exact byCalls_after (inOrder_run hn steps).mirrored step
    -- a feed that was tracked goes on from its past, and one that was not has one of its own
    have hnext : ∀ pair, ∃ past : PriceFeed.Past Ledger,
        (∀ f, (n.run (steps ++ [step])).network.feeds.get? pair = some f → past.feed = f) ∧
        ∀ before f, before <+: steps → (n.run before).network.feeds.get? pair = some f → past.Passes f := by
      intro pair
      cases hf : (n.run steps).network.feeds.get? pair with
      | some f =>
        obtain ⟨calls, hf'⟩ := hcalls.kept pair f hf
        refine ⟨(pasts pair).extend calls, fun g hg => ?_, fun before g hbefore hg =>
          (h.passes pair before g hbefore hg).extend calls⟩
        rw [PriceFeed.Past.feed_extend, h.feed pair f hf]
        exact Option.some.inj (hf'.symm.trans hg)
      | none =>
        have hbefore : ∀ before f, before <+: steps →
            (n.run before).network.feeds.get? pair ≠ some f := by
          intro before f hbefore hf'
          rw [untracked_before hn hbefore hf] at hf'
          cases hf'
        cases hf' : (n.run (steps ++ [step])).network.feeds.get? pair with
        | none =>
          refine ⟨pasts pair, fun f hf => ?_, fun before f hb hf => absurd hf (hbefore before f hb)⟩
          cases hf
        | some f' =>
          obtain ⟨past, rfl⟩ := hcalls.started pair f' hf hf'
          exact ⟨past, fun f hf => Option.some.inj hf, fun before f hb hf => absurd hf (hbefore before f hb)⟩
    choose pasts' hpasts using hnext
    refine ⟨pasts', fun pair => (hpasts pair).1, fun pair before f hbefore hf => ?_⟩
    rcases List.prefix_concat_iff.1 hbefore with rfl | hbefore
    · rw [← (hpasts pair).1 f hf]
      exact (pasts' pair).passes_feed
    · exact (hpasts pair).2 before f hbefore hf

end PriceOracle.Network
