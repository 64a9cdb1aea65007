import PriceOracle.Proofs.Feed.Terms
import PriceOracle.Proofs.Network.Refresh
import PriceOracle.Proofs.Staking.Terms
/-! The terms of the network: which pairs are tracked and on which terms, what a subscription takes, how long
an oracle sits out, and the terms of staking. Calls that change none of them are told here, one by one; a
network is told by its terms and by what it is apart from them. -/
namespace PriceOracle

/-- What is set by protocol changes, as opposed to what happens on the network. -/
structure Terms where
  pairs : Table CoinPair PairTerms
  policy : SubscriptionPolicy
  staking : StakingTerms
deriving DecidableEq, Inhabited

/-- The terms after a change, which names one of them. -/
def Terms.amend (t : Terms) : ProtocolChange → Terms
  | .registerPair pair params => { t with pairs := t.pairs.insert pair (.initial params) }
  | .onPair pair change =>
    { t with pairs := t.pairs.map fun p terms => if p = pair then terms.amend change else terms }
  | .setMinSubscriptionStake amount => { t with policy.minStake := amount }
  | .setNumIdleRounds rounds => { t with policy.idleRounds := rounds }
  | .setVestingPeriod blocks => { t with staking := t.staking.amend (.vestingPeriod blocks) }
  | .setWithdrawLockTime secs => { t with staking := t.staking.amend (.withdrawLockTime secs) }
  | .addToStakingWhitelist account => { t with staking := t.staking.amend (.addToWhitelist account) }
  | .removeFromStakingWhitelist account =>
    { t with staking := t.staking.amend (.removeFromWhitelist account) }
  | .addLocker account => { t with staking := t.staking.amend (.addLocker account) }
  | .removeLocker account => { t with staking := t.staking.amend (.removeLocker account) }

theorem Terms.amend_onPair {t : Terms} {pair : CoinPair} {s : PairTerms} (h : t.pairs.get? pair = some s)
    (change : PairChange) :
    t.amend (.onPair pair change) = { t with pairs := t.pairs.insert pair (s.amend change) } := by
  have hpairs : (t.pairs.map fun p terms => if p = pair then terms.amend change else terms)
      = t.pairs.insert pair (s.amend change) := by
    apply Table.ext
    intro p
    rw [Table.get?_map, Table.get?_insert]
    by_cases heq : p = pair
    · subst heq
      simp [h]
    · simp [heq]
  rw [amend, hpairs]

namespace Network

variable {n n' n'' : Network} {pair : CoinPair} {f f' : PriceFeed}

def terms (n : Network) : Terms where
  pairs := n.feeds.map fun _ f => f.terms
  policy := n.policy
  staking := n.staking.terms

/-- The network on other terms for the pairs it tracks, with nothing done for it. -/
def withTerms (n : Network) (t : Terms) : Network :=
  { n with
    feeds := n.feeds.map fun pair f => (t.pairs.get? pair).elim f f.withTerms
    policy := t.policy
    staking := n.staking.withTerms t.staking }

theorem get?_terms (n : Network) (pair : CoinPair) :
    n.terms.pairs.get? pair = (n.feeds.get? pair).map (·.terms) :=
  Table.get?_map ..

theorem terms_withFeed (n : Network) (f : PriceFeed) :
    (n.withFeed f).terms = { n.terms with pairs := n.terms.pairs.insert f.pair f.terms } := by
  have hpairs : (n.withFeed f).terms.pairs = n.terms.pairs.insert f.pair f.terms := by
    apply Table.ext
    intro p
    rw [get?_terms, Table.get?_insert, get?_terms]
    show ((n.feeds.insert f.pair f).get? p).map _ = _
    rw [Table.get?_insert]
    split <;> rfl
  rw [← hpairs]
  rfl

/-- A network differs in its terms alone if each of its feeds does. -/
theorem eq_withTerms (hfeeds : ∀ p, n'.feeds.get? p = (n.feeds.get? p).map fun f =>
      (n'.terms.pairs.get? p).elim f f.withTerms)
    (hstaking : n'.staking = n.staking.withTerms n'.staking.terms)
    (hrest : n' = { n with feeds := n'.feeds, policy := n'.policy, staking := n'.staking }) :
    n' = n.withTerms n'.terms := by
  have htable : n'.feeds = n.feeds.map fun pair f => (n'.terms.pairs.get? pair).elim f f.withTerms := by
    apply Table.ext
    intro p
    rw [hfeeds, Table.get?_map]
  rw [withTerms, ← htable, show n.staking.withTerms n'.terms.staking = n'.staking from hstaking.symm]
  exact hrest

/-- What is not set for pairs only. -/
theorem eq_withTerms_of_feeds (hfeeds : n'.feeds = n.feeds)
    (hstaking : n'.staking = n.staking.withTerms n'.staking.terms)
    (hrest : n' = { n with feeds := n'.feeds, policy := n'.policy, staking := n'.staking }) :
    n' = n.withTerms n'.terms := by
  refine eq_withTerms (fun p => ?_) hstaking hrest
  rw [get?_terms, hfeeds]
  cases n.feeds.get? p <;> rfl

theorem withFeed_eq_withTerms (hf : n.feeds.get? f'.pair = some f) (h : f' = f.withTerms f'.terms) :
    n.withFeed f' = n.withTerms (n.withFeed f').terms := by
  refine eq_withTerms (fun p => ?_) rfl rfl
  rw [get?_terms]
  show (n.feeds.insert f'.pair f').get? p
    = (n.feeds.get? p).map fun f => (((n.feeds.insert f'.pair f').get? p).map (·.terms)).elim f f.withTerms
  rw [Table.get?_insert]
  by_cases heq : p = f'.pair
  · rw [if_pos heq, heq, hf]
    exact congrArg some h
  · rw [if_neg heq]
    cases n.feeds.get? p <;> rfl

/-! ### Terms that stay -/

/-- The same terms, for the same authorizer to change. -/
structure OnSameTerms (n n' : Network) : Prop where
  terms : n'.terms = n.terms
  authorizer : n'.authorizer = n.authorizer

theorem OnSameTerms.refl (n : Network) : n.OnSameTerms n := ⟨rfl, rfl⟩

theorem OnSameTerms.trans (h : n.OnSameTerms n') (h' : n'.OnSameTerms n'') : n.OnSameTerms n'' :=
  ⟨h'.terms.trans h.terms, h'.authorizer.trans h.authorizer⟩

theorem OnSameTerms.of_feeds
    (hfeeds : ∀ p, (n'.feeds.get? p).map (·.terms) = (n.feeds.get? p).map (·.terms))
    (hpolicy : n'.policy = n.policy) (hstaking : n'.staking.terms = n.staking.terms)
    (hauthorizer : n'.authorizer = n.authorizer) : n.OnSameTerms n' := by
  have hpairs : n'.terms.pairs = n.terms.pairs := by
    apply Table.ext
    intro p
    rw [get?_terms, get?_terms, hfeeds]
  refine ⟨?_, hauthorizer⟩
  show (⟨n'.terms.pairs, n'.policy, n'.staking.terms⟩ : Terms) = ⟨n.terms.pairs, n.policy, n.staking.terms⟩
  rw [hpairs, hpolicy, hstaking]

theorem OnSameTerms.aside (hfeeds : n'.feeds = n.feeds) (hpolicy : n'.policy = n.policy)
    (hstaking : n'.staking.terms = n.staking.terms) (hauthorizer : n'.authorizer = n.authorizer) :
    n.OnSameTerms n' :=
  .of_feeds (fun p => by rw [hfeeds]) hpolicy hstaking hauthorizer

theorem OnSameTerms.map {g : PriceFeed → PriceFeed} (hg : ∀ f : PriceFeed, f.OnSameTerms (g f))
    (hfeeds : ∀ p, n'.feeds.get? p = (n.feeds.get? p).map g) (hpolicy : n'.policy = n.policy)
    (hstaking : n'.staking.terms = n.staking.terms) (hauthorizer : n'.authorizer = n.authorizer) :
    n.OnSameTerms n' := by
  refine .of_feeds (fun p => ?_) hpolicy hstaking hauthorizer
  rw [hfeeds]
  cases n.feeds.get? p with
  | none => rfl
  | some f => exact congrArg some (hg f).terms

theorem OnSameTerms.stored (hm : Mirrored n.registry n.feeds) (hf : n.feeds.get? pair = some f)
    (h : f.OnSameTerms f') (hfeeds : n'.feeds = n.feeds.insert f'.pair f')
    (hpolicy : n'.policy = n.policy) (hstaking : n'.staking.terms = n.staking.terms)
    (hauthorizer : n'.authorizer = n.authorizer) : n.OnSameTerms n' := by
  refine .of_feeds (fun p => ?_) hpolicy hstaking hauthorizer
  rw [hfeeds, h.pair, hm.pair_eq pair f hf, Table.get?_insert]
  split
  · rename_i heq
    rw [heq, hf]
    exact congrArg some h.terms
  · rfl

/-! #### Stakes -/

theorem onSameTerms_carryDrop (n : Network) (owner : Address) (previous : Amount) :
    n.OnSameTerms (n.carryDrop owner previous) := by
  rcases (n.carryDrop_cases owner previous).2 with ⟨hsame, -⟩ | ⟨s, -, ⟨-, hfeeds⟩ | ⟨-, hfeeds⟩⟩
  · rw [hsame]
    exact .refl n
  · exact .map (fun f => f.onSameTerms_expel owner) hfeeds rfl rfl rfl
  · exact .map (fun f => f.onSameTerms_yieldSeat owner n.registry) hfeeds rfl rfl rfl

theorem onSameTerms_refreshStakes (n : Network) (ctx : BlockContext) :
    n.OnSameTerms (n.refreshStakes ctx) :=
  refreshStakes_induction (motive := n.OnSameTerms) (.aside rfl rfl rfl rfl) fun m owner previous h =>
    h.trans (m.onSameTerms_carryDrop owner previous)

/-- A refresh keeps the lists of the feeds and the registry in step. -/
theorem mirrored_refreshStakes (hm : Mirrored n.registry n.feeds) (ctx : BlockContext) :
    Mirrored (n.refreshStakes ctx).registry (n.refreshStakes ctx).feeds :=
  (n.reaches_refreshStakes ctx).keep (fun _ _ _ => mirrored_of_move) hm

/-! #### Commands -/

/-- A command that is no accepted protocol change leaves the terms as they are. -/
theorem Outcome.onSameTerms (hm : Mirrored n.registry n.feeds) {ctx : BlockContext} {command : Command}
    {accepted : Bool} (h : n.Outcome ctx command accepted n')
    (hkeep : ∀ caller change, command = .act caller (.executeChange change) → accepted = false) :
    n.OnSameTerms n' := by
  have hstakes := n.onSameTerms_refreshStakes ctx
  have hm' := mirrored_refreshStakes hm ctx
  cases h with
  | refused _ | read hreads => exact .refl n
  | refusedLate _ | readLate _ => exact hstakes
  | registered hr | renamed hr => exact .aside rfl rfl rfl rfl
  | @removed caller entry registry hr hidle =>
    refine .map (fun f => ?_) (fun p => Table.get?_map _ n.feeds p) rfl rfl rfl
    split
    · exact f.onSameTerms_drop caller
    · exact .refl f
  | subscribed htracked hf hs =>
    exact hstakes.trans (.stored hm' hf (PriceFeed.onSameTerms_subscribe (subscribe_eq_ok hs).1) rfl rfl rfl rfl)
  | @unsubscribed caller pair f hf hlisted hregistered =>
    exact .stored hm hf (f.onSameTerms_drop caller) rfl rfl rfl rfl
  | unlisted hf hlisted => exact .stored hm hf (.refl _) rfl rfl rfl rfl
  | @unknown caller pair f hf hlisted hnone => exact .stored hm hf (f.onSameTerms_drop caller) rfl rfl rfl rfl
  | approved caller amount => exact .aside rfl rfl rfl rfl
  | stakingRefused hcall hs | staked hcall hkept hs hevents =>
    exact .aside rfl rfl (Staking.terms_of_perform hs) rfl
  | @restaked caller action call staking events hcall hmoves hs hevents =>
    have hmoved : n.OnSameTerms ({ n with staking }.record events) :=
      .aside rfl rfl (Staking.terms_of_perform hs) rfl
    exact hmoved.trans (onSameTerms_refreshStakes _ ctx)
  | published hf hp => exact .stored hm hf (PriceFeed.onSameTerms_publish hp) rfl rfl rfl rfl
  | emergency hf hp => exact .stored hm hf (PriceFeed.onSameTerms_emergencyPublish hp) rfl rfl rfl rfl
  | switched htracked hf hs | switchRefused htracked hf hs =>
    exact hstakes.trans (.stored hm' hf (PriceFeed.onSameTerms_switchRound hs) rfl rfl rfl rfl)
  | changed hauthorized hchanged => cases hkeep _ _ rfl

end Network

end PriceOracle
