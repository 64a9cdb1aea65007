import Mathlib.Logic.Relation
import PriceOracle.Proofs.Feed.Subscribers
import PriceOracle.Proofs.Network.EventLog
/-! What calls do to the registry and the feeds. An edit is one change with the guard that lets it happen, and
a refresh is made of moves of its own. Every call that leaves the terms of subscribing alone is a sequence of
edits and whole refreshes, and so every call is a sequence of moves: what all edits and refreshes keep on given
terms, and what all moves keep, is kept by every run. Staking, the authorizer and the events change freely in
between. -/
namespace PriceOracle

/-- The stake for subscriptions that a command asks to set. -/
def Command.newMinStake? : Command → Option Amount
  | .act _ (.executeChange (.setMinSubscriptionStake amount)) => some amount
  | _ => none

namespace Network

/-- The registry and the feeds that one edit leaves. -/
inductive Edit (n : Network) : Registry → Feeds → Prop
  | idle : Edit n n.registry n.feeds
  /-- A refused call stores a feed again. -/
  | stored {pair : CoinPair} {f : PriceFeed} (hf : n.feeds.get? pair = some f) :
      Edit n n.registry (n.feeds.insert f.pair f)
  | registered {owner address : Address} {name : String} {stake : Amount} {entry : OracleEntry}
      {r : Registry} (h : n.registry.register owner address name stake none = .ok (entry, r)) :
      Edit n r n.feeds
  | renamed {owner : Address} {name : String} {r : Registry} (h : n.registry.setName owner name = .ok r) :
      Edit n r n.feeds
  | removed {owner : Address} {entry : OracleEntry} {r : Registry}
      (h : n.registry.remove owner = .ok (entry, r)) (hidle : n.policy.canRemove owner n.feeds) :
      Edit n r (n.feeds.map fun _ f => if f.isSubscribed owner then f.drop owner else f)
  | subscribed {owner : Address} {pair : CoinPair} {f f' : PriceFeed} {outcome : SubscribeOutcome}
      {r : Registry} (hf : n.feeds.get? pair = some f)
      (h : n.policy.subscribe owner f n.registry = .ok (outcome, f', r)) :
      Edit n r (n.feeds.insert f'.pair f')
  | unsubscribed {owner : Address} {pair : CoinPair} {f : PriceFeed}
      (hf : n.feeds.get? pair = some f) (hlisted : f.isSubscribed owner) :
      Edit n (n.registry.delist owner f.pair) (n.feeds.insert f.pair (f.drop owner))
  | capped {pair : CoinPair} {value : Nat} {f f' : PriceFeed} {dropped : List Address}
      (hf : n.feeds.get? pair = some f)
      (h : f.setMaxSubscribed value n.registry = .ok (dropped, f')) :
      Edit n (dropped.foldl (fun r owner => r.delist owner pair) n.registry)
        (n.feeds.insert f'.pair f')
  | called {pair : CoinPair} {f f' : PriceFeed} {call : PriceFeed.Call Ledger}
      (hf : n.feeds.get? pair = some f) (h : f.Effect call f') (hcall : call.KeepsList) :
      Edit n n.registry (n.feeds.insert f'.pair f')
  | tracked {pair : CoinPair} {params : RoundParams} {ctx : BlockContext} {f : PriceFeed}
      (hnew : n.feeds.get? pair = none) (h : PriceFeed.start pair params ctx = .ok f) :
      Edit n n.registry (n.feeds.insert f.pair f)

/-- The registry and the feeds that one move leaves: an edit, or a part of a refresh. -/
inductive Move (n : Network) : Registry → Feeds → Prop
  | edited {r : Registry} {feeds : Feeds} (h : n.Edit r feeds) : Move n r feeds
  | restaked (ctx : BlockContext) : Move n (n.restaked ctx) n.feeds
  | expelled {owner : Address} {e : OracleEntry} (he : n.registry.get? owner = some e)
      (hlow : e.stake < n.policy.minStake) :
      Move n (SubscriptionPolicy.expelEverywhere owner n.registry n.feeds).2.1
        (SubscriptionPolicy.expelEverywhere owner n.registry n.feeds).2.2
  | yielded {owner : Address} {e : OracleEntry} (he : n.registry.get? owner = some e)
      (henough : ¬ e.stake < n.policy.minStake) :
      Move n n.registry (SubscriptionPolicy.yieldEverywhere owner n.registry n.feeds).2.2

/-- The networks that moves lead to. -/
def Reaches : Network → Network → Prop := Relation.ReflTransGen fun n n' => n.Move n'.registry n'.feeds

/-- A part of a call that leaves alone the stake a subscription takes: an edit, or a whole refresh. -/
inductive Stride (n n' : Network) : Prop
  | edited (hterms : n'.policy.minStake = n.policy.minStake) (h : n.Edit n'.registry n'.feeds)
  | refreshed (ctx : BlockContext) (h : n' = n.refreshStakes ctx)

/-- The networks that strides lead to. -/
def Leads : Network → Network → Prop := Relation.ReflTransGen Stride

variable {n n' n'' : Network}

theorem Reaches.refl (n : Network) : n.Reaches n := Relation.ReflTransGen.refl

theorem Reaches.trans (h : n.Reaches n') (h' : n'.Reaches n'') : n.Reaches n'' :=
  Relation.ReflTransGen.trans h h'

theorem Move.reaches (h : n.Move n'.registry n'.feeds) : n.Reaches n' := Relation.ReflTransGen.single h

theorem Edit.reaches (h : n.Edit n'.registry n'.feeds) : n.Reaches n' := (Move.edited h).reaches

theorem Reaches.aside (hregistry : n'.registry = n.registry) (hfeeds : n'.feeds = n.feeds) :
    n.Reaches n' := by
  apply Edit.reaches
  rw [hregistry, hfeeds]
  exact .idle

theorem Reaches.keep {I : Registry → Feeds → Prop}
    (hI : ∀ (n : Network) r feeds, I n.registry n.feeds → n.Move r feeds → I r feeds)
    (h : n.Reaches n') (hn : I n.registry n.feeds) : I n'.registry n'.feeds := by
  induction h with
  | refl => exact hn
  | tail _ hmove ih => exact hI _ _ _ ih hmove

/-! ### Stakes -/

theorem reaches_carryDrop (n : Network) (owner : Address) (previous : Amount) :
    n.Reaches (n.carryDrop owner previous) := by
  unfold carryDrop SubscriptionPolicy.stakeDecreased
  cases he : n.registry.get? owner with
  | none => exact .aside rfl rfl
  | some e =>
    dsimp only
    by_cases hkept : previous ≤ e.stake
    · simp only [hkept, ↓reduceIte]
      exact .aside rfl rfl
    by_cases hlow : e.stake < n.policy.minStake
    · simp only [hkept, hlow, ↓reduceIte]
      exact (Move.expelled he hlow).reaches
    · simp only [hkept, hlow, ↓reduceIte]
      exact (Move.yielded he hlow).reaches

theorem reaches_refreshStakes (n : Network) (ctx : BlockContext) : n.Reaches (n.refreshStakes ctx) :=
  refreshStakes_induction (motive := n.Reaches) (Move.restaked ctx).reaches fun m owner previous h =>
    h.trans (m.reaches_carryDrop owner previous)

/-! ### Strides -/

theorem Leads.refl (n : Network) : n.Leads n := Relation.ReflTransGen.refl

theorem Leads.trans (h : n.Leads n') (h' : n'.Leads n'') : n.Leads n'' :=
  Relation.ReflTransGen.trans h h'

theorem Edit.leads (h : n.Edit n'.registry n'.feeds) (hterms : n'.policy.minStake = n.policy.minStake) :
    n.Leads n' :=
  Relation.ReflTransGen.single (.edited hterms h)

theorem leads_refreshStakes (n : Network) (ctx : BlockContext) : n.Leads (n.refreshStakes ctx) :=
  Relation.ReflTransGen.single (.refreshed ctx rfl)

theorem Leads.aside (hregistry : n'.registry = n.registry) (hfeeds : n'.feeds = n.feeds)
    (hterms : n'.policy.minStake = n.policy.minStake) : n.Leads n' := by
  refine Edit.leads ?_ hterms
  rw [hregistry, hfeeds]
  exact .idle

theorem Leads.reaches (h : n.Leads n') : n.Reaches n' := by
  induction h with
  | refl => exact .refl n
  | tail _ hstride ih =>
    cases hstride with
    | edited hterms hedit => exact ih.trans hedit.reaches
    | refreshed ctx heq =>
      rw [heq]
      exact ih.trans (reaches_refreshStakes _ ctx)

/-! ### Commands -/

/-- An oracle that is not registered has no entry to change. -/
theorem delist_of_get?_eq_none {r : Registry} {owner : Address} (h : r.get? owner = none)
    (pair : CoinPair) : r.delist owner pair = r := by
  have hentries : ∀ e ∈ r.entries, e.owner ≠ owner := by
    intro e he
    simpa using List.find?_eq_none.1 h e he
  have hsame : r.entries.map (fun e => if e.owner = owner
      then { e with subscribedPairs := e.subscribedPairs.erase pair } else e) = r.entries :=
    (List.map_congr_left fun e he => if_neg (hentries e he)).trans (List.map_id' _)
  rw [Registry.delist, Registry.update, hsame]

/-- A switch is a call on its feed, also when it is refused. -/
theorem effect_of_switchRound {f f' : PriceFeed} {registry : Registry} {ledger ledger' : Ledger}
    {ctx : BlockContext} {result : Except RoundError SwitchOutcome}
    (h : f.switchRound registry ledger ctx = ⟨result, (f', ledger')⟩) :
    f.Effect (.switchRound registry ledger ctx : PriceFeed.Call Ledger) f' := by
  have heffect := f.effect_after (.switchRound registry ledger ctx : PriceFeed.Call Ledger)
  rw [PriceFeed.after, h] at heffect
  exact heffect

/-- A change sets the stake that a subscription takes only if it is that change. -/
theorem Changed.leads_or_sets {ctx : BlockContext} {change : ProtocolChange} (h : n.Changed ctx change n') :
    n.Leads n' ∨ (∃ amount, change = .setMinSubscriptionStake amount) ∧
      n'.registry = n.registry ∧ n'.feeds = n.feeds := by
  cases h with
  | tracked hnew hs => exact .inl ((Edit.tracked hnew hs).leads rfl)
  | capped htracked hf hs => exact .inl ((n.leads_refreshStakes ctx).trans ((Edit.capped hf hs).leads rfl))
  | @set pair change call f f' hcall hf hafter hterms =>
    have heffect : f.Effect call f' := hafter ▸ f.effect_after call
    exact .inl ((Edit.called hf heffect (PairChange.keepsList_of_setter? hcall)).leads rfl)
  | minStake amount => exact .inr ⟨⟨amount, rfl⟩, rfl, rfl⟩
  | idleRounds rounds | adjusted hsetting hs => exact .inl (.aside rfl rfl rfl)

/-- A command sets the stake that a subscription takes only if it is an accepted change of it. -/
theorem Outcome.leads_or_sets {ctx : BlockContext} {command : Command} {accepted : Bool}
    (h : n.Outcome ctx command accepted n') :
    n.Leads n' ∨ (command.newMinStake?.isSome ∧ accepted) ∧ n'.registry = n.registry ∧ n'.feeds = n.feeds := by
  have hstakes := n.leads_refreshStakes ctx
  cases h with
  | refused _ | read hreads => exact .inl (.refl n)
  | refusedLate _ | readLate _ => exact .inl hstakes
  | registered hr => exact .inl ((Edit.registered hr).leads rfl)
  | renamed hr => exact .inl ((Edit.renamed hr).leads rfl)
  | removed hr hidle => exact .inl ((Edit.removed hr hidle).leads rfl)
  | subscribed htracked hf hs => exact .inl (hstakes.trans ((Edit.subscribed hf hs).leads rfl))
  | unsubscribed hf hlisted hregistered => exact .inl ((Edit.unsubscribed hf hlisted).leads rfl)
  | unlisted hf hlisted => exact .inl ((Edit.stored hf).leads rfl)
  | @unknown caller pair f hf hlisted hnone =>
    have hedit : n.Edit (n.registry.delist caller f.pair) (n.feeds.insert f.pair (f.drop caller)) :=
      .unsubscribed hf hlisted
    rw [delist_of_get?_eq_none hnone] at hedit
    exact .inl (hedit.leads rfl)
  | approved caller amount | stakingRefused hcall hs | staked hcall hkept hs hevents =>
    exact .inl (.aside rfl rfl rfl)
  | @restaked caller action call staking events hcall hmoves hs hevents =>
    have hmoved : n.Leads ({ n with staking }.record events) := .aside rfl rfl rfl
    exact .inl (hmoved.trans (leads_refreshStakes _ ctx))
  | @published caller m signatures f f' outcome hf hp =>
    have heffect : f.Effect (.publish caller m signatures ctx : PriceFeed.Call Ledger) f' := .published hp
    exact .inl ((Edit.called hf heffect trivial).leads rfl)
  | @emergency caller pair price f f' hf hp =>
    have heffect : f.Effect (.emergencyPublish caller price ctx : PriceFeed.Call Ledger) f' := .emergency hp
    exact .inl ((Edit.called hf heffect trivial).leads rfl)
  | switched htracked hf hs | switchRefused htracked hf hs =>
    exact .inl (hstakes.trans ((Edit.called hf (effect_of_switchRound hs) trivial).leads rfl))
  | changed hauthorized hm =>
    rcases hm.leads_or_sets with hleads | ⟨⟨amount, rfl⟩, hregistry, hfeeds⟩
    · exact .inl (hleads.trans (.aside rfl rfl rfl))
    · exact .inr ⟨⟨rfl, rfl⟩, hregistry, hfeeds⟩

theorem Outcome.reaches {ctx : BlockContext} {command : Command} {accepted : Bool}
    (h : n.Outcome ctx command accepted n') : n.Reaches n' := by
  rcases h.leads_or_sets with hleads | ⟨-, hregistry, hfeeds⟩
  · exact hleads.reaches
  · exact .aside hregistry hfeeds

/-! ### Runs -/

/-- The step is an accepted change of the stake that a subscription takes. -/
def Step.SetsMinStake (n : Network) : Step → Prop
  | .command c ctx => c.newMinStake?.isSome ∧ (c.run n ctx).result.isOk
  | _ => False

/-- A step that leaves alone the stake a subscription takes. -/
theorem leads_after (j : Journal) {step : Step} (hkeep : ¬ step.SetsMinStake j.network) :
    j.network.Leads (j.after step).network := by
  cases step with
  | command command ctx => exact (j.network.outcome_run command ctx).leads_or_sets.resolve_right fun h => hkeep h.1
  | refreshStakes ctx => exact j.network.leads_refreshStakes ctx
  | outside ledger | authorize authorizer | drain => exact .aside rfl rfl rfl

theorem reaches_after (j : Journal) (step : Step) : j.network.Reaches (j.after step).network := by
  cases step with
  | command command ctx => exact (j.network.outcome_run command ctx).reaches
  | refreshStakes ctx => exact j.network.reaches_refreshStakes ctx
  | outside ledger | authorize authorizer | drain => exact .aside rfl rfl

theorem reaches_foldl_after (steps : List Step) : ∀ j : Journal,
    j.network.Reaches (steps.foldl Journal.after j).network := by
  induction steps with
  | nil => exact fun j => .refl j.network
  | cons step steps ih => exact fun j => (reaches_after j step).trans (ih _)

theorem reaches_run (n : Network) (steps : List Step) : n.Reaches (n.run steps).network :=
  reaches_foldl_after steps ⟨[], n⟩

end Network

end PriceOracle
