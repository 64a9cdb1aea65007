import PriceOracle.Proofs.Feed.Tenure
import PriceOracle.Proofs.Feed.Terms
import PriceOracle.Proofs.Staking.Terms
import PriceOracle.Service.Command
/-! What a command does to a network. A command is refused, at once or after stakes were brought up to date;
it reads; it changes one feed, and the registry with it; or it passes a call on to staking. Each way in which
it can end is one outcome, with all the guards that it got through. What holds of runs is proved from this
list, so no call has to be opened again. -/
namespace PriceOracle

/-! ### Kinds of commands -/

/-- Whether an event tells of staking alone, and of no oracle or pair. -/
def Event.ofStaking : Event → Bool
  | stakeDeposited .. | stakeWithdrawn .. | payEarnings .. | stakeLocked .. | delayedPaymentReleased .. => true
  | _ => false

/-- Whether shares may change hands, so that stakes are brought up to date after it. -/
def StakingCall.movesShares : StakingCall → Bool
  | deposit .. | stakeAt .. | withdraw _ | withdrawFrom .. | withdrawShares _ => true
  | distribute _ | lockStake .. | withdrawDelayed _ => false

/-- The call that an action passes on to staking. -/
def Action.staking? (caller : Address) : Action → Option StakingCall
  | deposit amount beneficiary => some (.deposit amount (beneficiary.getD caller))
  | stakeAt amount subaccount => some (.stakeAt amount subaccount)
  | withdraw amount => some (.withdraw amount)
  | withdrawFrom amount subaccount => some (.withdrawFrom amount subaccount)
  | withdrawShares shares => some (.withdrawShares shares)
  | distribute amount => some (.distribute amount)
  | lockStake owner expiry => some (.lockStake owner expiry)
  | withdrawDelayed id => some (.withdrawDelayed id)
  | _ => none

/-- The setter of a feed that makes a change. A cap is no setter, for it strikes owners off as well. -/
def PairChange.setter? : PairChange → Option (PriceFeed.Call Ledger)
  | setMaxSubscribed _ => none
  | setMinOracles value => some (.setMinOracles value)
  | setMaxOracles value => some (.setMaxOracles value)
  | setLockPeriod secs => some (.setLockPeriod secs)
  | setValidPeriod blocks => some (.setValidPeriod blocks)
  | setEmergencyPeriod blocks => some (.setEmergencyPeriod blocks)
  | addReader account => some (.addReader account)
  | removeReader account => some (.removeReader account)
  | addEmergencyPublisher account => some (.addEmergencyPublisher account)
  | removeEmergencyPublisher account => some (.removeEmergencyPublisher account)

theorem PairChange.keepsList_of_setter? {change : PairChange} {call : PriceFeed.Call Ledger}
    (h : change.setter? = some call) : call.KeepsList := by
  cases change <;> cases h <;> trivial

/-- A setter takes nobody's seat, and is no switch. -/
theorem PairChange.spares_of_setter? {change : PairChange} {call : PriceFeed.Call Ledger}
    (h : change.setter? = some call) (owner : Address) : call.Spares owner := by
  cases change <;> cases h <;> trivial

/-- The setting of staking that a change makes. -/
def ProtocolChange.setting? : ProtocolChange → Option StakingSetting
  | setVestingPeriod blocks => some (.vestingPeriod blocks)
  | setWithdrawLockTime secs => some (.withdrawLockTime secs)
  | addToStakingWhitelist account => some (.addToWhitelist account)
  | removeFromStakingWhitelist account => some (.removeFromWhitelist account)
  | addLocker account => some (.addLocker account)
  | removeLocker account => some (.removeLocker account)
  | _ => none

namespace Command

/-- Whether stakes are brought up to date before anything else is done. -/
def refreshes : Command → Bool
  | act _ (.subscribe _) | act _ (.switchRound _) | act _ (.executeChange (.onPair _ (.setMaxSubscribed _)))
  | ask (.registration _) | ask .oracles => true
  | _ => false

/-- Whether the network is only looked at. -/
def reads : Command → Bool
  | act _ (.peek _) | act _ (.getPrice _) => true
  | ask question => !(ask question).refreshes
  | _ => false

/-- The pair of which a command asks to publish a price. -/
def published? : Command → Option CoinPair
  | act _ (.publishPrice m _) => some m.pair
  | act _ (.emergencyPublish pair _) => some pair
  | _ => none

theorem published?_of_reads {command : Command} (h : command.reads) : command.published? = none := by
  cases command with
  | act caller action => cases action <;> first | rfl | cases h
  | ask question => rfl

theorem published?_of_staking? {caller : Address} {action : Action} {call : StakingCall}
    (h : action.staking? caller = some call) : (act caller action).published? = none := by
  cases action <;> first | rfl | cases h

end Command

namespace Network

variable {n n' : Network} {ctx : BlockContext} {caller : Address} {pair : CoinPair} {α β : Type}

/-! ### Refreshes -/

/-- What holds once stakes are set and is kept by every drop that is carried holds after a refresh. -/
theorem refreshStakes_induction {motive : Network → Prop} (hset : motive { n with registry := n.restaked ctx })
    (hcarry : ∀ (m : Network) (owner : Address) (previous : Amount), motive m →
      motive (m.carryDrop owner previous)) : motive (n.refreshStakes ctx) :=
  List.foldlRecOn _ _ hset fun m hm e _ => hcarry m e.owner e.stake hm

/-! ### Outcomes -/

/-- The network that an accepted protocol change leaves. -/
inductive Changed (n : Network) (ctx : BlockContext) : ProtocolChange → Network → Prop
  | tracked {pair : CoinPair} {params : RoundParams} {f : PriceFeed} (hnew : n.feeds.get? pair = none)
      (h : PriceFeed.start pair params ctx = .ok f) : Changed n ctx (.registerPair pair params) (n.withFeed f)
  | capped {pair : CoinPair} {value : Nat} {f f' : PriceFeed} {dropped : List Address}
      (htracked : (n.feeds.get? pair).isSome) (hf : (n.refreshStakes ctx).feeds.get? pair = some f)
      (h : f.setMaxSubscribed value (n.refreshStakes ctx).registry = .ok (dropped, f')) :
      Changed n ctx (.onPair pair (.setMaxSubscribed value))
        (({ n.refreshStakes ctx with
            registry := dropped.foldl (fun registry owner => registry.delist owner pair)
              (n.refreshStakes ctx).registry }.withFeed f').record (dropped.map (.oracleUnsubscribed · pair)))
  | set {pair : CoinPair} {change : PairChange} {call : PriceFeed.Call Ledger} {f f' : PriceFeed}
      (hcall : change.setter? = some call) (hf : n.feeds.get? pair = some f) (h : f.after call = f')
      (hterms : f' = f.withTerms (f.terms.amend change)) : Changed n ctx (.onPair pair change) (n.withFeed f')
  | minStake (amount : Amount) :
      Changed n ctx (.setMinSubscriptionStake amount) { n with policy.minStake := amount }
  | idleRounds (rounds : Nat) : Changed n ctx (.setNumIdleRounds rounds) { n with policy.idleRounds := rounds }
  | adjusted {change : ProtocolChange} {setting : StakingSetting} {staking : Staking}
      (hsetting : change.setting? = some setting) (h : n.staking.adjust setting = .ok staking) :
      Changed n ctx change { n with staking }

/-- The outcomes of a command: whether it is accepted, and the network that it leaves. -/
inductive Outcome (n : Network) (ctx : BlockContext) : Command → Bool → Network → Prop
  | refused (command : Command) : Outcome n ctx command false n
  | refusedLate {command : Command} (h : command.refreshes) : Outcome n ctx command false (n.refreshStakes ctx)
  | read {command : Command} (h : command.reads) : Outcome n ctx command true n
  | readLate {question : Question} (h : (Command.ask question).refreshes) :
      Outcome n ctx (.ask question) true (n.refreshStakes ctx)
  | registered {caller address : Address} {name : String} {entry : OracleEntry} {registry : Registry}
      (h : n.registry.register caller address name (n.staking.balance caller ctx) none = .ok (entry, registry)) :
      Outcome n ctx (.act caller (.registerOracle address name)) true
        ({ n with registry }.record [.oracleRegistered caller address name])
  | renamed {caller : Address} {name : String} {registry : Registry}
      (h : n.registry.setName caller name = .ok registry) :
      Outcome n ctx (.act caller (.setOracleName name)) true
        ({ n with registry }.record [.oracleNameChanged caller name])
  | removed {caller : Address} {entry : OracleEntry} {registry : Registry}
      (h : n.registry.remove caller = .ok (entry, registry)) (hidle : n.policy.canRemove caller n.feeds) :
      Outcome n ctx (.act caller .removeOracle) true
        ({ n with
            registry
            feeds := n.feeds.map fun _ (f : PriceFeed) => if f.isSubscribed caller then f.drop caller else f }.record
          (removalEvents n.feeds caller entry.address))
  | subscribed {caller : Address} {pair : CoinPair} {f f' : PriceFeed} {outcome : SubscribeOutcome}
      {registry : Registry} (htracked : (n.feeds.get? pair).isSome)
      (hf : (n.refreshStakes ctx).feeds.get? pair = some f)
      (h : (n.refreshStakes ctx).policy.subscribe caller f (n.refreshStakes ctx).registry
        = .ok (outcome, f', registry)) :
      Outcome n ctx (.act caller (.subscribe pair)) true
        (({ n.refreshStakes ctx with registry }.withFeed f').record
          (subscriptionEvents caller pair f'.round.number outcome))
  | unsubscribed {caller : Address} {pair : CoinPair} {f : PriceFeed} (hf : n.feeds.get? pair = some f)
      (hlisted : f.isSubscribed caller) (hregistered : n.registry.isRegistered caller) :
      Outcome n ctx (.act caller (.unsubscribe pair)) true
        (({ n with registry := n.registry.delist caller f.pair }.withFeed (f.drop caller)).record
          [.oracleUnsubscribed caller pair])
  /-- The feed is stored as it was. -/
  | unlisted {caller : Address} {pair : CoinPair} {f : PriceFeed} (hf : n.feeds.get? pair = some f)
      (hlisted : ¬ f.isSubscribed caller) :
      Outcome n ctx (.act caller (.unsubscribe pair)) false (n.withFeed f)
  /-- The list has somebody whom the registry does not know. -/
  | unknown {caller : Address} {pair : CoinPair} {f : PriceFeed} (hf : n.feeds.get? pair = some f)
      (hlisted : f.isSubscribed caller) (hnone : n.registry.get? caller = none) :
      Outcome n ctx (.act caller (.unsubscribe pair)) false (n.withFeed (f.drop caller))
  | approved (caller : Address) (amount : Amount) :
      Outcome n ctx (.act caller (.approve amount)) true
        (n.withLedger (n.ledger.approve caller n.staking.account amount))
  | stakingRefused {caller : Address} {action : Action} {call : StakingCall} {staking : Staking}
      {e : StakingError} (hcall : action.staking? caller = some call)
      (h : n.staking.perform caller ctx call = .fail staking e) :
      Outcome n ctx (.act caller action) false { n with staking }
  | staked {caller : Address} {action : Action} {call : StakingCall} {staking : Staking} {events : List Event}
      (hcall : action.staking? caller = some call) (hkept : call.movesShares = false)
      (h : n.staking.perform caller ctx call = .ok staking ()) (hevents : ∀ e ∈ events, e.ofStaking) :
      Outcome n ctx (.act caller action) true ({ n with staking }.record events)
  | restaked {caller : Address} {action : Action} {call : StakingCall} {staking : Staking}
      {events : List Event} (hcall : action.staking? caller = some call) (hmoves : call.movesShares)
      (h : n.staking.perform caller ctx call = .ok staking ()) (hevents : ∀ e ∈ events, e.ofStaking) :
      Outcome n ctx (.act caller action) true (({ n with staking }.record events).refreshStakes ctx)
  | published {caller : Address} {m : PriceMessage} {signatures : List Signature} {f f' : PriceFeed}
      {outcome : PublishOutcome} (hf : n.feeds.get? m.pair = some f)
      (h : f.publish caller m signatures ctx = .ok (outcome, f')) :
      Outcome n ctx (.act caller (.publishPrice m signatures)) true
        ((n.withFeed f').record [.pricePublished m.pair caller m.votedOracle m.price ctx.number])
  | emergency {caller : Address} {pair : CoinPair} {price : Amount} {f f' : PriceFeed}
      (hf : n.feeds.get? pair = some f) (h : f.emergencyPublish caller price ctx = .ok f') :
      Outcome n ctx (.act caller (.emergencyPublish pair price)) true
        ((n.withFeed f').record [.emergencyPricePublished pair caller price ctx.number])
  | switched {caller : Address} {pair : CoinPair} {f f' : PriceFeed} {ledger : Ledger}
      {outcome : SwitchOutcome} (htracked : (n.feeds.get? pair).isSome)
      (hf : (n.refreshStakes ctx).feeds.get? pair = some f)
      (h : f.switchRound (n.refreshStakes ctx).registry (n.refreshStakes ctx).ledger ctx
        = ⟨.ok outcome, (f', ledger)⟩) :
      Outcome n ctx (.act caller (.switchRound pair)) true
        ((((n.refreshStakes ctx).withFeed f').withLedger ledger).record (switchEvents caller pair outcome))
  /-- The feed is stored as it was, and what was paid already has been paid back. -/
  | switchRefused {caller : Address} {pair : CoinPair} {f : PriceFeed} {ledger : Ledger} {e : RoundError}
      (htracked : (n.feeds.get? pair).isSome) (hf : (n.refreshStakes ctx).feeds.get? pair = some f)
      (h : f.switchRound (n.refreshStakes ctx).registry (n.refreshStakes ctx).ledger ctx
        = ⟨.error e, (f, ledger)⟩) :
      Outcome n ctx (.act caller (.switchRound pair)) false
        (((n.refreshStakes ctx).withFeed f).withLedger ledger)
  | changed {caller : Address} {change : ProtocolChange} {m : Network}
      (hauthorized : n.authorizer caller change) (h : n.Changed ctx change m) :
      Outcome n ctx (.act caller (.executeChange change)) true
        (m.record [.protocolChangeExecuted caller change.name])

theorem feed_eq_ok {f : PriceFeed} : n.feed pair = .ok f ↔ n.feeds.get? pair = some f := by
  unfold feed
  cases n.feeds.get? pair <;> simp

theorem isSome_of_feed_eq_ok {f : PriceFeed} (h : n.feed pair = .ok f) : (n.feeds.get? pair).isSome :=
  Option.isSome_iff_exists.2 ⟨f, feed_eq_ok.1 h⟩

theorem Outcome.map {command : Command} {x : Call α} (h : n.Outcome ctx command x.result.isOk x.state)
    (f : α → β) : n.Outcome ctx command (x.map f).result.isOk (x.map f).state := by
  obtain ⟨result, state⟩ := x
  cases result <;> exact h

/-! ### Oracles -/

theorem outcome_registerOracle (n : Network) (caller address : Address) (name : String) (ctx : BlockContext) :
    n.Outcome ctx (.act caller (.registerOracle address name))
      (n.registerOracle caller address name ctx).result.isOk (n.registerOracle caller address name ctx).state := by
  unfold registerOracle
  split
  · exact .refused _
  · rename_i hr
    exact .registered hr

theorem outcome_setOracleName (n : Network) (caller : Address) (name : String) (ctx : BlockContext) :
    n.Outcome ctx (.act caller (.setOracleName name)) (n.setOracleName caller name).result.isOk
      (n.setOracleName caller name).state := by
  unfold setOracleName
  split
  · exact .refused _
  · rename_i hr
    exact .renamed hr

theorem outcome_removeOracle (n : Network) (caller : Address) (ctx : BlockContext) :
    n.Outcome ctx (.act caller .removeOracle) (n.removeOracle caller).result.isOk
      (n.removeOracle caller).state := by
  unfold removeOracle
  split
  · exact .refused _
  rename_i hr
  split
  · rename_i hidle
    exact .removed hr hidle
  · exact .refused _

/-! ### Subscriptions -/

theorem outcome_subscribe (n : Network) (caller : Address) (pair : CoinPair) (ctx : BlockContext) :
    n.Outcome ctx (.act caller (.subscribe pair)) (n.subscribe caller pair ctx).result.isOk
      (n.subscribe caller pair ctx).state := by
  unfold subscribe
  split
  · exact .refused _
  rename_i htracked
  dsimp only
  split
  · exact .refusedLate rfl
  rename_i hf
  split
  · exact .refusedLate rfl
  · rename_i hs
    exact .subscribed (isSome_of_feed_eq_ok htracked) (feed_eq_ok.1 hf) hs

theorem Outcome.tracked_of_subscribe (h : n.Outcome ctx (.act caller (.subscribe pair)) true n') :
    (n'.feeds.get? pair).isSome := by
  cases h with
  | read hreads => cases hreads
  | staked hcall | restaked hcall => cases hcall
  | @subscribed _ _ f f' outcome registry htracked hf hs =>
    show (((n.refreshStakes ctx).feeds.insert f'.pair f').get? pair).isSome
    rw [Table.get?_insert]
    split
    · rfl
    · rw [hf]
      rfl

theorem outcome_unsubscribe (n : Network) (caller : Address) (pair : CoinPair) (ctx : BlockContext) :
    n.Outcome ctx (.act caller (.unsubscribe pair)) (n.unsubscribe caller pair).result.isOk
      (n.unsubscribe caller pair).state := by
  unfold unsubscribe SubscriptionPolicy.unsubscribe PriceFeed.unsubscribe
  split
  · exact .refused _
  rename_i f hf
  rw [feed_eq_ok] at hf
  by_cases hlisted : f.isSubscribed caller
  · cases he : n.registry.get? caller with
    | none =>
      simp only [hlisted, ↓reduceIte, Registry.removeSubscription, he]
      exact .unknown hf hlisted he
    | some e =>
      simp only [hlisted, ↓reduceIte, Registry.removeSubscription, he]
      exact .unsubscribed hf hlisted (by rw [Registry.isRegistered, he]; rfl)
  · simp only [hlisted]
    exact .unlisted hf hlisted

/-! ### Staking -/

section

variable {action : Action} {call : StakingCall} {x : Attempt Staking StakingError α} {events : α → List Event}

theorem outcome_onStaking (hcall : action.staking? caller = some call) (hkept : call.movesShares = false)
    (hx : x.map (fun _ => ()) = n.staking.perform caller ctx call) (hevents : ∀ a, ∀ e ∈ events a, e.ofStaking) :
    n.Outcome ctx (.act caller action) (n.onStaking x events).result.isOk (n.onStaking x events).state := by
  obtain ⟨result, staking⟩ := x
  cases result with
  | error e => exact .stakingRefused hcall hx.symm
  | ok a => exact .staked hcall hkept hx.symm (hevents a)

theorem outcome_refreshing (hcall : action.staking? caller = some call) (hmoves : call.movesShares)
    (hx : x.map (fun _ => ()) = n.staking.perform caller ctx call) (hevents : ∀ a, ∀ e ∈ events a, e.ofStaking) :
    n.Outcome ctx (.act caller action) (refreshing ctx (n.onStaking x events)).result.isOk
      (refreshing ctx (n.onStaking x events)).state := by
  obtain ⟨result, staking⟩ := x
  cases result with
  | error e => exact .stakingRefused hcall hx.symm
  | ok a => exact .restaked hcall hmoves hx.symm (hevents a)

end

theorem ofStaking_of_mem_depositEvents (r : DepositReceipt) : ∀ e ∈ depositEvents r, e.ofStaking := by
  unfold depositEvents
  split <;> simp [Event.ofStaking]

theorem ofStaking_of_mem_withdrawalEvents (r : WithdrawReceipt) : ∀ e ∈ withdrawalEvents r, e.ofStaking := by
  unfold withdrawalEvents
  split <;> simp [Event.ofStaking]

/-! ### Prices and rounds -/

theorem outcome_publishPrice (n : Network) (caller : Address) (m : PriceMessage) (signatures : List Signature)
    (ctx : BlockContext) : n.Outcome ctx (.act caller (.publishPrice m signatures))
      (n.publishPrice caller m signatures ctx).result.isOk (n.publishPrice caller m signatures ctx).state := by
  unfold publishPrice
  split
  · exact .refused _
  rename_i hf
  split
  · exact .refused _
  · rename_i hp
    exact .published (feed_eq_ok.1 hf) hp

theorem outcome_emergencyPublish (n : Network) (caller : Address) (pair : CoinPair) (price : Amount)
    (ctx : BlockContext) : n.Outcome ctx (.act caller (.emergencyPublish pair price))
      (n.emergencyPublish caller pair price ctx).result.isOk (n.emergencyPublish caller pair price ctx).state := by
  unfold emergencyPublish
  split
  · exact .refused _
  rename_i hf
  split
  · exact .refused _
  · rename_i hp
    exact .emergency (feed_eq_ok.1 hf) hp

theorem outcome_switchRound (n : Network) (caller : Address) (pair : CoinPair) (ctx : BlockContext) :
    n.Outcome ctx (.act caller (.switchRound pair)) (n.switchRound caller pair ctx).result.isOk
      (n.switchRound caller pair ctx).state := by
  unfold switchRound
  split
  · exact .refused _
  rename_i htracked
  replace htracked := isSome_of_feed_eq_ok htracked
  dsimp only
  split
  · exact .refusedLate rfl
  rename_i f hf
  have hcases := f.switchRound_cases (n.refreshStakes ctx).registry (n.refreshStakes ctx).ledger ctx
  split
  · rename_i e f' ledger hs
    rw [hs] at hcases
    rcases hcases with ⟨-, -, rfl⟩ | ⟨_, hok, -⟩
    · exact .switchRefused htracked (feed_eq_ok.1 hf) hs
    · cases hok
  · rename_i hs
    exact .switched htracked (feed_eq_ok.1 hf) hs

/-! ### Protocol changes -/

/-- What a change answers, whoever asks for it. -/
inductive Answers (n : Network) (ctx : BlockContext) (change : ProtocolChange) : Call Unit → Prop
  | refused (e : NetworkError) : Answers n ctx change (.fail n e)
  | refusedLate {pair : CoinPair} {value : Nat} (h : change = .onPair pair (.setMaxSubscribed value))
      (e : NetworkError) : Answers n ctx change (.fail (n.refreshStakes ctx) e)
  | made {m : Network} (h : n.Changed ctx change m) : Answers n ctx change (.ok m ())

theorem answers_registerPair (n : Network) (pair : CoinPair) (params : RoundParams) (ctx : BlockContext) :
    n.Answers ctx (.registerPair pair params) (n.registerPair pair params ctx) := by
  unfold registerPair
  split
  · exact .refused _
  rename_i hnew
  split
  · exact .refused _
  · rename_i hs
    exact .made (.tracked (by simpa [Table.contains] using hnew) hs)

theorem answers_setMaxSubscribed (n : Network) (pair : CoinPair) (value : Nat) (ctx : BlockContext) :
    n.Answers ctx (.onPair pair (.setMaxSubscribed value)) (n.setMaxSubscribed pair value ctx) := by
  unfold setMaxSubscribed
  split
  · exact .refused _
  rename_i htracked
  dsimp only
  split
  · exact .refusedLate rfl _
  rename_i hf
  split
  · exact .refusedLate rfl _
  · rename_i hs
    exact .made (.capped (isSome_of_feed_eq_ok htracked) (feed_eq_ok.1 hf) hs)

theorem answers_changeFeed {change : PairChange} {call : PriceFeed.Call Ledger}
    {set : PriceFeed → Except RoundError PriceFeed} (hcall : change.setter? = some call)
    (hafter : ∀ f : PriceFeed, f.after call = f.orElse (set f))
    (hset : ∀ f f', set f = .ok f' → f' = f.withTerms (f.terms.amend change)) :
    n.Answers ctx (.onPair pair change) (n.changeFeed pair set) := by
  unfold changeFeed
  split
  · exact .refused _
  rename_i f hf
  split
  · exact .refused _
  · rename_i f' hs
    exact .made (.set hcall (feed_eq_ok.1 hf) (by rw [hafter, hs]; rfl) (hset f f' hs))

theorem answers_changeStaking {change : ProtocolChange} (setting : StakingSetting)
    (hsetting : change.setting? = some setting) :
    n.Answers ctx change (n.changeStaking (n.staking.adjust setting)) := by
  unfold changeStaking
  split
  · exact .refused _
  · rename_i hs
    exact .made (.adjusted hsetting hs)

theorem answers_applyPairChange (n : Network) (pair : CoinPair) (change : PairChange) (ctx : BlockContext) :
    n.Answers ctx (.onPair pair change) (n.applyPairChange pair change ctx) := by
  cases change with
  | setMaxSubscribed value => exact n.answers_setMaxSubscribed pair value ctx
  | setMinOracles value | setMaxOracles value | setLockPeriod secs | setValidPeriod blocks
  | setEmergencyPeriod blocks =>
    exact answers_changeFeed rfl (fun _ => rfl) fun _ _ h => (PriceFeed.withParams_eq_ok h).2
  | addReader account => exact answers_changeFeed rfl (fun _ => rfl) fun _ _ => PriceFeed.addReader_eq_ok
  | removeReader account =>
    exact answers_changeFeed rfl (fun _ => rfl) fun _ _ => PriceFeed.removeReader_eq_ok
  | addEmergencyPublisher account =>
    exact answers_changeFeed rfl (fun _ => rfl) fun _ _ => PriceFeed.addEmergencyPublisher_eq_ok
  | removeEmergencyPublisher account =>
    exact answers_changeFeed rfl (fun _ => rfl) fun _ _ => PriceFeed.removeEmergencyPublisher_eq_ok

theorem answers_applyChange (n : Network) (change : ProtocolChange) (ctx : BlockContext) :
    n.Answers ctx change (n.applyChange change ctx) := by
  cases change with
  | registerPair pair params => exact n.answers_registerPair pair params ctx
  | onPair pair change => exact n.answers_applyPairChange pair change ctx
  | setMinSubscriptionStake amount => exact .made (.minStake amount)
  | setNumIdleRounds rounds => exact .made (.idleRounds rounds)
  | setVestingPeriod blocks => exact answers_changeStaking (.vestingPeriod blocks) rfl
  | setWithdrawLockTime secs => exact answers_changeStaking (.withdrawLockTime secs) rfl
  | addToStakingWhitelist account => exact answers_changeStaking (.addToWhitelist account) rfl
  | removeFromStakingWhitelist account => exact answers_changeStaking (.removeFromWhitelist account) rfl
  | addLocker account => exact answers_changeStaking (.addLocker account) rfl
  | removeLocker account => exact answers_changeStaking (.removeLocker account) rfl

theorem outcome_executeChange (n : Network) (caller : Address) (change : ProtocolChange) (ctx : BlockContext) :
    n.Outcome ctx (.act caller (.executeChange change)) (n.executeChange caller change ctx).result.isOk
      (n.executeChange caller change ctx).state := by
  have hanswer := n.answers_applyChange change ctx
  unfold executeChange
  split
  · rename_i hauthorized
    generalize n.applyChange change ctx = x at hanswer ⊢
    cases hanswer with
    | refused e => exact .refused _
    | refusedLate h e => exact .refusedLate (by rw [h]; rfl)
    | made h => exact .changed hauthorized h
  · exact .refused _

/-- An accepted change is one that the authorizer lets its caller make. -/
theorem Outcome.changed_of_executeChange {change : ProtocolChange}
    (h : n.Outcome ctx (.act caller (.executeChange change)) true n') :
    n.authorizer caller change ∧
      ∃ m, n.Changed ctx change m ∧ n' = m.record [.protocolChangeExecuted caller change.name] := by
  cases h with
  | read hreads => cases hreads
  | staked hcall | restaked hcall => cases hcall
  | changed hauthorized hm => exact ⟨hauthorized, _, hm, rfl⟩

/-! ### All commands -/

theorem Outcome.of_reads {command : Command} (h : command.reads) (x : Except NetworkError α) :
    n.Outcome ctx command x.isOk n := by
  cases x with
  | error e => exact .refused _
  | ok a => exact .read h

theorem outcome_act (n : Network) (caller : Address) (action : Action) (ctx : BlockContext) :
    n.Outcome ctx (.act caller action) (action.run caller n ctx).result.isOk
      (action.run caller n ctx).state := by
  cases action with
  | registerOracle address name => exact (n.outcome_registerOracle caller address name ctx).map _
  | setOracleName name => exact (n.outcome_setOracleName caller name ctx).map _
  | removeOracle => exact (n.outcome_removeOracle caller ctx).map _
  | subscribe pair =>
    -- the answer is read off the feed, which is there
    have hs := n.outcome_subscribe caller pair ctx
    unfold Action.run
    dsimp only
    generalize n.subscribe caller pair ctx = x at hs ⊢
    obtain ⟨result, m⟩ := x
    cases result with
    | error e => exact hs
    | ok _ =>
      obtain ⟨f, hf⟩ := Option.isSome_iff_exists.1 hs.tracked_of_subscribe
      dsimp only
      rw [feed_eq_ok.2 hf]
      exact hs
  | unsubscribe pair => exact (n.outcome_unsubscribe caller pair ctx).map _
  | approve amount => exact .approved caller amount
  | deposit amount beneficiary =>
    exact (outcome_refreshing rfl rfl rfl ofStaking_of_mem_depositEvents).map _
  | stakeAt amount subaccount =>
    exact (outcome_refreshing rfl rfl rfl ofStaking_of_mem_depositEvents).map _
  | withdraw amount => exact (outcome_refreshing rfl rfl rfl ofStaking_of_mem_withdrawalEvents).map _
  | withdrawFrom amount subaccount =>
    exact (outcome_refreshing rfl rfl rfl ofStaking_of_mem_withdrawalEvents).map _
  | withdrawShares shares => exact (outcome_refreshing rfl rfl rfl ofStaking_of_mem_withdrawalEvents).map _
  | distribute amount => exact (outcome_onStaking rfl rfl rfl (by simp [Event.ofStaking])).map _
  | lockStake owner expiry => exact (outcome_onStaking rfl rfl rfl (by simp [Event.ofStaking])).map _
  | withdrawDelayed id => exact (outcome_onStaking rfl rfl rfl (by simp [Event.ofStaking])).map _
  | publishPrice message signatures => exact (n.outcome_publishPrice caller message signatures ctx).map _
  | emergencyPublish pair price => exact (n.outcome_emergencyPublish caller pair price ctx).map _
  | switchRound pair => exact (n.outcome_switchRound caller pair ctx).map _
  | peek pair | getPrice pair => exact .of_reads rfl _
  | executeChange change => exact (n.outcome_executeChange caller change ctx).map _

/-- Every command ends in one of the outcomes. -/
theorem outcome_run (n : Network) (command : Command) (ctx : BlockContext) :
    n.Outcome ctx command (command.run n ctx).result.isOk (command.run n ctx).state := by
  cases command with
  | act caller action => exact n.outcome_act caller action ctx
  | ask question =>
    cases question with
    | registration owner | oracles => exact .readLate rfl
    | _ => exact .of_reads rfl _

end Network

end PriceOracle
