import PriceOracle.Proofs.Network.Outcome
import PriceOracle.Proofs.Network.Tells
/-! What every call of the network records. A log is kept if it tells the network when it is replayed from
nothing. Each outcome keeps it, of a refusal as of a success: its events carry any view over what it changes,
and what it changes without an event is not told. -/
namespace PriceOracle.Network

/-! ### The log -/

/-- What was drained and what still waits, replayed from nothing, tells the network. -/
def Logged (past : List Event) (n : Network) : Prop :=
  (NetworkView.initial.replay (past ++ n.events)).Tells n.registry n.feeds

variable {past : List Event} {n n' : Network} {ctx : BlockContext}

/-- The log of a call: it takes over every view that told the network before. -/
theorem Logged.record (h : n.Logged past) {es : List Event} {registry : Registry} {staking : Staking}
    {feeds : Feeds} {policy : SubscriptionPolicy} {authorizer : Authorizer}
    (hes : ∀ v : NetworkView, v.Tells n.registry n.feeds → (v.replay es).Tells registry feeds) :
    Logged past ⟨registry, staking, feeds, policy, authorizer, n.events ++ es⟩ := by
  show (NetworkView.initial.replay (past ++ (n.events ++ es))).Tells registry feeds
  rw [← List.append_assoc, NetworkView.replay_append]
  exact hes _ h

theorem Logged.silent (h : n.Logged past) (hevents : n'.events = n.events)
    (ht : ∀ v : NetworkView, v.Tells n.registry n.feeds → v.Tells n'.registry n'.feeds) :
    n'.Logged past := by
  unfold Logged
  rw [hevents]
  exact ht _ h

/-! ### Stakes -/

theorem Logged.carryDrop (h : n.Logged past) (owner : Address) (previous : Amount) :
    (n.carryDrop owner previous).Logged past := by
  obtain ⟨change, registry, feeds, hc⟩ :
      ∃ c r fs, n.policy.stakeDecreased owner previous n.registry n.feeds = (c, r, fs) := ⟨_, _, _, rfl⟩
  unfold Network.carryDrop
  rw [hc]
  exact h.record fun v hv => tells_stakeDecreased hv hc

theorem Logged.refreshStakes (h : n.Logged past) (ctx : BlockContext) : (n.refreshStakes ctx).Logged past := by
  refine refreshStakes_induction (motive := Logged past) ?_ fun m owner previous hm => hm.carryDrop owner previous
  exact h.silent rfl fun v hv => hv.of_perm (perm_restaked hv.book.unambiguous ctx)

/-! ### Oracles -/

theorem not_seatsOwner_of_canRemove {p : SubscriptionPolicy} {owner : Address} {feeds : Feeds}
    (h : p.canRemove owner feeds) {pair : CoinPair} {f : PriceFeed} (hf : feeds.get? pair = some f) :
    ¬ f.round.seatsOwner owner := by
  have hidle := List.all_eq_true.1 h f (List.mem_map_of_mem (Table.mem_toList.2 hf))
  unfold PriceFeed.isIdle at hidle
  simpa using (Bool.and_eq_true_iff.1 hidle).1

theorem Logged.removed (h : n.Logged past) {caller : Address} {entry : OracleEntry} {registry : Registry}
    (hr : n.registry.remove caller = .ok (entry, registry)) (hidle : n.policy.canRemove caller n.feeds) :
    (({ n with
        registry
        feeds := n.feeds.map fun _ (f : PriceFeed) => if f.isSubscribed caller then f.drop caller else f }).record
      (removalEvents n.feeds caller entry.address)).Logged past := by
  refine Logged.record h fun v hv => ?_
  unfold removalEvents
  rw [NetworkView.replay_append, map_filter_eq_flatMap]
  have hevents : ∀ (pair : CoinPair) (f : PriceFeed),
      ∀ e ∈ if f.isSubscribed caller then [Event.oracleUnsubscribed caller pair] else [],
        e.pair? = some pair := by
    intro pair f e he
    split at he
    · rw [List.mem_singleton] at he
      rw [he]
      rfl
    · cases he
  have hmap := hv.map hevents fun pair f hf => (hv.page pair f hf).dropSubscribed caller
  refine hmap.removed hr (fun pair f' hf' => ?_) entry.address
  rw [Table.get?_map, Option.map_eq_some_iff] at hf'
  obtain ⟨f, hf, rfl⟩ := hf'
  have hseat := not_seatsOwner_of_canRemove hidle hf
  split
  · refine ⟨?_, ?_⟩
    · rw [Round.seatsOwner_iff, PriceFeed.owners_drop, ← Round.seatsOwner_iff]
      exact hseat
    · unfold PriceFeed.isSubscribed PriceFeed.drop Table.contains
      simp [Table.get?_erase]
  · rename_i hsub
    exact ⟨hseat, hsub⟩

/-! ### Subscriptions -/

theorem eq_of_mem_subscriptionEvents {owner : Address} {pair : CoinPair} {number : Nat}
    {outcome : SubscribeOutcome} {e : Event} (he : e ∈ subscriptionEvents owner pair number outcome) :
    (∃ evicted, e = .oracleUnsubscribed evicted pair) ∨ e = .oracleSubscribed owner pair ∨
      e = .oracleJoinedRound owner pair number := by
  rcases List.mem_append.1 he with he | he
  · cases hevicted : outcome.evicted with
    | none =>
      rw [hevicted] at he
      cases he
    | some evicted =>
      rw [hevicted, Option.elim_some, List.mem_singleton] at he
      exact .inl ⟨evicted, he⟩
  · rcases List.mem_cons.1 he with he | he
    · exact .inr (.inl he)
    · split at he
      · exact .inr (.inr (List.mem_singleton.1 he))
      · cases he

/-- An accepted subscription is one to the feed, and lists in the registry what it lists there. -/
theorem subscribe_eq_ok {p : SubscriptionPolicy} {owner : Address} {f f' : PriceFeed} {r r' : Registry}
    {outcome : SubscribeOutcome} (h : p.subscribe owner f r = .ok (outcome, f', r')) :
    f.subscribe owner r = .ok (outcome, f') ∧
      r' = (outcome.evicted.elim r (r.delist · f'.pair)).enlist owner f'.pair := by
  unfold SubscriptionPolicy.subscribe at h
  split at h
  · cases h
  · split at h
    · cases h
    · split at h
      · cases h
      · rename_i outcome' f₁ hs
        cases h
        exact ⟨hs, rfl⟩

theorem identities_subscribe (r : Registry) (owner : Address) (evicted : Option Address)
    (pair : CoinPair) :
    ((evicted.elim r (r.delist · pair)).enlist owner pair).identities = r.identities := by
  rw [Registry.identities_enlist]
  cases evicted with
  | none => rfl
  | some tail => exact Registry.identities_delist r tail pair

theorem Logged.subscribed (h : n.Logged past) {caller : Address} {pair : CoinPair} {f f' : PriceFeed}
    {outcome : SubscribeOutcome} {registry : Registry} (hf : n.feeds.get? pair = some f)
    (hs : n.policy.subscribe caller f n.registry = .ok (outcome, f', registry)) :
    (({ n with registry }.withFeed f').record
      (subscriptionEvents caller pair f'.round.number outcome)).Logged past := by
  obtain ⟨hfeed, rfl⟩ := subscribe_eq_ok hs
  refine Logged.record h fun v hv => ?_
  have ht := (hv.page pair f hf).subscribe hv.book hfeed f'.round.number
  have hpair : ∀ e ∈ subscriptionEvents caller pair f'.round.number outcome, e.pair? = some pair := by
    intro e he
    rcases eq_of_mem_subscriptionEvents he with ⟨evicted, rfl⟩ | rfl | rfl <;> rfl
  exact (hv.withFeed hf hpair ht).of_perm (.of_eq (identities_subscribe _ _ _ _))

theorem Logged.isRegistered (h : n.Logged past) {owner : Address} {pair : CoinPair} {f : PriceFeed}
    (hf : n.feeds.get? pair = some f) (hlisted : f.isSubscribed owner) : n.registry.isRegistered owner := by
  have hpage := NetworkView.Tells.page h pair f hf
  rw [← h.book.isSome_get?]
  exact hpage.registered owner (by rw [hpage.subscribed]; exact hlisted)

/-! ### Staking -/

/-- Events of staking tell of no oracle and no pair. -/
theorem replay_of_ofStaking {es : List Event} (h : ∀ e ∈ es, e.ofStaking) (v : NetworkView) :
    v.replay es = v := by
  have happly : ∀ e : Event, e.ofStaking → v.apply e = v := by
    intro e he
    cases e <;> first | rfl | cases he
  induction es with
  | nil => rfl
  | cons e es ih =>
    rw [NetworkView.replay_cons, happly e (h e (List.mem_cons_self ..))]
    exact ih fun e' he' => h e' (List.mem_cons_of_mem _ he')

theorem Logged.staked (h : n.Logged past) (staking : Staking) {events : List Event}
    (hevents : ∀ e ∈ events, e.ofStaking) : ({ n with staking }.record events).Logged past := by
  refine Logged.record h fun v hv => ?_
  rw [replay_of_ofStaking hevents]
  exact hv

/-! ### Rounds -/

theorem eq_of_mem_switchEvents {caller : Address} {pair : CoinPair} {outcome : SwitchOutcome} {e : Event}
    (he : e ∈ switchEvents caller pair outcome) :
    (∃ owner address amount, e = .oracleRewardTransfer pair outcome.previousRound owner address amount) ∨
      e = .newRound pair caller outcome.round outcome.lockUntil (outcome.selected.map (·.2)) := by
  rcases List.mem_append.1 he with he | he
  · obtain ⟨p, -, rfl⟩ := List.mem_map.1 he
    exact .inl ⟨p.owner, p.address, p.amount, rfl⟩
  · exact .inr (List.mem_singleton.1 he)

theorem Logged.switched (h : n.Logged past) (caller : Address) {pair : CoinPair} {f f' : PriceFeed}
    {ledger : Ledger} {outcome : SwitchOutcome} (hf : n.feeds.get? pair = some f)
    (hs : f.switchRound n.registry n.ledger ctx = ⟨.ok outcome, (f', ledger)⟩) :
    (((n.withFeed f').withLedger ledger).record (switchEvents caller pair outcome)).Logged past := by
  refine Logged.record h fun v hv => ?_
  have ht := (hv.page pair f hf).switchRound hv.book (congrArg Attempt.result hs) caller
  rw [hs] at ht
  have hpair : ∀ e ∈ switchEvents caller pair outcome, e.pair? = some pair := by
    intro e he
    rcases eq_of_mem_switchEvents he with ⟨owner, address, amount, rfl⟩ | rfl <;> rfl
  exact hv.withFeed hf hpair ht

/-! ### Protocol changes -/

theorem Logged.capped (h : n.Logged past) {pair : CoinPair} {value : Nat} {f f' : PriceFeed}
    {dropped : List Address} (hf : n.feeds.get? pair = some f)
    (hs : f.setMaxSubscribed value n.registry = .ok (dropped, f')) :
    (({ n with
        registry := dropped.foldl (fun registry owner => registry.delist owner pair) n.registry }.withFeed
          f').record (dropped.map (.oracleUnsubscribed · pair))).Logged past := by
  obtain ⟨-, -, rfl⟩ := PriceFeed.setMaxSubscribed_eq_ok hs
  refine Logged.record h fun v hv => ?_
  have ht := ((hv.page pair f hf).settings { f.params with maxSubscribed := value } f.readers
    f.emergencyPublishers).drops dropped
  refine (hv.withFeed hf (fun e he => ?_) ht).of_perm
    (.of_eq (identities_foldl_delist id (fun _ => pair) dropped _))
  obtain ⟨owner, -, rfl⟩ := List.mem_map.1 he
  rfl

theorem Logged.changed (h : n.Logged past) {change : ProtocolChange} (hm : n.Changed ctx change n') :
    n'.Logged past := by
  cases hm with
  | tracked hnew hs => exact h.silent rfl fun v hv => hv.tracked hnew (.start hs)
  | capped htracked hf hs => exact (h.refreshStakes ctx).capped hf hs
  | set hcall hf hafter hterms =>
    rw [hterms]
    exact h.silent rfl fun v hv => hv.refeed hf ((hv.page _ _ hf).settings ..)
  | minStake amount | idleRounds rounds | adjusted hsetting hs => exact h.silent rfl fun v hv => hv

/-! ### Commands -/

theorem Logged.outcome (h : n.Logged past) {command : Command} {accepted : Bool}
    (ho : n.Outcome ctx command accepted n') : n'.Logged past := by
  cases ho with
  | refused _ | read hreads => exact h
  | refusedLate _ | readLate _ => exact h.refreshStakes ctx
  | registered hr => exact Logged.record h fun v hv => hv.registered hr
  | renamed hr => exact Logged.record h fun v hv => hv.renamed hr
  | removed hr hidle => exact h.removed hr hidle
  | subscribed htracked hf hs => exact (h.refreshStakes ctx).subscribed hf hs
  | @unsubscribed caller pair f hf hlisted hregistered =>
    refine Logged.record h fun v hv => ?_
    have ht := hv.withEvent hf rfl ((hv.page pair f hf).drop caller)
    exact ht.of_perm (.of_eq (Registry.identities_delist _ _ _))
  | unlisted hf hlisted => exact h.silent rfl fun v hv => hv.refeed hf (hv.page _ _ hf)
  | unknown hf hlisted hnone =>
    have hregistered := h.isRegistered hf hlisted
    rw [Registry.isRegistered, hnone] at hregistered
    cases hregistered
  | approved caller amount | stakingRefused hcall hs => exact h.silent rfl fun v hv => hv
  | staked hcall hkept hs hevents => exact h.staked _ hevents
  | restaked hcall hmoves hs hevents => exact (h.staked _ hevents).refreshStakes ctx
  | published hf hp =>
    exact Logged.record h fun v hv => hv.withEvent hf rfl ((hv.page _ _ hf).publish hv.book hp _)
  | emergency hf hp =>
    exact Logged.record h fun v hv => hv.withEvent hf rfl ((hv.page _ _ hf).emergencyPublish hp)
  | switched htracked hf hs => exact (h.refreshStakes ctx).switched _ hf hs
  | switchRefused htracked hf hs =>
    exact (h.refreshStakes ctx).silent rfl fun v hv => hv.refeed hf (hv.page _ _ hf)
  | changed hauthorized hm => exact Logged.record (h.changed hm) fun v hv => hv

/-! ### Publications -/

/-- Events were added, which publish a price of the given pair, or of none. -/
def Records (n n' : Network) (published : Option CoinPair) : Prop :=
  ∃ es, n'.events = n.events ++ es ∧ ∀ pair, (∃ e ∈ es, e.Publishes pair) ↔ published = some pair

theorem Records.quiet {es : List Event} (hevents : n'.events = n.events ++ es)
    (hes : ∀ e ∈ es, ∀ pair, ¬ e.Publishes pair) : n.Records n' none := by
  refine ⟨es, hevents, fun pair => ⟨fun ⟨e, he, hpub⟩ => absurd hpub (hes e he pair), fun h => ?_⟩⟩
  cases h

theorem Records.nothing (hevents : n'.events = n.events) : n.Records n' none :=
  .quiet (hevents.trans (List.append_nil _).symm) fun e he => by cases he

theorem Records.single {e : Event} {published : Option CoinPair} (hevents : n'.events = n.events ++ [e])
    (he : ∀ pair, e.Publishes pair ↔ published = some pair) : n.Records n' published :=
  ⟨[e], hevents, fun pair => by simp [← he]⟩

theorem Records.trans {n'' : Network} {published : Option CoinPair} (h : n.Records n' none)
    (h' : n'.Records n'' published) : n.Records n'' published := by
  obtain ⟨es, hevents, hes⟩ := h
  obtain ⟨es', hevents', hes'⟩ := h'
  refine ⟨es ++ es', by rw [hevents', hevents, List.append_assoc], fun pair => ?_⟩
  rw [← hes' pair]
  constructor
  · rintro ⟨e, he, hpub⟩
    rcases List.mem_append.1 he with he | he
    · cases (hes pair).1 ⟨e, he, hpub⟩
    · exact ⟨e, he, hpub⟩
  · rintro ⟨e, he, hpub⟩
    exact ⟨e, List.mem_append_right _ he, hpub⟩

theorem records_carryDrop (n : Network) (owner : Address) (previous : Amount) :
    n.Records (n.carryDrop owner previous) none := by
  refine .quiet rfl fun e he pair => ?_
  rcases List.mem_append.1 he with he | he
  · obtain ⟨⟨p, seated⟩, -, he⟩ := List.mem_flatMap.1 he
    rcases List.mem_cons.1 he with rfl | he
    · exact id
    · cases seated
      · cases he
      · rw [List.mem_singleton.1 he]
        exact id
  · obtain ⟨⟨p, swap⟩, -, he⟩ := List.mem_flatMap.1 he
    rcases List.mem_cons.1 he with rfl | he
    · exact id
    · rw [List.mem_singleton.1 he]
      exact id

theorem records_refreshStakes (n : Network) (ctx : BlockContext) : n.Records (n.refreshStakes ctx) none :=
  refreshStakes_induction (motive := (n.Records · none)) (.nothing rfl) fun m owner previous h =>
    h.trans (m.records_carryDrop owner previous)

theorem Changed.records {change : ProtocolChange} (h : n.Changed ctx change n') : n.Records n' none := by
  cases h with
  | tracked | set | minStake | idleRounds | adjusted => exact .nothing rfl
  | capped =>
    refine (n.records_refreshStakes ctx).trans (.quiet rfl fun e he pair => ?_)
    obtain ⟨owner, -, rfl⟩ := List.mem_map.1 he
    exact id

/-- An accepted publication is recorded as one, and nothing else is. -/
theorem Outcome.records {command : Command} {accepted : Bool} (h : n.Outcome ctx command accepted n') :
    n.Records n' (bif accepted then command.published? else none) := by
  have hstakes := n.records_refreshStakes ctx
  have quiet {m : Network} {events : List Event} (hevents : ∀ e ∈ events, e.ofStaking) :
      m.Records (m.record events) none := by
    refine .quiet rfl fun e he pair hpub => ?_
    have hstaking := hevents e he
    cases e <;> first | exact hpub | cases hstaking
  cases h with
  | refused | unlisted | unknown | approved | stakingRefused => exact .nothing rfl
  | refusedLate | readLate => exact hstakes
  | switchRefused => exact hstakes.trans (.nothing rfl)
  | read hreads =>
    rw [Command.published?_of_reads hreads]
    exact .nothing rfl
  | registered | renamed | unsubscribed => exact .single rfl fun _ => iff_of_false id nofun
  | removed =>
    refine .quiet rfl fun e he pair => ?_
    rcases List.mem_append.1 he with he | he
    · obtain ⟨x, -, rfl⟩ := List.mem_map.1 he
      exact id
    · rw [List.mem_singleton.1 he]
      exact id
  | subscribed =>
    refine hstakes.trans (.quiet rfl fun e he pair => ?_)
    rcases eq_of_mem_subscriptionEvents he with ⟨evicted, rfl⟩ | rfl | rfl <;> exact id
  | staked hcall hkept hs hevents =>
    rw [Command.published?_of_staking? hcall]
    exact Records.trans (.nothing rfl) (quiet hevents)
  | restaked hcall hmoves hs hevents =>
    rw [Command.published?_of_staking? hcall]
    exact Records.trans (Records.trans (.nothing rfl) (quiet hevents)) (records_refreshStakes _ ctx)
  | published | emergency => exact .single rfl fun _ => Option.some_inj.symm
  | switched =>
    refine hstakes.trans (.quiet rfl fun e he pair => ?_)
    rcases eq_of_mem_switchEvents he with ⟨owner, address, amount, rfl⟩ | rfl <;> exact id
  | changed hauthorized hm => exact hm.records.trans (.single rfl fun _ => iff_of_false id nofun)

end PriceOracle.Network
