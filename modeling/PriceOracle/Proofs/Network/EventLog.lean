import Mathlib.Data.List.Induction
import PriceOracle.Proofs.Crypto.Keccak
import PriceOracle.Proofs.Network.Logged
/-! The event log is complete. A reader who replays every event that a network recorded since it was made,
drained or not, has its oracles and of each pair the subscribers, the round with its seats and points, and
the last published price. -/
namespace PriceOracle.Network

variable {past : List Event} {n : Network}

/-! ### Runs -/

/-- What happens to a network. -/
inductive Step where
  /-- Somebody gives a command, be it accepted or not. -/
  | command (command : Command) (ctx : BlockContext)
  | refreshStakes (ctx : BlockContext)
  /-- Account holders act on the ledger by themselves. -/
  | outside (ledger : Ledger)
  | authorize (authorizer : Authorizer)
  /-- The events recorded so far are taken. -/
  | drain

/-- A network with the events that were taken from it, in their order. -/
structure Journal where
  taken : List Event
  network : Network

/-- All events so far, taken or not. -/
def Journal.events (j : Journal) : List Event := j.taken ++ j.network.events

def Journal.after (j : Journal) : Step → Journal
  | .command command ctx => ⟨j.taken, (command.run j.network ctx).state⟩
  | .refreshStakes ctx => ⟨j.taken, j.network.refreshStakes ctx⟩
  | .outside ledger => ⟨j.taken, j.network.withLedger ledger⟩
  | .authorize authorizer => ⟨j.taken, j.network.withAuthorizer authorizer⟩
  | .drain => ⟨j.taken ++ j.network.takeEvents.1, j.network.takeEvents.2⟩

def run (n : Network) (steps : List Step) : Journal := steps.foldl .after ⟨[], n⟩

theorem Logged.after {j : Journal} (h : j.network.Logged j.taken) (step : Step) :
    (j.after step).network.Logged (j.after step).taken := by
  cases step with
  | command command ctx => exact h.outcome (j.network.outcome_run command ctx)
  | refreshStakes ctx => exact h.refreshStakes ctx
  | outside ledger => exact h.silent rfl fun v hv => hv
  | authorize authorizer => exact h.silent rfl fun v hv => hv
  | drain =>
    show (NetworkView.initial.replay (j.taken ++ j.network.events ++ [])).Tells _ _
    rw [List.append_nil]
    exact h

theorem Logged.foldl_after (steps : List Step) : ∀ {j : Journal}, j.network.Logged j.taken →
    (steps.foldl Journal.after j).network.Logged (steps.foldl Journal.after j).taken := by
  induction steps with
  | nil => exact fun h => h
  | cons step steps ih => exact fun h => ih (h.after step)

/-! ### Publications -/

/-- The step is an accepted publication of a price of a pair, by a quorum or without one. -/
def Step.Publishes (n : Network) (pair : CoinPair) : Step → Prop
  | .command c ctx => c.published? = some pair ∧ (c.run n ctx).result.isOk
  | _ => False

/-- A price of the pair was published in a run, by one of its steps where the network was at that time. -/
def Published (n : Network) (steps : List Step) (pair : CoinPair) : Prop :=
  ∃ before step, before ++ [step] <+: steps ∧ step.Publishes (n.run before).network pair

/-- A step adds events, of which one publishes a price exactly if the step does. -/
theorem Journal.events_after (j : Journal) (step : Step) : ∃ es, (j.after step).events = j.events ++ es ∧
    ∀ pair, (∃ e ∈ es, e.Publishes pair) ↔ step.Publishes j.network pair := by
  have recorded {n' : Network} {published : Option CoinPair} (h : j.network.Records n' published) :
      ∃ es, j.taken ++ n'.events = j.events ++ es ∧
        ∀ pair, (∃ e ∈ es, e.Publishes pair) ↔ published = some pair := by
    obtain ⟨es, hevents, hes⟩ := h
    exact ⟨es, by rw [hevents, events, List.append_assoc], hes⟩
  cases step with
  | command c ctx =>
    obtain ⟨es, hevents, hes⟩ := recorded (j.network.outcome_run c ctx).records
    refine ⟨es, hevents, fun pair => (hes pair).trans ?_⟩
    show _ ↔ c.published? = some pair ∧ (c.run j.network ctx).result.isOk
    cases (c.run j.network ctx).result.isOk <;> simp
  | refreshStakes ctx =>
    obtain ⟨es, hevents, hes⟩ := recorded (j.network.records_refreshStakes ctx)
    exact ⟨es, hevents, fun pair => (hes pair).trans (iff_of_false nofun id)⟩
  | outside ledger | authorize authorizer =>
    exact ⟨[], (List.append_nil _).symm, fun pair => iff_of_false (by simp) id⟩
  | drain => exact ⟨[], rfl, fun pair => iff_of_false (by simp) id⟩

theorem run_concat (n : Network) (steps : List Step) (step : Step) :
    n.run (steps ++ [step]) = (n.run steps).after step :=
  List.foldl_append ..

theorem published_concat {steps : List Step} {step : Step} {pair : CoinPair} :
    n.Published (steps ++ [step]) pair ↔ n.Published steps pair ∨ step.Publishes (n.run steps).network pair := by
  constructor
  · rintro ⟨before, last, hbefore, hpub⟩
    rcases List.prefix_concat_iff.1 hbefore with heq | hbefore
    · obtain ⟨rfl, hlast⟩ := List.append_inj' heq rfl
      obtain rfl := List.singleton_inj.1 hlast
      exact .inr hpub
    · exact .inl ⟨before, last, hbefore, hpub⟩
  · rintro (⟨before, last, hbefore, hpub⟩ | hpub)
    · exact ⟨before, last, hbefore.trans (List.prefix_append ..), hpub⟩
    · exact ⟨steps, step, List.prefix_refl _, hpub⟩

/-- The log of a run has a publication of a pair's price exactly if one was accepted. -/
theorem exists_publishes_iff {pair : CoinPair} (hnew : n.events = []) (steps : List Step) :
    (∃ e ∈ (n.run steps).events, e.Publishes pair) ↔ n.Published steps pair := by
  induction steps using List.reverseRecOn with
  | nil =>
    refine iff_of_false ?_ ?_
    · rintro ⟨e, he, -⟩
      rw [show (n.run []).events = n.events from rfl, hnew] at he
      cases he
    · rintro ⟨before, step, hbefore, -⟩
      cases List.append_eq_nil_iff.1 (List.prefix_nil.1 hbefore) |>.2
  | append_singleton steps step ih =>
    obtain ⟨es, hevents, hes⟩ := (n.run steps).events_after step
    rw [published_concat, ← ih, ← hes pair, run_concat, hevents]
    simp only [List.mem_append, or_and_right, exists_or]

/-! ### New networks -/

/-- The outcome of a start is read off the parameters' check and the start of staking. Neither proof may
look into the latter, since that takes a hash. -/
theorem new_of_ok {params : NetworkParams} {ledger : Ledger} {staking : Staking}
    (hp : params.validate = .ok ())
    (hs : Staking.new stakingAccount params.staking ledger (.new vaultAccount) = .ok staking) :
    Network.new params ledger = .ok ⟨.empty, staking, .empty,
      ⟨params.minSubscriptionStake, params.numIdleRounds⟩, .governor params.governor, []⟩ := by
  unfold Network.new
  rw [hp, hs]

/-- A new network has no oracles, tracks no pair and has recorded nothing. -/
theorem new_eq_ok {params : NetworkParams} {ledger : Ledger} (h : Network.new params ledger = .ok n) :
    ∃ staking, Staking.new stakingAccount params.staking ledger (.new vaultAccount) = .ok staking ∧
      n = ⟨.empty, staking, .empty, ⟨params.minSubscriptionStake, params.numIdleRounds⟩,
        .governor params.governor, []⟩ := by
  unfold Network.new at h
  cases hp : params.validate with
  | error e =>
    rw [hp] at h
    cases h
  | ok u =>
    rw [hp] at h
    cases hs : Staking.new stakingAccount params.staking ledger (.new vaultAccount) with
    | error e =>
      rw [hs] at h
      cases h
    | ok staking =>
      rw [hs] at h
      cases h
      exact ⟨staking, rfl, rfl⟩

theorem events_new {params : NetworkParams} {ledger : Ledger} (h : Network.new params ledger = .ok n) :
    n.events = [] := by
  obtain ⟨staking, -, rfl⟩ := new_eq_ok h
  rfl

theorem logged_new {params : NetworkParams} {ledger : Ledger} (h : Network.new params ledger = .ok n) :
    n.Logged [] := by
  obtain ⟨staking, -, rfl⟩ := new_eq_ok h
  exact NetworkView.Tells.initial

/-! ### The book -/

theorem perm_identities {b : OracleBook} {r : Registry} (h : b.Lists r) :
    b.toList.Perm r.identities := by
  have hbook : b.toList.Nodup := b.sorted.imp fun hlt heq => by simp [heq] at hlt
  have hregistry : r.identities.Nodup := by
    have howners := h.unambiguous.owners
    rw [Registry.owners_eq] at howners
    exact .of_map _ howners
  refine (List.perm_ext_iff_of_nodup hbook hregistry).2 ?_
  rintro ⟨owner, address, name⟩
  rw [Table.mem_toList, Registry.mem_identities h.unambiguous, h.entry]

/-! ### The log -/

/-- After any run of a new network: the events it recorded, replayed from nothing, have the registered
oracles with their addresses and names, and of every tracked pair the subscribers, the number and the
deadline of its round, the seats in their order with their points and, once a publication of its price was
accepted, the last price with its block. Of a pair the log has a publication exactly if one was accepted. A
pair that no event is about is in its first round, with nobody subscribed or seated. -/
theorem replay_run {params : NetworkParams} {ledger : Ledger} {n : Network}
    (hn : Network.new params ledger = .ok n) (steps : List Step) :
    let j := n.run steps
    let v := NetworkView.initial.replay j.events
    v.book.toList.Perm j.network.registry.identities ∧
      (∀ pair, j.network.feeds.get? pair = none → v.page pair = .initial) ∧
      (∀ pair, (∃ e ∈ j.events, e.Publishes pair) ↔ n.Published steps pair) ∧
      ∀ pair f, j.network.feeds.get? pair = some f →
        (v.page pair).subscribed = f.subscribed ∧
        (v.page pair).number = f.round.number ∧
        (v.page pair).lockUntil = f.round.lockUntil ∧
        (v.page pair).seats = f.round.seats.map .of ∧
        (n.Published steps pair →
          (v.page pair).published = some (f.currentPrice, f.lastPublicationBlock)) ∧
        ((∀ e ∈ j.events, e.pair? ≠ some pair) →
          f.round.number = 1 ∧ f.round.lockUntil = 0 ∧ f.round.seats = [] ∧ f.subscribed = .empty) := by
  intro j v
  have h : v.Tells j.network.registry j.network.feeds := Logged.foldl_after steps (logged_new hn)
  have hlog : ∀ pair, (∃ e ∈ j.events, e.Publishes pair) ↔ n.Published steps pair := fun pair =>
    exists_publishes_iff (events_new hn) steps
  refine ⟨perm_identities h.book, h.untracked, hlog, fun pair f hf => ?_⟩
  have hpage := h.page pair f hf
  refine ⟨hpage.subscribed, hpage.number, hpage.lockUntil, hpage.seats, fun hpub => ?_, fun hnone => ?_⟩
  · have hsome : (v.page pair).published.isSome := NetworkView.isSome_published_replay (.inr ((hlog pair).2 hpub))
    obtain ⟨⟨price, block⟩, hpublished⟩ := Option.isSome_iff_exists.1 hsome
    obtain ⟨hprice, hblock⟩ := hpage.published price block hpublished
    rw [hprice, hblock]
    exact hpublished
  · have hinitial : v.page pair = .initial := NetworkView.page_replay_of_ne hnone .initial
    rw [hinitial] at hpage
    refine ⟨hpage.number.symm, hpage.lockUntil.symm, ?_, hpage.subscribed.symm⟩
    exact List.map_eq_nil_iff.1 hpage.seats.symm

theorem stakingAccount_eq : stakingAccount = .ofNat 0x9a779616f0a5d0e9c94548d4cc7904f499774ee3 := by
  rw [stakingAccount, systemAccount, keccak256_eq]
  decide +kernel

theorem vaultAccount_eq : vaultAccount = .ofNat 0xd63a68d14b2adf238fa02f2f560c8e4ae2d76420 := by
  rw [vaultAccount, systemAccount, keccak256_eq]
  decide +kernel

theorem isZero_stakingAccount : stakingAccount.isZero = false := by
  rw [stakingAccount_eq]
  rfl

/-- The network that starts under a governor with a stake for subscriptions, all else being as by default. -/
theorem new_of_governor {governor : Address} {minStake : Amount} (hgovernor : governor.isZero = false)
    (ledger : Ledger) :
    Network.new { governor, minSubscriptionStake := minStake } ledger = .ok ⟨.empty,
      ⟨stakingAccount, ⟨.empty, 0, 0, .none, 0, 10⟩, ledger, .new vaultAccount, 3600, .empty, .empty, .empty⟩,
      .empty, ⟨minStake, 1⟩, .governor governor, []⟩ := by
  refine new_of_ok ?_ ?_
  · unfold NetworkParams.validate
    rw [hgovernor]
    rfl
  · unfold Staking.new
    rw [isZero_stakingAccount]
    rfl

/-- One oracle joins a new pair, takes its next round alone and an emergency price is published. -/
theorem replay_run_of_emergencyPublish :
    let governor := Address.ofNat 1
    let owner := Address.ofNat 2
    let address := Address.ofNat 3
    let pair : CoinPair := default
    let params : RoundParams := { emergencyPublishers := [governor] }
    let staking : Staking :=
      ⟨stakingAccount, ⟨.empty, 0, 0, .none, 0, 10⟩, .empty, .new vaultAccount, 3600, .empty, .empty, .empty⟩
    let n : Network := ⟨.empty, staking, .empty, ⟨0, 1⟩, .governor governor, []⟩
    let steps : List Step := [
      .command (.act governor (.executeChange (.registerPair pair params))) ⟨1, 10⟩,
      .command (.act owner (.registerOracle address "host")) ⟨2, 20⟩,
      .drain,
      .command (.act owner (.subscribe pair)) ⟨3, 30⟩,
      .command (.act owner (.switchRound pair)) ⟨4, 40⟩,
      .command (.act governor (.emergencyPublish pair 7)) ⟨5, 50⟩]
    Network.new { governor } .empty = .ok n ∧ (n.run steps).taken.length = 2 ∧
      (NetworkView.initial.replay (n.run steps).events).book.toList = [(owner, address, "host")] ∧
      ((NetworkView.initial.replay (n.run steps).events).page pair).published = some (7, 5) ∧
      ((NetworkView.initial.replay (n.run steps).events).page pair).seats = [⟨owner, address, 0⟩] := by
  intro governor owner address pair params staking n steps
  have hn : Network.new { governor } .empty = .ok n := new_of_governor rfl .empty
  obtain ⟨hbook, -, -, hpages⟩ := replay_run hn steps
  have hidentities : (n.run steps).network.registry.identities = [(owner, address, "host")] := by
    decide +kernel
  have hpublished : n.Published steps pair :=
    ⟨steps.dropLast, .command (.act governor (.emergencyPublish pair 7)) ⟨5, 50⟩, List.prefix_refl _, rfl,
      by decide +kernel⟩
  have htold : ((n.run steps).network.feeds.get? pair).map (fun f =>
      (f.currentPrice, f.lastPublicationBlock, f.round.seats.map SeatView.of))
        = some (7, 5, [⟨owner, address, 0⟩]) := by decide +kernel
  have htaken : (n.run steps).taken.length = 2 := by decide +kernel
  obtain ⟨f, hf, heq⟩ := Option.map_eq_some_iff.1 htold
  rw [Prod.mk.injEq, Prod.mk.injEq] at heq
  obtain ⟨hprice, hblock, hseats⟩ := heq
  obtain ⟨-, -, -, hs, hp, -⟩ := hpages pair f hf
  rw [hidentities, List.perm_singleton] at hbook
  rw [hseats] at hs
  rw [hprice, hblock] at hp
  exact ⟨hn, htaken, hbook, hp hpublished, hs⟩

end PriceOracle.Network
