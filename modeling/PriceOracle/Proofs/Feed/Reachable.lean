import PriceOracle.Feed.Publication
import PriceOracle.Feed.Subscription
import PriceOracle.Feed.Switch
import PriceOracle.Proofs.Registry.Identities
import PriceOracle.Proofs.Round.Seats
/-! The states that a feed can come to. Whatever registries its calls are made with, as long as these have
one oracle an owner, no owner ever has two seats. -/
namespace PriceOracle.PriceFeed

/-! ### Calls -/

/-- What can be asked of a feed, with the registry and the ledger that the call sees. -/
inductive Call (L : Type) where
  | subscribe (owner : Address) (registry : Registry)
  | unsubscribe (owner : Address)
  | expel (owner : Address)
  /-- An owner's stake dropped. -/
  | yieldSeat (owner : Address) (registry : Registry)
  | publish (caller : Address) (m : PriceMessage) (signatures : List Signature) (ctx : BlockContext)
  | emergencyPublish (caller : Address) (price : Amount) (ctx : BlockContext)
  | switchRound (registry : Registry) (ledger : L) (ctx : BlockContext)
  | setMinOracles (value : Nat)
  | setMaxOracles (value : Nat)
  | setMaxSubscribed (value : Nat) (registry : Registry)
  | setLockPeriod (secs : Nat)
  | setValidPeriod (blocks : Nat)
  | setEmergencyPeriod (blocks : Nat)
  | addReader (account : Address)
  | removeReader (account : Address)
  | addEmergencyPublisher (account : Address)
  | removeEmergencyPublisher (account : Address)

variable {L : Type} [CollateralLedger L]

/-- The registry that a call sees came about by calls. -/
def Call.Grounded : Call L → Prop
  | subscribe _ registry | yieldSeat _ registry | switchRound registry .. | setMaxSubscribed _ registry =>
    registry.Reachable
  | _ => True

/-- The registry that a call sees has one oracle an owner and one an address. -/
def Call.WellFormed : Call L → Prop
  | subscribe _ registry | yieldSeat _ registry | switchRound registry .. | setMaxSubscribed _ registry =>
    registry.Unambiguous
  | _ => True

omit [CollateralLedger L] in
instance : DecidablePred (Call.WellFormed (L := L))
  | .subscribe _ registry | .yieldSeat _ registry | .switchRound registry .. | .setMaxSubscribed _ registry =>
    inferInstanceAs (Decidable registry.Unambiguous)
  | .unsubscribe .. | .expel .. | .publish .. | .emergencyPublish .. | .setMinOracles .. | .setMaxOracles ..
  | .setLockPeriod .. | .setValidPeriod .. | .setEmergencyPeriod .. | .addReader .. | .removeReader ..
  | .addEmergencyPublisher .. | .removeEmergencyPublisher .. => .isTrue trivial

omit [CollateralLedger L] in
theorem Call.Grounded.wellFormed {call : Call L} (h : call.Grounded) : call.WellFormed := by
  cases call with
  | subscribe _ registry | yieldSeat _ registry | switchRound registry | setMaxSubscribed _ registry =>
    exact Registry.Reachable.unambiguous h
  | _ => trivial

/-- The state that an outcome leaves: its own, or that before if it is a refusal. -/
def orElse {ε : Type} (f : PriceFeed) (x : Except ε PriceFeed) : PriceFeed := x.toOption.getD f

/-- The state a call leaves, also when it is refused. -/
def after (f : PriceFeed) : Call L → PriceFeed
  | .subscribe owner registry => f.orElse ((f.subscribe owner registry).map (·.2))
  | .unsubscribe owner => f.orElse (f.unsubscribe owner)
  | .expel owner => (f.expel owner).2
  | .yieldSeat owner registry => (f.yieldSeat? owner registry).elim f (·.2)
  | .publish caller m signatures ctx => f.orElse ((f.publish caller m signatures ctx).map (·.2))
  | .emergencyPublish caller price ctx => f.orElse (f.emergencyPublish caller price ctx)
  | .switchRound registry ledger ctx => (f.switchRound registry ledger ctx).state.1
  | .setMinOracles value => f.orElse (f.setMinOracles value)
  | .setMaxOracles value => f.orElse (f.setMaxOracles value)
  | .setMaxSubscribed value registry => f.orElse ((f.setMaxSubscribed value registry).map (·.2))
  | .setLockPeriod secs => f.orElse (f.setLockPeriod secs)
  | .setValidPeriod blocks => f.orElse (f.setValidPeriod blocks)
  | .setEmergencyPeriod blocks => f.orElse (f.setEmergencyPeriod blocks)
  | .addReader account => f.orElse (f.addReader account)
  | .removeReader account => f.orElse (f.removeReader account)
  | .addEmergencyPublisher account => f.orElse (f.addEmergencyPublisher account)
  | .removeEmergencyPublisher account => f.orElse (f.removeEmergencyPublisher account)

/-- The states that calls bring a new feed to. -/
inductive Reachable (L : Type) [CollateralLedger L] : PriceFeed → Prop
  | start {pair : CoinPair} {params : RoundParams} {ctx : BlockContext} {f : PriceFeed} :
    PriceFeed.start pair params ctx = .ok f → Reachable L f
  | call {f : PriceFeed} {call : Call L} : Reachable L f → call.Grounded → Reachable L (f.after call)

/-! ### Effects -/

inductive Effect (f : PriceFeed) : Call L → PriceFeed → Prop
  /-- The call is refused, or has nothing to do. -/
  | idle {call : Call L} : Effect f call f
  | listed {owner : Address} {registry : Registry} {e : OracleEntry} {evicted : Option Address}
      (he : registry.get? owner = some e) (hnew : ¬ f.isSubscribed owner)
      (hevicted : f.evictionFor registry e.stake = .ok evicted) :
      Effect f (.subscribe owner registry) ((evicted.elim f f.drop).enlist owner e.address).2
  | dropped {owner : Address} (h : f.isSubscribed owner) : Effect f (.unsubscribe owner) (f.drop owner)
  | expelled (owner : Address) : Effect f (.expel owner) (f.expel owner).2
  | yielded {owner : Address} {registry : Registry} {e : OracleEntry} (he : e ∈ registry.entries)
      (hlisted : f.isSubscribed e.owner) (hwaits : ¬ f.round.seatsOwner e.owner)
      (hseated : f.round.seatsOwner owner) :
      Effect f (.yieldSeat owner registry)
        ({ f with round := f.round.unseat owner }.seat e.owner e.address)
  | published {caller : Address} {m : PriceMessage} {signatures : List Signature} {ctx : BlockContext}
      {outcome : PublishOutcome} {f' : PriceFeed}
      (h : f.publish caller m signatures ctx = .ok (outcome, f')) :
      Effect f (.publish caller m signatures ctx) f'
  | emergency {caller : Address} {price : Amount} {ctx : BlockContext} {f' : PriceFeed}
      (h : f.emergencyPublish caller price ctx = .ok f') :
      Effect f (.emergencyPublish caller price ctx) f'
  | switched {registry : Registry} {ledger : L} {ctx : BlockContext} (lockUntil : Nat) :
      Effect f (.switchRound registry ledger ctx) (f.nextRound (f.selection registry) lockUntil)
  | capped {value : Nat} {registry : Registry} {dropped : List Address} {f' : PriceFeed}
      (h : f.setMaxSubscribed value registry = .ok (dropped, f')) :
      Effect f (.setMaxSubscribed value registry) f'
  | params {call : Call L} {change : RoundParams → RoundParams} {f' : PriceFeed}
      (h : f.withParams change = .ok f')
      (hcap : (change f.params).maxSubscribed = f.params.maxSubscribed) : Effect f call f'
  | readers {call : Call L} (readers : KeySet Address) : Effect f call { f with readers }
  | publishers {call : Call L} (emergencyPublishers : KeySet Address) :
      Effect f call { f with emergencyPublishers }

theorem seatsOwner_of_yieldSeat? {f : PriceFeed} {owner : Address} {registry : Registry}
    {x : Replacement × PriceFeed} (h : f.yieldSeat? owner registry = some x) : f.round.seatsOwner owner := by
  unfold yieldSeat? at h
  split at h
  · assumption
  · cases h

/-- A seat is passed on to a registered subscriber without one. -/
theorem yieldSeat?_eq_some {f f' : PriceFeed} {owner : Address} {registry : Registry} {swap : Replacement}
    (h : f.yieldSeat? owner registry = some (swap, f')) :
    ∃ e ∈ registry.entries, f.isSubscribed e.owner ∧ ¬ f.round.seatsOwner e.owner ∧
      swap = ⟨owner, e.owner⟩ ∧
      f' = { f with round := f.round.unseat owner }.seat e.owner e.address := by
  unfold yieldSeat? at h
  split at h
  · split at h
    · rename_i e candidate _ hbest
      split at h
      · cases h
        unfold bestWaiting? ranked at hbest
        obtain ⟨hmem, hlisted⟩ := List.mem_filter.1 (List.mem_of_find?_eq_some hbest)
        exact ⟨candidate, hmem, hlisted, by simpa using List.find?_some hbest, rfl, rfl⟩
      · cases h
    · cases h
  · cases h

/-- A subscription that goes through: who makes room, and the feed that lists the newcomer. -/
theorem subscribe_eq_ok {f f' : PriceFeed} {owner : Address} {registry : Registry}
    {outcome : SubscribeOutcome} (h : f.subscribe owner registry = .ok (outcome, f')) :
    ∃ e, registry.get? owner = some e ∧ ¬ f.isSubscribed owner ∧
      f.evictionFor registry e.stake = .ok outcome.evicted ∧
      (outcome.evicted.elim f f.drop).enlist owner e.address = (outcome.joinedRound, f') := by
  unfold subscribe at h
  split at h
  · cases h
  rename_i e he
  split at h
  · cases h
  rename_i hnew
  split at h
  · cases h
  rename_i evicted hevicted
  cases h
  exact ⟨e, he, hnew, hevicted, rfl⟩

/-- A switch starts the next round with the selection of the registry, or leaves the feed alone. -/
theorem switchRound_cases (f : PriceFeed) (registry : Registry) (ledger : L) (ctx : BlockContext) :
    (∃ e, (f.switchRound registry ledger ctx).result = .error e ∧
      (f.switchRound registry ledger ctx).state.1 = f) ∨
    ∃ outcome, (f.switchRound registry ledger ctx).result = .ok outcome ∧
      (f.switchRound registry ledger ctx).state.1 = f.nextRound (f.selection registry) outcome.lockUntil ∧
      outcome.round = f.round.number + 1 ∧ outcome.selected = f.selection registry := by
  unfold switchRound
  split
  · exact .inl ⟨_, rfl, rfl⟩
  · split
    · exact .inl ⟨_, rfl, rfl⟩
    · split
      · exact .inl ⟨_, rfl, rfl⟩
      · split
        · exact .inl ⟨_, rfl, rfl⟩
        · exact .inr ⟨_, rfl, rfl, rfl, rfl⟩

theorem withParams_eq_ok {f f' : PriceFeed} {change : RoundParams → RoundParams}
    (h : f.withParams change = .ok f') :
    (change f.params).validate = .ok () ∧ f' = { f with params := change f.params } := by
  unfold withParams at h
  split at h
  · cases h
  · rename_i hvalid
    cases h
    exact ⟨hvalid, rfl⟩

/-- The cap that is lowered drops the subscribers at the end of the ranking. -/
theorem setMaxSubscribed_eq_ok {f f' : PriceFeed} {value : Nat} {registry : Registry}
    {dropped : List Address} (h : f.setMaxSubscribed value registry = .ok (dropped, f')) :
    ({ f.params with maxSubscribed := value }).validate = .ok () ∧
      dropped = ((f.ranked registry).map (·.owner)).reverse.take (f.subscribed.size - value) ∧
      f' = dropped.foldl drop { f with params := { f.params with maxSubscribed := value } } := by
  unfold setMaxSubscribed at h
  split at h
  · cases h
  · rename_i f₁ hparams
    obtain ⟨hvalid, rfl⟩ := withParams_eq_ok hparams
    cases h
    exact ⟨hvalid, rfl, rfl⟩

omit [CollateralLedger L] in
theorem effect_orElse {ε : Type} {f : PriceFeed} {call : Call L} {x : Except ε PriceFeed}
    (hx : ∀ f', x = .ok f' → f.Effect call f') : f.Effect call (f.orElse x) := by
  cases x with
  | error e => exact .idle
  | ok f' => exact hx f' rfl

theorem effect_after (f : PriceFeed) (call : Call L) : f.Effect call (f.after call) := by
  have lists {x : Except RoundError (KeySet Address)} {g : KeySet Address → PriceFeed}
      (hg : ∀ accounts, f.Effect call (g accounts)) : f.Effect call (f.orElse (x.map g)) := by
    cases x with
    | error e => exact .idle
    | ok accounts => exact hg accounts
  cases call with
  | subscribe owner registry =>
    simp only [after]
    cases hs : f.subscribe owner registry with
    | error e => exact .idle
    | ok x =>
      obtain ⟨e, he, hnew, hevicted, hx⟩ := subscribe_eq_ok hs
      have heffect : f.Effect (.subscribe owner registry : Call L) _ := .listed he hnew hevicted
      rwa [hx] at heffect
  | unsubscribe owner =>
    refine effect_orElse fun f' h => ?_
    unfold unsubscribe at h
    split at h
    · rename_i hlisted
      cases h
      exact .dropped hlisted
    · cases h
  | expel owner => exact .expelled owner
  | yieldSeat owner registry =>
    simp only [after]
    cases hy : f.yieldSeat? owner registry with
    | none => exact .idle
    | some x =>
      obtain ⟨e, he, hlisted, hwaits, -, hx⟩ := yieldSeat?_eq_some hy
      rw [Option.elim_some, hx]
      exact .yielded he hlisted hwaits (seatsOwner_of_yieldSeat? hy)
  | publish caller m signatures ctx =>
    simp only [after]
    cases hp : f.publish caller m signatures ctx with
    | error e => exact .idle
    | ok x => exact .published hp
  | emergencyPublish caller price ctx => exact effect_orElse fun _ h => .emergency h
  | switchRound registry ledger ctx =>
    simp only [after]
    rcases switchRound_cases f registry ledger ctx with ⟨e, -, hf⟩ | ⟨outcome, -, hf, -⟩
    · rw [hf]
      exact .idle
    · rw [hf]
      exact .switched outcome.lockUntil
  | setMaxSubscribed value registry =>
    simp only [after]
    cases hs : f.setMaxSubscribed value registry with
    | error e => exact .idle
    | ok x => exact .capped hs
  | setMinOracles value => exact effect_orElse fun _ h => .params h rfl
  | setMaxOracles value => exact effect_orElse fun _ h => .params h rfl
  | setLockPeriod secs => exact effect_orElse fun _ h => .params h rfl
  | setValidPeriod blocks => exact effect_orElse fun _ h => .params h rfl
  | setEmergencyPeriod blocks => exact effect_orElse fun _ h => .params h rfl
  | addReader account => exact lists .readers
  | removeReader account => exact lists .readers
  | addEmergencyPublisher account => exact lists .publishers
  | removeEmergencyPublisher account => exact lists .publishers

/-! ### Seats -/

@[simp]
theorem owners_drop (f : PriceFeed) (owner : Address) : (f.drop owner).round.owners = f.round.owners :=
  Round.owners_setExcluded f.round owner true

/-- What no drop changes is the same after drops in a row. -/
theorem view_foldl_drop {α : Type} (view : PriceFeed → α) (h : ∀ f owner, view (f.drop owner) = view f)
    (dropped : List Address) (f : PriceFeed) : view (dropped.foldl drop f) = view f :=
  List.foldlRecOn (motive := fun g => view g = view f) dropped drop rfl fun g hg owner _ => (h g owner).trans hg

theorem owners_foldl_drop (dropped : List Address) (f : PriceFeed) :
    (dropped.foldl drop f).round.owners = f.round.owners :=
  view_foldl_drop (·.round.owners) owners_drop dropped f

theorem distinct_enlist {f : PriceFeed} (h : f.round.Distinct) (owner address : Address) :
    (f.enlist owner address).2.round.Distinct := by
  unfold enlist
  simp only
  split
  · unfold Round.Distinct
    rw [Round.owners_setExcluded]
    exact h
  · rename_i hfree
    split
    · exact h.seat address hfree
    · exact h

theorem nodup_selection (f : PriceFeed) {registry : Registry} (hr : registry.Unambiguous) :
    ((f.selection registry).map (·.1)).Nodup := by
  have hsub : ((f.ranked registry).take f.params.maxOracles).Sublist registry.entries :=
    (List.take_sublist _ _).trans List.filter_sublist
  have := hr.owners.sublist (hsub.map _)
  simpa [selection, Function.comp_def] using this

theorem distinct_nextRound (f : PriceFeed) {selected : List (Address × Address)} (lockUntil : Nat)
    (hs : (selected.map (·.1)).Nodup) : (f.nextRound selected lockUntil).round.Distinct := by
  simpa [Round.Distinct, Round.owners, nextRound, Seat.fresh, Function.comp_def] using hs

omit [CollateralLedger L] in
theorem distinct_of_effect {f f' : PriceFeed} (h : f.round.Distinct) {call : Call L}
    (hc : call.WellFormed) (hf : f.Effect call f') : f'.round.Distinct := by
  cases hf with
  | idle | readers accounts | publishers accounts => exact h
  | @listed owner registry e evicted he hnew hevicted =>
    refine distinct_enlist ?_ owner e.address
    cases evicted with
    | none => exact h
    | some tail =>
      rw [Round.Distinct, Option.elim_some, owners_drop]
      exact h
  | dropped hlisted =>
    rw [Round.Distinct, owners_drop]
    exact h
  | expelled owner => exact h.unseat owner
  | yielded he hlisted hwaits hseated =>
    exact (h.unseat _).seat _ fun hseated => hwaits (Round.seatsOwner_of_unseat hseated)
  | published hp =>
    unfold publish at hp
    split at hp
    · cases hp
    split at hp
    · cases hp
    cases hp
    show (f.round.award _).owners.Nodup
    rw [Round.owners_award]
    exact h
  | emergency hp =>
    unfold emergencyPublish at hp
    repeat' split at hp
    all_goals cases hp
    exact h
  | switched lockUntil => exact distinct_nextRound f _ (nodup_selection f hc)
  | capped hs =>
    obtain ⟨-, -, rfl⟩ := setMaxSubscribed_eq_ok hs
    rw [Round.Distinct, owners_foldl_drop]
    exact h
  | params hp hcap =>
    obtain ⟨-, rfl⟩ := withParams_eq_ok hp
    exact h

theorem Reachable.distinct {f : PriceFeed} (h : Reachable L f) : f.round.Distinct := by
  induction h with
  | start hs =>
    unfold PriceFeed.start at hs
    split at hs
    · cases hs
    · cases hs
      exact Round.distinct_initial
  | call _ hc ih => exact distinct_of_effect ih hc.wellFormed (effect_after _ _)

end PriceOracle.PriceFeed
