import PriceOracle.Network.Change
import PriceOracle.Proofs.Feed.Subscribers
/-! The terms of a pair: the parameters of its rounds, who may read its price and who may publish in an
emergency. Each change of one of them is made by a setter of the feed, which does nothing else, and no other
call on a feed touches them. -/
namespace PriceOracle

/-- What is set for a pair, as opposed to what happens on it. -/
structure PairTerms where
  params : RoundParams
  readers : KeySet Address
  emergencyPublishers : KeySet Address
deriving DecidableEq, Inhabited

namespace PairTerms

def initial (params : RoundParams) : PairTerms :=
  ⟨params, .ofList params.readers, .ofList params.emergencyPublishers⟩

/-- The terms after a change, which names one of them. -/
def amend (t : PairTerms) : PairChange → PairTerms
  | .setMinOracles value => { t with params.minOracles := value }
  | .setMaxOracles value => { t with params.maxOracles := value }
  | .setMaxSubscribed value => { t with params.maxSubscribed := value }
  | .setLockPeriod secs => { t with params.lockPeriod := secs }
  | .setValidPeriod blocks => { t with params.validPeriod := blocks }
  | .setEmergencyPeriod blocks => { t with params.emergencyPeriod := blocks }
  | .addReader account => { t with readers := t.readers.add account }
  | .removeReader account => { t with readers := t.readers.erase account }
  | .addEmergencyPublisher account => { t with emergencyPublishers := t.emergencyPublishers.add account }
  | .removeEmergencyPublisher account =>
    { t with emergencyPublishers := t.emergencyPublishers.erase account }

end PairTerms

namespace PriceFeed

variable {f f' : PriceFeed} {owner caller account : Address} {registry : Registry} {ctx : BlockContext}

def terms (f : PriceFeed) : PairTerms := ⟨f.params, f.readers, f.emergencyPublishers⟩

/-- The feed on other terms, with nobody struck off its list for it. -/
def withTerms (f : PriceFeed) (t : PairTerms) : PriceFeed :=
  { f with params := t.params, readers := t.readers, emergencyPublishers := t.emergencyPublishers }

@[simp]
theorem withTerms_terms (f : PriceFeed) : f.withTerms f.terms = f := rfl

@[simp]
theorem terms_withTerms (f : PriceFeed) (t : PairTerms) : (f.withTerms t).terms = t := rfl

/-! ### Setters -/

theorem grant_eq_ok {accounts accounts' : KeySet Address} (h : grant accounts account = .ok accounts') :
    accounts' = accounts.add account := by
  unfold grant at h
  split at h
  · cases h
  split at h
  · cases h
  · exact (Except.ok.inj h).symm

theorem revoke_eq_ok {accounts accounts' : KeySet Address} (h : revoke accounts account = .ok accounts') :
    accounts' = accounts.erase account := by
  unfold revoke at h
  split at h
  · exact (Except.ok.inj h).symm
  · cases h

theorem addReader_eq_ok (h : f.addReader account = .ok f') :
    f' = f.withTerms (f.terms.amend (.addReader account)) := by
  obtain ⟨readers, hr, rfl⟩ := exists_of_map_eq_ok h
  rw [grant_eq_ok hr]
  rfl

theorem removeReader_eq_ok (h : f.removeReader account = .ok f') :
    f' = f.withTerms (f.terms.amend (.removeReader account)) := by
  obtain ⟨readers, hr, rfl⟩ := exists_of_map_eq_ok h
  rw [revoke_eq_ok hr]
  rfl

theorem addEmergencyPublisher_eq_ok (h : f.addEmergencyPublisher account = .ok f') :
    f' = f.withTerms (f.terms.amend (.addEmergencyPublisher account)) := by
  obtain ⟨publishers, hp, rfl⟩ := exists_of_map_eq_ok h
  rw [grant_eq_ok hp]
  rfl

theorem removeEmergencyPublisher_eq_ok (h : f.removeEmergencyPublisher account = .ok f') :
    f' = f.withTerms (f.terms.amend (.removeEmergencyPublisher account)) := by
  obtain ⟨publishers, hp, rfl⟩ := exists_of_map_eq_ok h
  rw [revoke_eq_ok hp]
  rfl

theorem start_eq_ok {pair : CoinPair} {params : RoundParams} (h : start pair params ctx = .ok f) :
    f.pair = pair ∧ f.terms = .initial params := by
  unfold start at h
  split at h
  · cases h
  · cases h
    exact ⟨rfl, rfl⟩

/-- Striking owners off the list and setting terms do not get in each other's way. -/
theorem foldl_drop_withTerms (t : PairTerms) (dropped : List Address) : ∀ f : PriceFeed,
    dropped.foldl drop (f.withTerms t) = (dropped.foldl drop f).withTerms t := by
  induction dropped with
  | nil => exact fun _ => rfl
  | cons owner rest ih => exact fun f => ih (f.drop owner)

/-- The owners on the list that a cap leaves no room for: those with the lowest stakes. -/
def surplus (f : PriceFeed) (registry : Registry) (cap : Nat) : List Address :=
  ((f.ranked registry).map (·.owner)).reverse.take (f.subscribed.size - cap)

theorem setMaxSubscribed_eq_withTerms {value : Nat} {dropped : List Address}
    (h : f.setMaxSubscribed value registry = .ok (dropped, f')) :
    dropped = f.surplus registry value ∧
      f' = (dropped.foldl drop f).withTerms (f.terms.amend (.setMaxSubscribed value)) := by
  obtain ⟨-, hdropped, rfl⟩ := setMaxSubscribed_eq_ok h
  exact ⟨hdropped, foldl_drop_withTerms (f.terms.amend (.setMaxSubscribed value)) dropped f⟩

/-! ### Other calls -/

structure OnSameTerms (f f' : PriceFeed) : Prop where
  pair : f'.pair = f.pair
  terms : f'.terms = f.terms

theorem OnSameTerms.refl (f : PriceFeed) : f.OnSameTerms f := ⟨rfl, rfl⟩

theorem OnSameTerms.trans {f'' : PriceFeed} (h : f.OnSameTerms f') (h' : f'.OnSameTerms f'') :
    f.OnSameTerms f'' :=
  ⟨h'.pair.trans h.pair, h'.terms.trans h.terms⟩

theorem onSameTerms_drop (f : PriceFeed) (owner : Address) : f.OnSameTerms (f.drop owner) := ⟨rfl, rfl⟩

theorem onSameTerms_expel (f : PriceFeed) (owner : Address) : f.OnSameTerms (f.expel owner).2 :=
  ⟨rfl, rfl⟩

theorem onSameTerms_foldl_drop (dropped : List Address) (f : PriceFeed) :
    f.OnSameTerms (dropped.foldl drop f) :=
  ⟨view_foldl_drop (·.pair) (fun _ _ => rfl) dropped f, view_foldl_drop (·.terms) (fun _ _ => rfl) dropped f⟩

theorem onSameTerms_enlist (f : PriceFeed) (owner address : Address) :
    f.OnSameTerms (f.enlist owner address).2 := by
  unfold enlist
  dsimp only
  split
  · exact ⟨rfl, rfl⟩
  · split <;> exact ⟨rfl, rfl⟩

theorem onSameTerms_subscribe {outcome : SubscribeOutcome}
    (h : f.subscribe owner registry = .ok (outcome, f')) : f.OnSameTerms f' := by
  obtain ⟨e, -, -, -, hx⟩ := subscribe_eq_ok h
  have henlist := (outcome.evicted.elim f f.drop).onSameTerms_enlist owner e.address
  rw [hx] at henlist
  cases he : outcome.evicted with
  | none =>
    rw [he] at henlist
    exact henlist
  | some tail =>
    rw [he] at henlist
    exact (f.onSameTerms_drop tail).trans henlist

theorem onSameTerms_yieldSeat (f : PriceFeed) (owner : Address) (registry : Registry) :
    f.OnSameTerms ((f.yieldSeat? owner registry).elim f (·.2)) := by
  cases hy : f.yieldSeat? owner registry with
  | none => exact .refl f
  | some x =>
    obtain ⟨e, -, -, -, -, hx⟩ := yieldSeat?_eq_some hy
    rw [Option.elim_some, hx]
    exact ⟨rfl, rfl⟩

theorem onSameTerms_publish {m : PriceMessage} {signatures : List Signature} {outcome : PublishOutcome}
    (h : f.publish caller m signatures ctx = .ok (outcome, f')) : f.OnSameTerms f' := by
  obtain ⟨-, seat, -, -, -, rfl⟩ := publish_eq_ok.1 h
  exact ⟨rfl, rfl⟩

theorem onSameTerms_emergencyPublish {price : Amount}
    (h : f.emergencyPublish caller price ctx = .ok f') : f.OnSameTerms f' := by
  obtain ⟨-, rfl, -⟩ := emergencyPublish_eq_ok h
  exact ⟨rfl, rfl⟩

theorem onSameTerms_switchRound {L : Type} [CollateralLedger L] {ledger ledger' : L}
    {result : Except RoundError SwitchOutcome}
    (h : f.switchRound registry ledger ctx = ⟨result, (f', ledger')⟩) : f.OnSameTerms f' := by
  have hcases := f.switchRound_cases registry ledger ctx
  rw [h] at hcases
  rcases hcases with ⟨e, -, rfl⟩ | ⟨outcome, -, rfl, -⟩
  · exact .refl f'
  · exact ⟨rfl, rfl⟩

end PriceFeed

end PriceOracle
