import PriceOracle.Proofs.Network.Moves
import PriceOracle.Proofs.Registry.Entries
/-! Subscriptions stand in two stores: the list of the feed and the entry of the oracle. They agree, and
the list keeps within its cap because of it: whoever must make room is looked for in the registry, which
therefore has to know every subscriber. Each move keeps the two in step. -/
namespace PriceOracle

/-- The registry and the feeds tell the same subscriptions, and no feed has too many. -/
structure Mirrored (r : Registry) (feeds : Feeds) : Prop where
  unambiguous : r.Unambiguous
  pair_eq : ∀ pair f, feeds.get? pair = some f → f.pair = pair
  capped : ∀ pair f, feeds.get? pair = some f → f.Capped
  lists_iff : ∀ owner pair, r.Lists owner pair ↔ ∃ f, feeds.get? pair = some f ∧ f.isSubscribed owner

namespace Mirrored

variable {r r' : Registry} {feeds : Feeds} {pair : CoinPair} {f f' : PriceFeed} {owner : Address}

theorem empty : Mirrored .empty .empty where
  unambiguous := Registry.unambiguous_empty
  pair_eq _ _ hf := by cases hf
  capped _ _ hf := by cases hf
  lists_iff owner pair := iff_of_false (fun ⟨_, he, _⟩ => by cases he) fun ⟨_, hf, _⟩ => by cases hf

theorem lists_iff_of_get? (h : Mirrored r feeds) (hf : feeds.get? pair = some f) :
    r.Lists owner pair ↔ f.isSubscribed owner := by
  rw [h.lists_iff, hf]
  simp

theorem isRegistered (h : Mirrored r feeds) (hf : feeds.get? pair = some f) (o : Address)
    (ho : f.isSubscribed o) : r.isRegistered o :=
  ((h.lists_iff_of_get? hf).2 ho).isRegistered

/-! ### Changes of the feeds -/

theorem withFeed (h : Mirrored r feeds) (hr : r'.Unambiguous) (hpair : f'.pair = pair)
    (hcapped : f'.Capped) (hown : ∀ o, r'.Lists o pair ↔ f'.isSubscribed o)
    (hother : ∀ o p, p ≠ pair → (r'.Lists o p ↔ r.Lists o p)) :
    Mirrored r' (feeds.insert f'.pair f') := by
  subst hpair
  refine ⟨hr, fun p g hg => ?_, fun p g hg => ?_, fun o p => ?_⟩
  · rw [Table.get?_insert] at hg
    split at hg
    · rename_i heq
      cases hg
      exact heq.symm
    · exact h.pair_eq p g hg
  · rw [Table.get?_insert] at hg
    split at hg
    · cases hg
      exact hcapped
    · exact h.capped p g hg
  · rw [Table.get?_insert]
    by_cases heq : p = f'.pair
    · rw [if_pos heq, heq, hown]
      simp
    · rw [if_neg heq, hother o p heq, h.lists_iff]

theorem map (h : Mirrored r feeds) (hr : r'.Unambiguous) {g : CoinPair → PriceFeed → PriceFeed}
    (hpair : ∀ p f, feeds.get? p = some f → (g p f).pair = f.pair)
    (hcapped : ∀ p f, feeds.get? p = some f → (g p f).Capped)
    (hlists : ∀ o p, r'.Lists o p ↔ ∃ f, feeds.get? p = some f ∧ (g p f).isSubscribed o) :
    Mirrored r' (feeds.map g) := by
  refine ⟨hr, fun p f' hf' => ?_, fun p f' hf' => ?_, fun o p => ?_⟩
  · rw [Table.get?_map, Option.map_eq_some_iff] at hf'
    obtain ⟨f, hf, rfl⟩ := hf'
    rw [hpair p f hf, h.pair_eq p f hf]
  · rw [Table.get?_map, Option.map_eq_some_iff] at hf'
    obtain ⟨f, hf, rfl⟩ := hf'
    exact hcapped p f hf
  · rw [hlists, Table.get?_map]
    constructor
    · rintro ⟨f, hf, ho⟩
      exact ⟨g p f, by rw [hf]; rfl, ho⟩
    · rintro ⟨f', hf', ho⟩
      obtain ⟨f, hf, rfl⟩ := Option.map_eq_some_iff.1 hf'
      exact ⟨f, hf, ho⟩

theorem sameList (h : Mirrored r feeds) (hf : feeds.get? pair = some f) (hs : f.SameList f') :
    Mirrored r (feeds.insert f'.pair f') := by
  refine h.withFeed h.unambiguous (hs.pair.trans (h.pair_eq pair f hf)) (hs.capped (h.capped pair f hf))
    (fun o => ?_) fun _ _ _ => .rfl
  rw [h.lists_iff_of_get? hf, PriceFeed.isSubscribed, PriceFeed.isSubscribed, hs.subscribed]

theorem reregister (h : Mirrored r feeds) (hr : r'.Unambiguous)
    (hlists : ∀ o p, r'.Lists o p ↔ r.Lists o p) : Mirrored r' feeds :=
  ⟨hr, h.pair_eq, h.capped, fun o p => (hlists o p).trans (h.lists_iff o p)⟩

/-! ### Subscriptions -/

theorem subscribed (h : Mirrored r feeds) (hf : feeds.get? pair = some f) {p : SubscriptionPolicy}
    {outcome : SubscribeOutcome} (hs : p.subscribe owner f r = .ok (outcome, f', r')) :
    Mirrored r' (feeds.insert f'.pair f') := by
  obtain ⟨hfeed, rfl⟩ := Network.subscribe_eq_ok hs
  obtain ⟨e, he, hnew, hevicted, hx⟩ := PriceFeed.subscribe_eq_ok hfeed
  generalize outcome.evicted = evicted at hevicted hx ⊢
  obtain rfl : ((evicted.elim f f.drop).enlist owner e.address).2 = f' := by rw [hx]
  have hpair := (PriceFeed.sameTerms_listed f evicted owner e.address).1.trans (h.pair_eq pair f hf)
  have hcapped := (h.capped pair f hf).listed h.unambiguous (h.isRegistered hf) hnew hevicted e.address
  -- whoever makes room goes from both stores
  have hroom : ∀ o q, (evicted.elim r (r.delist · pair)).Lists o q ↔
      ¬ (evicted = some o ∧ q = pair) ∧ r.Lists o q := by
    intro o q
    cases evicted with
    | none => simp
    | some tail =>
      rw [Option.elim_some, Registry.lists_delist, Option.some.injEq, @eq_comm _ tail o]
  have hregistered : (evicted.elim r (r.delist · pair)).isRegistered owner := by
    cases evicted with
    | none => exact Option.isSome_iff_exists.2 ⟨e, he⟩
    | some tail =>
      rw [Option.elim_some, Registry.isRegistered, Registry.get?_delist, he]
      rfl
  have hlisted : ∀ o, ((evicted.elim f f.drop).enlist owner e.address).2.isSubscribed o ↔
      o = owner ∨ evicted ≠ some o ∧ f.isSubscribed o := by
    intro o
    rw [PriceFeed.isSubscribed_enlist]
    cases evicted with
    | none => simp
    | some tail =>
      rw [Option.elim_some, PriceFeed.isSubscribed_drop, ne_comm, Ne, Ne, Option.some.injEq]
  refine h.withFeed ?_ hpair hcapped (fun o => ?_) fun o q hq => ?_
  · exact h.unambiguous.of_perm (.of_eq (Network.identities_subscribe r owner evicted _))
  · rw [hpair, Registry.lists_enlist hregistered, hroom, hlisted, h.lists_iff_of_get? hf]
    simp
  · rw [hpair, Registry.lists_enlist hregistered, hroom]
    simp [hq]

theorem unsubscribed (h : Mirrored r feeds) (hf : feeds.get? pair = some f) (owner : Address) :
    Mirrored (r.delist owner f.pair) (feeds.insert f.pair (f.drop owner)) := by
  obtain rfl := h.pair_eq pair f hf
  have hpair : (f.drop owner).pair = f.pair := rfl
  refine h.withFeed (h.unambiguous.of_perm (.of_eq (Registry.identities_delist r owner _))) hpair
    ((h.capped f.pair f hf).erase ⟨rfl, rfl⟩ rfl) (fun o => ?_) fun o q hq => ?_
  · rw [Registry.lists_delist, h.lists_iff_of_get? hf, PriceFeed.isSubscribed_drop]
    simp
  · rw [Registry.lists_delist]
    simp [hq]

/-- A lower cap strikes the same owners off both stores. -/
theorem lowered (h : Mirrored r feeds) (hf : feeds.get? pair = some f) {value : Nat}
    {dropped : List Address} (hs : f.setMaxSubscribed value r = .ok (dropped, f')) :
    Mirrored (dropped.foldl (fun r owner => r.delist owner pair) r) (feeds.insert f'.pair f') := by
  have hcapped := PriceFeed.Capped.capped h.unambiguous (h.isRegistered hf) hs
  obtain ⟨-, -, rfl⟩ := PriceFeed.setMaxSubscribed_eq_ok hs
  have hterms := PriceFeed.sameTerms_foldl_drop dropped
    { f with params := { f.params with maxSubscribed := value } }
  have hlists : ∀ o q, (dropped.foldl (fun r owner => r.delist owner pair) r).Lists o q ↔
      (∀ x ∈ dropped, ¬ (o = x ∧ q = pair)) ∧ r.Lists o q := fun o q =>
    Registry.lists_foldl_delist id (fun _ => pair) dropped r
  refine h.withFeed (h.unambiguous.of_perm
    (.of_eq (Network.identities_foldl_delist id (fun _ => pair) dropped r)))
    (hterms.1.trans (h.pair_eq pair f hf)) hcapped (fun o => ?_) fun o q hq => ?_
  · rw [hlists, PriceFeed.isSubscribed_foldl_drop, h.lists_iff_of_get? hf]
    simp only [and_true, PriceFeed.isSubscribed]
    refine and_congr_left fun _ => ⟨fun hall ho => hall o ho rfl, ?_⟩
    rintro ho x hx rfl
    exact ho hx
  · rw [hlists]
    simp [hq]

/-! ### Departures -/

/-- An oracle without enough stake goes from both stores, for all pairs. -/
theorem expelled (h : Mirrored r feeds) (owner : Address) :
    Mirrored (SubscriptionPolicy.expelEverywhere owner r feeds).2.1
      (SubscriptionPolicy.expelEverywhere owner r feeds).2.2 := by
  unfold SubscriptionPolicy.expelEverywhere
  dsimp only
  have hperm := Network.identities_foldl_delist (fun _ : CoinPair × Bool => owner) Prod.fst
    (feeds.toList.filterMap fun x => if x.2.isSubscribed owner || x.2.round.seatsOwner owner
      then some (x.1, x.2.round.seatsOwner owner) else none) r
  refine h.map (h.unambiguous.of_perm (.of_eq hperm)) (fun _ _ _ => rfl) (fun p f hf => ?_)
    fun o p => ?_
  · exact (h.capped p f hf).erase ⟨rfl, rfl⟩ rfl
  · rw [Registry.lists_foldl_delist (fun _ => owner) Prod.fst, h.lists_iff]
    simp only [PriceFeed.isSubscribed_expel]
    constructor
    · rintro ⟨hnone, f, hf, ho⟩
      refine ⟨f, hf, ?_, ho⟩
      rintro rfl
      -- the owner is subscribed there, so the pair is among those it is expelled from
      refine hnone (p, f.round.seatsOwner o) (List.mem_filterMap.2 ⟨(p, f), Table.mem_toList.2 hf, ?_⟩)
        ⟨rfl, rfl⟩
      simp [ho]
    · rintro ⟨f, hf, hne, ho⟩
      exact ⟨fun _ _ heq => hne heq.1, f, hf, ho⟩

theorem yielded (h : Mirrored r feeds) (owner : Address) :
    Mirrored r (SubscriptionPolicy.yieldEverywhere owner r feeds).2.2 := by
  have hsame : ∀ f : PriceFeed, f.SameList ((f.yieldSeat? owner r).elim f (·.2)) := by
    intro f
    have hkeeps : (.yieldSeat owner r : PriceFeed.Call Ledger).KeepsList := trivial
    exact PriceFeed.sameList_of_effect hkeeps (f.effect_after _)
  refine h.map h.unambiguous (fun p f _ => (hsame f).pair) (fun p f hf => ?_) fun o p => ?_
  · exact (hsame f).capped (h.capped p f hf)
  · simp only [PriceFeed.isSubscribed, (hsame _).subscribed]
    exact h.lists_iff o p

theorem removed (h : Mirrored r feeds) {entry : OracleEntry}
    (hr : r.remove owner = .ok (entry, r')) :
    Mirrored r' (feeds.map fun _ f => if f.isSubscribed owner then f.drop owner else f) := by
  have hdropped : ∀ (f : PriceFeed) o, (if f.isSubscribed owner then f.drop owner else f).isSubscribed o ↔
      o ≠ owner ∧ f.isSubscribed o := by
    intro f o
    split
    · exact PriceFeed.isSubscribed_drop
    · rename_i hnot
      exact ⟨fun ho => ⟨fun heq => hnot (heq ▸ ho), ho⟩, fun ho => ho.2⟩
  refine h.map (h.unambiguous.remove hr) (fun p f _ => ?_) (fun p f hf => ?_) fun o p => ?_
  · split <;> rfl
  · split
    · exact (h.capped p f hf).erase ⟨rfl, rfl⟩ rfl
    · exact h.capped p f hf
  · rw [Registry.lists_remove hr, h.lists_iff]
    simp only [hdropped]
    exact ⟨fun ⟨hne, f, hf, ho⟩ => ⟨f, hf, hne, ho⟩, fun ⟨f, hf, hne, ho⟩ => ⟨hne, f, hf, ho⟩⟩

theorem tracked (h : Mirrored r feeds) {params : RoundParams} {ctx : BlockContext}
    (hnew : feeds.get? pair = none) (hs : PriceFeed.start pair params ctx = .ok f) :
    Mirrored r (feeds.insert f.pair f) := by
  obtain ⟨hpair, hlist, hcapped⟩ := PriceFeed.Capped.start hs
  refine h.withFeed h.unambiguous hpair hcapped (fun o => ?_) fun _ _ _ => .rfl
  rw [h.lists_iff, hnew, PriceFeed.isSubscribed, hlist]
  simp [Table.contains]

end Mirrored

/-! ### Runs -/

namespace Network

variable {n : Network}

/-- Bringing stakes up to date sets each oracle's stake to what its owner's own account is worth. -/
theorem get?_restaked (hu : n.registry.Unambiguous) (ctx : BlockContext) (owner : Address) :
    (n.restaked ctx).get? owner
      = (n.registry.get? owner).map ({ · with stake := n.staking.balance owner ctx }) := by
  have hfound : ∀ e ∈ n.registry.entries, n.registry.get? e.owner = some e := fun e he =>
    (Registry.get?_eq_some hu).2 ⟨he, rfl⟩
  have hfold := Registry.get?_foldl_restake owner (fun o => n.staking.balance o ctx)
    hu.owners hfound
  refine hfold.trans ?_
  cases he : n.registry.get? owner with
  | none => rfl
  | some e =>
    have hmem : owner ∈ n.registry.entries.map (·.owner) :=
      List.mem_map.2 ⟨e, Registry.mem_of_get? he, Registry.owner_of_get? he⟩
    rw [Option.map_some, if_pos hmem]
    rfl

theorem mirrored_of_edit {r : Registry} {feeds : Feeds} (h : Mirrored n.registry n.feeds)
    (hedit : n.Edit r feeds) : Mirrored r feeds := by
  cases hedit with
  | idle => exact h
  | stored hf => exact h.sameList hf ⟨rfl, rfl, id⟩
  | registered hr => exact h.reregister (h.unambiguous.register hr) fun _ _ => Registry.lists_register hr
  | renamed hr => exact h.reregister (h.unambiguous.setName hr) fun _ _ => Registry.lists_setName hr
  | removed hr hidle => exact h.removed hr
  | subscribed hf hs => exact h.subscribed hf hs
  | unsubscribed hf hlisted => exact h.unsubscribed hf _
  | capped hf hs => exact h.lowered hf hs
  | called hf heffect hcall => exact h.sameList hf (PriceFeed.sameList_of_effect hcall heffect)
  | tracked hnew hs => exact h.tracked hnew hs

theorem mirrored_of_move {r : Registry} {feeds : Feeds} (h : Mirrored n.registry n.feeds)
    (hmove : n.Move r feeds) : Mirrored r feeds := by
  cases hmove with
  | edited hedit => exact mirrored_of_edit h hedit
  | restaked ctx =>
    refine h.reregister (h.unambiguous.of_perm (perm_restaked h.unambiguous ctx)) fun o p => ?_
    refine Registry.lists_congr ?_
    rw [get?_restaked h.unambiguous, Option.map_map]
    rfl
  | expelled he hlow => exact h.expelled _
  | yielded he henough => exact h.yielded _

theorem mirrored_new {params : NetworkParams} {ledger : Ledger} (h : Network.new params ledger = .ok n) :
    Mirrored n.registry n.feeds := by
  obtain ⟨staking, -, rfl⟩ := new_eq_ok h
  exact .empty

/-- After any run of a new network: an owner is on the list of a tracked pair exactly if it is registered
and its entry lists the pair, entries list tracked pairs only, and no list is longer than its cap. -/
theorem mirrored_run {params : NetworkParams} {ledger : Ledger}
    (hn : Network.new params ledger = .ok n) (steps : List Step) :
    (∀ pair f, (n.run steps).network.feeds.get? pair = some f → ∀ owner, f.isSubscribed owner ↔
      ∃ e, (n.run steps).network.registry.get? owner = some e ∧ e.isSubscribed pair) ∧
    (∀ e ∈ (n.run steps).network.registry.entries, ∀ pair, e.isSubscribed pair →
      (n.run steps).network.feeds.contains pair) ∧
    ∀ pair f, (n.run steps).network.feeds.get? pair = some f →
      f.subscribed.size ≤ f.params.maxSubscribed := by
  have h : Mirrored (n.run steps).network.registry (n.run steps).network.feeds :=
    (reaches_run n steps).keep (fun _ _ _ => mirrored_of_move) (mirrored_new hn)
  refine ⟨fun pair f hf owner => (h.lists_iff_of_get? hf).symm, fun e he pair hp => ?_,
    fun pair f hf => (h.capped pair f hf).size_le⟩
  obtain ⟨f, hf, -⟩ := (h.lists_iff e.owner pair).1 ⟨e, (Registry.get?_eq_some h.unambiguous).2 ⟨he, rfl⟩, hp⟩
  exact Option.isSome_iff_exists.2 ⟨f, hf⟩

/-- A list for one: the first on it is evicted by a rival who stakes more, from both stores. -/
theorem mirrored_run_of_eviction :
    let governor := Address.ofNat 1
    let owner := Address.ofNat 2
    let rival := Address.ofNat 3
    let pair : CoinPair := default
    let ledger : Ledger := ⟨Table.empty.insert rival 5, .empty, 5⟩
    let staking : Staking :=
      ⟨stakingAccount, ⟨.empty, 0, 0, .none, 0, 10⟩, ledger, .new vaultAccount, 3600, .empty, .empty, .empty⟩
    let n : Network := ⟨.empty, staking, .empty, ⟨0, 1⟩, .governor governor, []⟩
    let params : RoundParams := { minOracles := 1, maxOracles := 1, maxSubscribed := 1 }
    let steps : List Step := [
      .command (.act governor (.executeChange (.registerPair pair params))) ⟨1, 10⟩,
      .command (.act owner (.registerOracle owner "host")) ⟨2, 20⟩,
      .command (.act owner (.subscribe pair)) ⟨3, 30⟩,
      .command (.act rival (.registerOracle rival "host")) ⟨4, 40⟩,
      .command (.act rival (.approve 5)) ⟨5, 50⟩,
      .command (.act rival (.deposit 5 none)) ⟨6, 60⟩,
      .command (.act rival (.subscribe pair)) ⟨7, 70⟩]
    Network.new { governor } ledger = .ok n ∧
      ((n.run steps).network.feeds.get? pair).map (·.subscribed.keys) = some [rival] ∧
      ∀ o, (∃ e, (n.run steps).network.registry.get? o = some e ∧ e.isSubscribed pair) ↔ o = rival := by
  intro governor owner rival pair ledger staking n params steps
  have hn : Network.new { governor } ledger = .ok n := new_of_governor rfl ledger
  have hkeys : ((n.run steps).network.feeds.get? pair).map (·.subscribed.keys) = some [rival] := by
    simp only [n, staking, stakingAccount_eq, vaultAccount_eq]
    decide +kernel
  obtain ⟨f, hf, hlist⟩ := Option.map_eq_some_iff.1 hkeys
  refine ⟨hn, hkeys, fun o => ?_⟩
  rw [← (mirrored_run hn steps).1 pair f hf o, PriceFeed.isSubscribed, ← Table.mem_keys, hlist,
    List.mem_singleton]

end Network

end PriceOracle
