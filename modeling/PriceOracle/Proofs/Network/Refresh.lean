import PriceOracle.Proofs.Network.Mirror
import PriceOracle.Proofs.Registry.Order
/-! Bringing stakes up to date. All stakes change first, then the drops are carried into the rounds one
after the other. What a drop leaves an oracle with is final: whoever passes its seat on has less stake than
whoever takes it, so the best of those that wait never gets better, and nobody without a subscription is
ever seated. -/
namespace PriceOracle

/-! ### Seats of a feed -/

namespace PriceFeed

variable {f : PriceFeed} {r : Registry} {owner other : Address} {minStake : Amount}

/-- No subscriber that waits for a seat has more than this at stake. -/
def Outbids (f : PriceFeed) (r : Registry) (stake : Amount) : Prop :=
  ∀ other s, r.stake? other = some s → f.isSubscribed other → ¬ f.round.seatsOwner other → s ≤ stake

/-- What its stake leaves an owner with. Below the stake that a subscription takes, it is out of the list and
the round; else it has a seat only if nobody with more stake waits for one. -/
structure Settled (f : PriceFeed) (r : Registry) (minStake : Amount) (owner : Address) : Prop where
  out : ∀ s, r.stake? owner = some s → s < minStake → ¬ f.isSubscribed owner ∧ ¬ f.round.seatsOwner owner
  seated : ∀ s, r.stake? owner = some s → ¬ s < minStake → f.round.seatsOwner owner → f.Outbids r s

theorem Settled.congr {r' : Registry} (h : f.Settled r minStake owner)
    (hstake : ∀ o, r'.stake? o = r.stake? o) : f.Settled r' minStake owner := by
  refine ⟨fun s hs => h.out s ((hstake owner).symm.trans hs), fun s hs hlow hseat o t ht => ?_⟩
  exact h.seated s ((hstake owner).symm.trans hs) hlow hseat o t ((hstake o).symm.trans ht)

/-! #### Expulsion -/

theorem seatsOwner_expel :
    (f.expel owner).2.round.seatsOwner other ↔ other ≠ owner ∧ f.round.seatsOwner other := by
  rw [Round.seatsOwner_iff, Round.seatsOwner_iff]
  show other ∈ (f.round.unseat owner).owners ↔ _
  rw [Round.owners_unseat, List.mem_filter, decide_eq_true_eq, and_comm]

theorem settled_expel {s : Amount} (hs : r.stake? owner = some s) (hlow : s < minStake) :
    (f.expel owner).2.Settled r minStake owner := by
  refine ⟨fun _ _ _ => ⟨fun h => (isSubscribed_expel.1 h).1 rfl, fun h => (seatsOwner_expel.1 h).1 rfl⟩,
    fun t ht henough => ?_⟩
  obtain rfl : s = t := Option.some.inj (hs.symm.trans ht)
  exact absurd hlow henough

theorem Settled.expel (h : f.Settled r minStake owner) (other : Address) :
    (f.expel other).2.Settled r minStake owner := by
  refine ⟨fun s hs hlow => ?_, fun s hs henough hseat o t ht hlisted hwaits => ?_⟩
  · obtain ⟨hlisted, hseat⟩ := h.out s hs hlow
    exact ⟨fun hl => hlisted (isSubscribed_expel.1 hl).2, fun hs => hseat (seatsOwner_expel.1 hs).2⟩
  · obtain ⟨hne, hlisted⟩ := isSubscribed_expel.1 hlisted
    refine h.seated s hs henough (seatsOwner_expel.1 hseat).2 o t ht hlisted fun hseated => ?_
    exact hwaits (seatsOwner_expel.2 ⟨hne, hseated⟩)

/-! #### Passing a seat on -/

/-- The best of those that wait: in the order of the registry it is the first, so nobody has more stake. -/
theorem bestWaiting?_eq_some (ho : r.Ordered) (hu : r.Unambiguous) {c : OracleEntry}
    (h : f.bestWaiting? r = some c) :
    r.stake? c.owner = some c.stake ∧ f.isSubscribed c.owner ∧ ¬ f.round.seatsOwner c.owner ∧
      f.Outbids r c.stake := by
  obtain ⟨hwaits, before, after, heq, hpassed⟩ := List.find?_eq_some_iff_append.1 h
  obtain ⟨hmem, hlisted⟩ := mem_ranked.1 (List.mem_of_find?_eq_some h)
  refine ⟨?_, hlisted, by simpa using hwaits, fun o s hs hl hw => ?_⟩
  · rw [Registry.stake?, (Registry.get?_eq_some hu).2 ⟨hmem, rfl⟩]
    rfl
  obtain ⟨e, he, rfl⟩ := Option.map_eq_some_iff.1 hs
  obtain rfl := Registry.owner_of_get? he
  have hranked : e ∈ f.ranked r := mem_ranked.2 ⟨Registry.mem_of_get? he, hl⟩
  have hsorted : (f.ranked r).Pairwise OracleEntry.Before := ho.sorted.filter _
  rw [heq] at hranked hsorted
  obtain ⟨-, hrest, -⟩ := List.pairwise_append.1 hsorted
  rcases List.mem_append.1 hranked with hb | ha
  · have hseated := hpassed e hb
    simp [hw] at hseated
  · rcases List.mem_cons.1 ha with rfl | ha
    · exact Nat.le_refl _
    · have hbefore := (List.pairwise_cons.1 hrest).1 e ha
      simp only [OracleEntry.Before, OracleEntry.Precedes] at hbefore
      lia

/-- An owner keeps its seat if nobody with more stake waits for one. -/
theorem outbids_of_yieldSeat?_eq_none (ho : r.Ordered) (hu : r.Unambiguous) {s : Amount}
    (hs : r.stake? owner = some s) (hseat : f.round.seatsOwner owner)
    (h : f.yieldSeat? owner r = none) : f.Outbids r s := by
  obtain ⟨e, he, rfl⟩ := Option.map_eq_some_iff.1 hs
  unfold yieldSeat? at h
  rw [if_pos hseat, he] at h
  cases hbest : f.bestWaiting? r with
  | none =>
    intro o t ht hl hw
    obtain ⟨x, hx, rfl⟩ := Option.map_eq_some_iff.1 ht
    obtain rfl := Registry.owner_of_get? hx
    have hseated := List.find?_eq_none.1 hbest x (mem_ranked.2 ⟨Registry.mem_of_get? hx, hl⟩)
    simp [hw] at hseated
  | some c =>
    obtain ⟨-, -, -, hbid⟩ := bestWaiting?_eq_some ho hu hbest
    rw [hbest] at h
    dsimp only at h
    split at h
    · cases h
    · rename_i hless
      intro o t ht hl hw
      have hc := hbid o t ht hl hw
      lia

/-- A seat that is passed on goes to the best of those that wait, who has more stake than its holder. -/
theorem yieldSeat?_cases (ho : r.Ordered) (hu : r.Unambiguous) {x : Replacement × PriceFeed}
    (h : f.yieldSeat? owner r = some x) :
    ∃ c s t, r.stake? owner = some s ∧ r.stake? c = some t ∧ s < t ∧ f.isSubscribed c ∧
      ¬ f.round.seatsOwner c ∧ f.round.seatsOwner owner ∧ f.Outbids r t ∧
      x.2.subscribed = f.subscribed ∧
      ∀ other, x.2.round.seatsOwner other ↔ other = c ∨ other ≠ owner ∧ f.round.seatsOwner other := by
  unfold yieldSeat? at h
  split at h
  · rename_i hseat
    split at h
    · rename_i e c he hbest
      obtain ⟨hstake, hlisted, hwaits, hbid⟩ := bestWaiting?_eq_some ho hu hbest
      split at h
      · rename_i hless
        cases h
        have hs : r.stake? owner = some e.stake := by
          rw [Registry.stake?, he]
          rfl
        refine ⟨c.owner, e.stake, c.stake, hs, hstake, hless, hlisted, hwaits, hseat, hbid, rfl,
          fun other => ?_⟩
        rw [Round.seatsOwner_iff, Round.seatsOwner_iff]
        show other ∈ ((f.round.unseat owner).seat c.owner c.address).owners ↔ _
        rw [Round.owners_seat, Round.owners_unseat, List.mem_append, List.mem_singleton, List.mem_filter,
          decide_eq_true_eq]
        tauto
      · cases h
    · cases h
  · cases h

theorem settled_yieldSeat (ho : r.Ordered) (hu : r.Unambiguous) {s : Amount}
    (hs : r.stake? owner = some s) (henough : ¬ s < minStake) :
    ((f.yieldSeat? owner r).elim f (·.2)).Settled r minStake owner := by
  refine ⟨fun t ht hlow => ?_, fun t ht _ hseat => ?_⟩
  · obtain rfl : s = t := Option.some.inj (hs.symm.trans ht)
    exact absurd hlow henough
  obtain rfl : s = t := Option.some.inj (hs.symm.trans ht)
  cases hy : f.yieldSeat? owner r with
  | none =>
    rw [hy] at hseat
    exact outbids_of_yieldSeat?_eq_none ho hu hs hseat hy
  | some x =>
    -- the seat is gone, for it went to somebody else
    obtain ⟨c, -, -, -, -, -, -, hwaits, hheld, -, -, hseats⟩ := yieldSeat?_cases ho hu hy
    rw [hy] at hseat
    rcases (hseats owner).1 hseat with rfl | ⟨hne, -⟩
    · exact absurd hheld hwaits
    · exact absurd rfl hne

/-- After another owner passed its seat on, those that wait are some of those that did and that owner, who
had less stake than the one who waits no more. -/
theorem Settled.yieldSeat (h : f.Settled r minStake owner) (ho : r.Ordered) (hu : r.Unambiguous)
    (other : Address) : ((f.yieldSeat? other r).elim f (·.2)).Settled r minStake owner := by
  cases hy : f.yieldSeat? other r with
  | none => exact h
  | some x =>
    obtain ⟨c, given, taken, hgiven, htaken, hless, hlisted, hwaits, hheld, hbid, hlist, hseats⟩ :=
      yieldSeat?_cases ho hu hy
    have hsub : ∀ o, x.2.isSubscribed o ↔ f.isSubscribed o := by
      intro o
      rw [isSubscribed, isSubscribed, hlist]
    rw [Option.elim_some]
    refine ⟨fun s hs hlow => ?_, fun s hs henough hseat o t ht hl hw => ?_⟩
    · obtain ⟨hout, hunseated⟩ := h.out s hs hlow
      refine ⟨fun hl => hout ((hsub owner).1 hl), fun hseat => ?_⟩
      rcases (hseats owner).1 hseat with rfl | ⟨-, hseat⟩
      · exact hout hlisted
      · exact hunseated hseat
    · -- the one that took the seat outbids all that waited, and so does everyone seated before
      have hwaiting : taken ≤ s ∧ (¬ f.round.seatsOwner o → t ≤ s) := by
        rcases (hseats owner).1 hseat with rfl | ⟨-, hseat⟩
        · obtain rfl : taken = s := Option.some.inj (htaken.symm.trans hs)
          exact ⟨Nat.le_refl _, fun hw => hbid o t ht ((hsub o).1 hl) hw⟩
        · have hold := h.seated s hs henough hseat
          exact ⟨hold c taken htaken hlisted hwaits, fun hw => hold o t ht ((hsub o).1 hl) hw⟩
      by_cases heq : o = other
      · obtain rfl : given = t := Option.some.inj (hgiven.symm.trans (heq ▸ ht))
        have := hwaiting.1
        lia
      · exact hwaiting.2 fun hseated => hw ((hseats o).2 (.inr ⟨heq, hseated⟩))

end PriceFeed

/-! ### The order of the registry -/

namespace Registry

variable {r : Registry}

/-- Setting the stakes of some entries, one after the other, keeps the order. -/
theorem Ordered.foldl_restake (stakeOf : Address → Amount) {es : List OracleEntry} :
    ∀ {r : Registry}, r.Ordered → r.Unambiguous → (es.map (·.owner)).Nodup →
      (∀ e ∈ es, r.get? e.owner = some e) →
      (es.foldl (fun r e => if stakeOf e.owner = e.stake then r
        else r.restake e (stakeOf e.owner)) r).Ordered := by
  induction es with
  | nil => exact fun h _ _ _ => h
  | cons e es ih =>
    intro r h hu hnodup hfound
    rw [List.map_cons, List.nodup_cons] at hnodup
    obtain ⟨hnew, hnodup⟩ := hnodup
    have he : r.get? e.owner = some e := hfound e (by simp)
    have hrest : ∀ x ∈ es, r.get? x.owner = some x := fun x hx => hfound x (by simp [hx])
    rw [List.foldl_cons]
    split
    · exact ih h hu hnodup hrest
    · have hidentity : e.identity ∈ r.identities := List.mem_map_of_mem (mem_of_get? he)
      refine ih (h.restake hu he rfl _) (hu.of_perm (identities_restake hu hidentity _)) hnodup
        fun x hx => ?_
      have hne : x.owner ≠ e.owner := fun heq => hnew (heq ▸ List.mem_map_of_mem hx)
      rw [get?_restake, if_neg hne]
      exact hrest x hx

end Registry

namespace Network

variable {n : Network}

theorem ordered_restaked (h : n.registry.Ordered) (hu : n.registry.Unambiguous) (ctx : BlockContext) :
    (n.restaked ctx).Ordered :=
  h.foldl_restake (fun owner => n.staking.balance owner ctx) hu hu.owners fun _ he =>
    (Registry.get?_eq_some hu).2 ⟨he, rfl⟩

theorem ordered_of_edit {r : Registry} {feeds : Feeds} (h : n.registry.Ordered) (hedit : n.Edit r feeds) :
    r.Ordered := by
  cases hedit with
  | idle | stored | called | tracked => exact h
  | registered hr => exact h.register hr
  | renamed hr => exact h.setName hr
  | removed hr hidle => exact h.remove hr
  | @subscribed owner pair f f' outcome r hf hs =>
    obtain ⟨-, rfl⟩ := subscribe_eq_ok hs
    cases outcome.evicted with
    | none => exact h.enlist _ _
    | some tail => exact (h.delist tail _).enlist _ _
  | unsubscribed hf hlisted => exact h.delist _ _
  | @capped pair _ _ _ dropped hf hs => exact h.foldl_delist id (fun _ => pair) dropped

theorem ordered_of_move {r : Registry} {feeds : Feeds} (hu : n.registry.Unambiguous)
    (h : n.registry.Ordered) (hmove : n.Move r feeds) : r.Ordered := by
  cases hmove with
  | edited hedit => exact ordered_of_edit h hedit
  | restaked ctx => exact ordered_restaked h hu ctx
  | expelled he hlow => exact h.foldl_delist (fun _ => _) Prod.fst _
  | yielded he henough => exact h

/-- The two stores of subscriptions are in step, and the registry is in its order. -/
structure InOrder (n : Network) : Prop where
  mirrored : Mirrored n.registry n.feeds
  ordered : n.registry.Ordered

theorem InOrder.reaches {n' : Network} (h : n.InOrder) (hr : n.Reaches n') : n'.InOrder := by
  obtain ⟨hm, ho⟩ := hr.keep (I := fun r feeds => Mirrored r feeds ∧ r.Ordered)
    (fun _ _ _ ⟨hm, ho⟩ hmove => ⟨mirrored_of_move hm hmove, ordered_of_move hm.unambiguous ho hmove⟩)
    ⟨h.mirrored, h.ordered⟩
  exact ⟨hm, ho⟩

theorem inOrder_new {params : NetworkParams} {ledger : Ledger} (h : Network.new params ledger = .ok n) :
    n.InOrder := by
  obtain ⟨staking, -, rfl⟩ := new_eq_ok h
  exact ⟨.empty, Registry.ordered_empty⟩

theorem inOrder_run {params : NetworkParams} {ledger : Ledger} (h : Network.new params ledger = .ok n)
    (steps : List Step) : (n.run steps).network.InOrder :=
  (inOrder_new h).reaches (reaches_run n steps)

/-! ### Carrying drops -/

/-- What a drop leaves an oracle with, on every pair. -/
def Settled (n : Network) (owner : Address) : Prop :=
  ∀ pair f, n.feeds.get? pair = some f → f.Settled n.registry n.policy.minStake owner

/-- Carrying a drop changes no stake. It does nothing, expels the owner from every feed or has it pass its
seats on. -/
theorem carryDrop_cases (n : Network) (owner : Address) (previous : Amount) :
    (∀ other, (n.carryDrop owner previous).registry.stake? other = n.registry.stake? other) ∧
    ((n.carryDrop owner previous = n ∧ ∀ s, n.registry.stake? owner = some s → previous ≤ s) ∨
      ∃ s, n.registry.stake? owner = some s ∧
        ((s < n.policy.minStake ∧ ∀ pair, (n.carryDrop owner previous).feeds.get? pair
            = (n.feeds.get? pair).map fun f => (f.expel owner).2) ∨
          (¬ s < n.policy.minStake ∧ ∀ pair, (n.carryDrop owner previous).feeds.get? pair
            = (n.feeds.get? pair).map fun f => (f.yieldSeat? owner n.registry).elim f (·.2)))) := by
  unfold carryDrop SubscriptionPolicy.stakeDecreased
  cases he : n.registry.get? owner with
  | none =>
    refine ⟨fun _ => rfl, .inl ⟨?_, fun s hs => ?_⟩⟩
    · simp [StakeChange.none, stakeChangeEvents, record]
    · simp [Registry.stake?, he] at hs
  | some e =>
    have hstake : n.registry.stake? owner = some e.stake := by
      rw [Registry.stake?, he]
      rfl
    dsimp only
    by_cases hkept : previous ≤ e.stake
    · simp only [hkept, ↓reduceIte]
      refine ⟨fun _ => rfl, .inl ⟨?_, fun s hs => ?_⟩⟩
      · simp [StakeChange.none, stakeChangeEvents, record]
      · obtain rfl : e.stake = s := Option.some.inj (hstake.symm.trans hs)
        exact hkept
    by_cases hlow : e.stake < n.policy.minStake
    · simp only [hkept, hlow, ↓reduceIte]
      exact ⟨fun other => Registry.stake?_foldl_delist (fun _ => owner) Prod.fst other _ n.registry,
        .inr ⟨e.stake, hstake, .inl ⟨hlow, fun pair => Table.get?_map _ n.feeds pair⟩⟩⟩
    · simp only [hkept, hlow, ↓reduceIte]
      exact ⟨fun _ => rfl, .inr ⟨e.stake, hstake, .inr ⟨hlow, fun pair => Table.get?_map _ n.feeds pair⟩⟩⟩

theorem stake?_carryDrop (n : Network) (owner : Address) (previous : Amount) (other : Address) :
    (n.carryDrop owner previous).registry.stake? other = n.registry.stake? other :=
  (n.carryDrop_cases owner previous).1 other

theorem contains_carryDrop (n : Network) (owner : Address) (previous : Amount) (pair : CoinPair) :
    (n.carryDrop owner previous).feeds.contains pair = n.feeds.contains pair := by
  rcases (n.carryDrop_cases owner previous).2 with ⟨hsame, -⟩ | ⟨s, -, ⟨-, hfeeds⟩ | ⟨-, hfeeds⟩⟩
  · rw [hsame]
  · rw [Table.contains, hfeeds, Option.isSome_map, Table.contains]
  · rw [Table.contains, hfeeds, Option.isSome_map, Table.contains]

theorem settled_carryDrop (h : n.InOrder) {owner : Address} {previous s : Amount}
    (hs : n.registry.stake? owner = some s) (hdropped : s < previous) :
    (n.carryDrop owner previous).Settled owner := by
  intro pair f' hf'
  refine PriceFeed.Settled.congr ?_ (n.stake?_carryDrop owner previous)
  rcases (n.carryDrop_cases owner previous).2 with ⟨-, hkept⟩ | ⟨t, ht, ⟨hlow, hfeeds⟩ | ⟨henough, hfeeds⟩⟩
  · have := hkept s hs
    lia
  · rw [hfeeds, Option.map_eq_some_iff] at hf'
    obtain ⟨f, -, rfl⟩ := hf'
    exact PriceFeed.settled_expel ht hlow
  · rw [hfeeds, Option.map_eq_some_iff] at hf'
    obtain ⟨f, -, rfl⟩ := hf'
    exact PriceFeed.settled_yieldSeat h.ordered h.mirrored.unambiguous ht henough

theorem Settled.carryDrop {owner : Address} (hsettled : n.Settled owner) (h : n.InOrder)
    (other : Address) (previous : Amount) : (n.carryDrop other previous).Settled owner := by
  intro pair f' hf'
  refine PriceFeed.Settled.congr ?_ (n.stake?_carryDrop other previous)
  rcases (n.carryDrop_cases other previous).2 with ⟨hsame, -⟩ | ⟨t, -, ⟨-, hfeeds⟩ | ⟨-, hfeeds⟩⟩
  · rw [hsame] at hf'
    exact hsettled pair f' hf'
  · rw [hfeeds, Option.map_eq_some_iff] at hf'
    obtain ⟨f, hf, rfl⟩ := hf'
    exact (hsettled pair f hf).expel other
  · rw [hfeeds, Option.map_eq_some_iff] at hf'
    obtain ⟨f, hf, rfl⟩ := hf'
    exact (hsettled pair f hf).yieldSeat h.ordered h.mirrored.unambiguous other

/-- Carrying many drops: stakes stay, whoever was settled stays settled, and everyone who dropped is. -/
theorem settled_foldl_carryDrop (es : List OracleEntry) : ∀ {n : Network}, n.InOrder →
    let n' := es.foldl (fun n e => n.carryDrop e.owner e.stake) n
    n'.staking = n.staking ∧ n'.policy = n.policy ∧
      (∀ owner, n'.registry.stake? owner = n.registry.stake? owner) ∧
      (∀ owner, n.Settled owner → n'.Settled owner) ∧
      ∀ e ∈ es, ∀ s, n.registry.stake? e.owner = some s → s < e.stake → n'.Settled e.owner := by
  induction es with
  | nil => exact fun _ => ⟨rfl, rfl, fun _ => rfl, fun _ h => h, fun _ he => by cases he⟩
  | cons e es ih =>
    intro n h n'
    have hstakes := n.stake?_carryDrop e.owner e.stake
    obtain ⟨hstaking, hpolicy, hstake, hkept, hdrops⟩ :=
      ih (h.reaches (n.reaches_carryDrop e.owner e.stake))
    refine ⟨hstaking, hpolicy, fun o => (hstake o).trans (hstakes o),
      fun o ho => hkept o (ho.carryDrop h e.owner e.stake), fun x hx s hs hlow => ?_⟩
    rcases List.mem_cons.1 hx with rfl | hx
    · exact hkept _ (settled_carryDrop h hs hlow)
    · exact hdrops x hx s ((hstakes x.owner).trans hs) hlow

/-! ### The refresh -/

theorem restaked_eq {ctx : BlockContext}
    (h : ∀ e ∈ n.registry.entries, e.stake = n.staking.balance e.owner ctx) :
    n.restaked ctx = n.registry := by
  have hfold : ∀ es : List OracleEntry, (∀ e ∈ es, e.stake = n.staking.balance e.owner ctx) →
      ∀ r : Registry, es.foldl (fun r e =>
        let stake := n.staking.balance e.owner ctx
        if stake = e.stake then r else r.restake e stake) r = r := by
    intro es
    induction es with
    | nil => exact fun _ _ => rfl
    | cons e es ih =>
      intro hes r
      have he : n.staking.balance e.owner ctx = e.stake := (hes e (by simp)).symm
      simp only [List.foldl_cons, he, ↓reduceIte]
      exact ih (fun x hx => hes x (by simp [hx])) r
  exact hfold n.registry.entries h n.registry

/-- A refresh in which no stake drops sets the stakes, and that is all. -/
theorem refreshStakes_of_le {ctx : BlockContext}
    (h : ∀ e ∈ n.registry.entries, e.stake ≤ n.staking.balance e.owner ctx) :
    n.refreshStakes ctx = { n with registry := n.restaked ctx } := by
  have hnone : n.registry.entries.filter (fun e => n.staking.balance e.owner ctx < e.stake) = [] := by
    refine List.filter_eq_nil_iff.2 fun e he => ?_
    have hle := h e he
    rw [decide_eq_true_eq]
    lia
  unfold refreshStakes
  rw [hnone]
  rfl

theorem contains_refreshStakes (n : Network) (ctx : BlockContext) (pair : CoinPair) :
    (n.refreshStakes ctx).feeds.contains pair = n.feeds.contains pair :=
  refreshStakes_induction (motive := fun m => m.feeds.contains pair = n.feeds.contains pair) rfl
    fun m owner previous h => (m.contains_carryDrop owner previous pair).trans h

/-- After a refresh every stake is its balance, and whoever had more before is settled. -/
theorem settled_refreshStakes (h : n.InOrder) (ctx : BlockContext) :
    let n' := n.refreshStakes ctx
    n'.staking = n.staking ∧ n'.policy = n.policy ∧
      (∀ owner, n'.registry.stake? owner
        = (n.registry.get? owner).map fun _ => n.staking.balance owner ctx) ∧
      ∀ e ∈ n.registry.entries, n.staking.balance e.owner ctx < e.stake → n'.Settled e.owner := by
  have hu := h.mirrored.unambiguous
  have hstake : ∀ owner, (n.restaked ctx).stake? owner
      = (n.registry.get? owner).map fun _ => n.staking.balance owner ctx := by
    intro owner
    rw [Registry.stake?, get?_restaked hu, Option.map_map]
    rfl
  have hrestaked : ({ n with registry := n.restaked ctx } : Network).InOrder :=
    h.reaches (Move.restaked ctx).reaches
  obtain ⟨hstaking, hpolicy, hstakes, -, hdrops⟩ := settled_foldl_carryDrop
    (n.registry.entries.filter fun e => n.staking.balance e.owner ctx < e.stake) hrestaked
  refine ⟨hstaking, hpolicy, fun owner => (hstakes owner).trans (hstake owner), fun e he hlow => ?_⟩
  refine hdrops e (List.mem_filter.2 ⟨he, decide_eq_true hlow⟩) _ ?_ hlow
  show (n.restaked ctx).stake? e.owner = _
  rw [hstake, (Registry.get?_eq_some hu).2 ⟨he, rfl⟩]
  rfl

/-- After any run of a new network, for any block, one before the last one too, a refresh leaves staking, the
registered owners and the tracked pairs, and sets every stake to what its owner's own account is worth. Whose
stake it lowered below what a subscription takes has no subscription and no seat; whose stake it lowered less
has a seat on a pair only if every subscriber without one has at most as much stake. A second refresh for the
same block changes nothing. -/
theorem refreshStakes_run {params : NetworkParams} {ledger : Ledger}
    (hn : Network.new params ledger = .ok n) (steps : List Step) (ctx : BlockContext) :
    let m := (n.run steps).network
    let m' := m.refreshStakes ctx
    m'.staking = m.staking ∧
      (∀ owner, m'.registry.isRegistered owner = m.registry.isRegistered owner) ∧
      (∀ pair, m'.feeds.contains pair = m.feeds.contains pair) ∧
      (∀ e ∈ m'.registry.entries, e.stake = m'.staking.balance e.owner ctx) ∧
      (∀ owner e e', m.registry.get? owner = some e → m'.registry.get? owner = some e' →
        e'.stake < e.stake →
        (e'.stake < m'.policy.minStake → ∀ pair, ¬ e'.isSubscribed pair ∧
          ∀ f, m'.feeds.get? pair = some f → ¬ f.isSubscribed owner ∧ ¬ f.round.seatsOwner owner) ∧
        (¬ e'.stake < m'.policy.minStake → ∀ pair f, m'.feeds.get? pair = some f →
          f.round.seatsOwner owner → ∀ other, f.isSubscribed other → ¬ f.round.seatsOwner other →
          ∃ w, m'.registry.get? other = some w ∧ w.stake ≤ e'.stake)) ∧
      m'.refreshStakes ctx = m' := by
  intro m m'
  have h : m.InOrder := inOrder_run hn steps
  have h' : m'.InOrder := h.reaches (m.reaches_refreshStakes ctx)
  obtain ⟨hstaking, -, hstake, hsettled⟩ := settled_refreshStakes h ctx
  have hstakes : ∀ owner e', m'.registry.get? owner = some e' →
      e'.stake = m'.staking.balance owner ctx := by
    intro owner e' he'
    have heq : m'.registry.stake? owner = some e'.stake := by
      rw [Registry.stake?, he']
      rfl
    rw [hstake, Option.map_eq_some_iff] at heq
    obtain ⟨-, -, heq⟩ := heq
    rw [hstaking, heq]
  have hentries : ∀ e ∈ m'.registry.entries, e.stake = m'.staking.balance e.owner ctx := fun e he =>
    hstakes e.owner e ((Registry.get?_eq_some h'.mirrored.unambiguous).2 ⟨he, rfl⟩)
  have howners : ∀ owner, m'.registry.isRegistered owner = m.registry.isRegistered owner := by
    intro owner
    have hsome := congrArg Option.isSome (hstake owner)
    rwa [Registry.stake?, Option.isSome_map, Option.isSome_map] at hsome
  refine ⟨hstaking, howners, m.contains_refreshStakes ctx, hentries, fun owner e e' he he' hlow => ?_, ?_⟩
  · have hstake' : m'.registry.stake? owner = some e'.stake := by
      rw [Registry.stake?, he']
      rfl
    have howner := Registry.owner_of_get? he
    have hbalance : m.staking.balance e.owner ctx < e.stake := by
      rwa [howner, ← hstaking, ← hstakes owner e' he']
    have hs : m'.Settled owner := howner ▸ hsettled e (Registry.mem_of_get? he) hbalance
    refine ⟨fun hout pair => ⟨fun hp => ?_, fun f hf => (hs pair f hf).out _ hstake' hout⟩,
      fun henough pair f hf hseat other hl hw => ?_⟩
    · obtain ⟨f, hf, hl⟩ := (h'.mirrored.lists_iff owner pair).1 ⟨e', he', hp⟩
      exact ((hs pair f hf).out _ hstake' hout).1 hl
    · obtain ⟨w, hw'⟩ := Option.isSome_iff_exists.1 (h'.mirrored.isRegistered hf other hl)
      refine ⟨w, hw', (hs pair f hf).seated _ hstake' henough hseat other w.stake ?_ hl hw⟩
      rw [Registry.stake?, hw']
      rfl
  · rw [refreshStakes_of_le fun e he => Nat.le_of_eq (hentries e he), restaked_eq hentries]

/-- A reward is released and both stakes are brought up to date, then once more for a block before that. The
rival, who put in more after the round was filled, takes the only seat. -/
theorem refreshStakes_run_of_swap :
    let governor := Address.ofNat 1
    let owner := Address.ofNat 2
    let rival := Address.ofNat 3
    let pair : CoinPair := default
    let ledger : Ledger :=
      ⟨((Table.empty.insert governor 15).insert owner 5).insert rival 10, .empty, 30⟩
    let staking : Staking :=
      ⟨stakingAccount, ⟨.empty, 0, 0, .none, 0, 10⟩, ledger, .new vaultAccount, 3600, .empty, .empty, .empty⟩
    let n : Network := ⟨.empty, staking, .empty, ⟨0, 1⟩, .governor governor, []⟩
    let params : RoundParams := { minOracles := 1, maxOracles := 1, maxSubscribed := 2 }
    let steps : List Step := [
      .command (.act governor (.executeChange (.registerPair pair params))) ⟨1, 10⟩,
      .command (.act owner (.approve 5)) ⟨2, 20⟩,
      .command (.act owner (.deposit 5 none)) ⟨3, 30⟩,
      .command (.act owner (.registerOracle owner "host")) ⟨4, 40⟩,
      .command (.act owner (.subscribe pair)) ⟨5, 50⟩,
      .command (.act rival (.registerOracle rival "host")) ⟨6, 60⟩,
      .command (.act rival (.subscribe pair)) ⟨7, 70⟩,
      .command (.act rival (.approve 10)) ⟨8, 80⟩,
      .command (.act rival (.deposit 10 none)) ⟨9, 90⟩,
      .command (.act governor (.approve 15)) ⟨10, 100⟩,
      .command (.act governor (.distribute 15)) ⟨11, 110⟩,
      .refreshStakes ⟨21, 210⟩]
    let m := (n.run steps).network
    let m' := m.refreshStakes ⟨11, 110⟩
    Network.new { governor } ledger = .ok n ∧
      (m.registry.get? owner).map (·.stake) = some 10 ∧
      (m.feeds.get? pair).map (·.round.owners) = some [owner] ∧
      (m'.registry.get? owner).map (·.stake) = some 5 ∧
      (m'.feeds.get? pair).map (·.round.owners) = some [rival] ∧
      m'.refreshStakes ⟨11, 110⟩ = m' := by
  intro governor owner rival pair ledger staking n params steps m m'
  have hn : Network.new { governor } ledger = .ok n := new_of_governor rfl ledger
  have hswap : (m.registry.get? owner).map (·.stake) = some 10 ∧
      (m.feeds.get? pair).map (·.round.owners) = some [owner] ∧
      (m'.registry.get? owner).map (·.stake) = some 5 ∧
      (m'.feeds.get? pair).map (·.round.owners) = some [rival] := by
    simp only [m', m, n, staking, stakingAccount_eq, vaultAccount_eq]
    decide +kernel
  obtain ⟨-, -, -, -, -, hagain⟩ := refreshStakes_run hn steps ⟨11, 110⟩
  obtain ⟨hstake, howner, hstake', howner'⟩ := hswap
  exact ⟨hn, hstake, howner, hstake', howner', hagain⟩

end Network

end PriceOracle
