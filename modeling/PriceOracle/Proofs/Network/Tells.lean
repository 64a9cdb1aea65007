import PriceOracle.Proofs.Network.Page
/-! Views that tell a network. A view tells a registry and feeds if its book lists the oracles and its
pages tell the feeds. It is carried over a change of one feed by events of that pair, over a change of all
feeds by events of all pairs in their order, and over a change of the registry by an event of the oracle. -/
namespace PriceOracle

/-- A view tells a registry and feeds: its book lists the oracles and its pages tell the feeds. -/
structure NetworkView.Tells (v : NetworkView) (r : Registry) (feeds : Feeds) : Prop where
  book : v.book.Lists r
  page : ∀ pair f, feeds.get? pair = some f → (v.page pair).Tells v.book pair f
  untracked : ∀ pair, feeds.get? pair = none → v.page pair = .initial

namespace NetworkView.Tells

variable {v : NetworkView} {r r' : Registry} {feeds : Feeds}

theorem initial : NetworkView.initial.Tells .empty .empty where
  book := ⟨Registry.unambiguous_empty, fun _ => rfl⟩
  page _ _ h := by cases h
  untracked _ _ := rfl

theorem of_perm (h : v.Tells r feeds) (hp : r'.identities.Perm r.identities) : v.Tells r' feeds :=
  ⟨h.book.of_perm hp, h.page, h.untracked⟩

/-- Events of one pair, for a change of its feed. -/
theorem withFeed (h : v.Tells r feeds) {pair : CoinPair} {f f' : PriceFeed} {es : List Event}
    (hf : feeds.get? pair = some f) (hes : ∀ e ∈ es, e.pair? = some pair)
    (ht : ((v.page pair).applyAll v.book es).Tells v.book pair f') :
    (v.replay es).Tells r (feeds.insert f'.pair f') := by
  have hpairs : ∀ e ∈ es, e.pair?.isSome := fun e he => by rw [hes e he]; rfl
  have hbook := NetworkView.book_replay hpairs v
  have hown : es.filter (·.pair? = some pair) = es :=
    List.filter_eq_self.2 fun e he => by simpa using hes e he
  rw [ht.pair_eq]
  refine ⟨by rw [hbook]; exact h.book, fun told g hg => ?_, fun told hnone => ?_⟩
  · rw [Table.get?_insert] at hg
    split at hg
    · rename_i heq
      subst heq
      cases hg
      rw [hbook, NetworkView.page_replay hpairs, hown]
      exact ht
    · rename_i hne
      rw [hbook, NetworkView.page_replay_of_ne fun e he => by
        rw [hes e he, ne_eq, Option.some.injEq]
        exact Ne.symm hne]
      exact h.page told g hg
  · rw [Table.get?_insert] at hnone
    split at hnone
    · cases hnone
    · rename_i hne
      rw [NetworkView.page_replay_of_ne fun e he => by
        rw [hes e he, ne_eq, Option.some.injEq]
        exact Ne.symm hne]
      exact h.untracked told hnone

/-- One event of a pair, for a change of its feed. -/
theorem withEvent (h : v.Tells r feeds) {pair : CoinPair} {f f' : PriceFeed} {e : Event}
    (hf : feeds.get? pair = some f) (he : e.pair? = some pair)
    (ht : ((v.page pair).apply v.book e).Tells v.book pair f') :
    (v.apply e).Tells r (feeds.insert f'.pair f') := by
  have hes : ∀ x ∈ [e], x.pair? = some pair := by
    intro x hx
    rw [List.mem_singleton.1 hx, he]
  exact h.withFeed hf hes ht

/-- A change of a feed that no event tells. -/
theorem refeed (h : v.Tells r feeds) {pair : CoinPair} {f f' : PriceFeed} (hf : feeds.get? pair = some f)
    (ht : (v.page pair).Tells v.book pair f') : v.Tells r (feeds.insert f'.pair f') :=
  h.withFeed hf (List.forall_mem_nil _) ht

theorem tracked (h : v.Tells r feeds) {pair : CoinPair} {f : PriceFeed} (hnew : feeds.get? pair = none)
    (ht : PairView.initial.Tells v.book pair f) : v.Tells r (feeds.insert f.pair f) := by
  rw [ht.pair_eq]
  refine ⟨h.book, fun told g hg => ?_, fun told hnone => ?_⟩
  · rw [Table.get?_insert] at hg
    split at hg
    · rename_i heq
      subst heq
      cases hg
      rw [h.untracked told hnew]
      exact ht
    · exact h.page told g hg
  · rw [Table.get?_insert] at hnone
    split at hnone
    · cases hnone
    · exact h.untracked told hnone

/-- Events of all pairs in their order, for a change of each feed. -/
theorem map (h : v.Tells r feeds) {g : CoinPair → PriceFeed → PriceFeed}
    {events : CoinPair → PriceFeed → List Event}
    (hev : ∀ pair f, ∀ e ∈ events pair f, e.pair? = some pair)
    (ht : ∀ pair f, feeds.get? pair = some f →
      ((v.page pair).applyAll v.book (events pair f)).Tells v.book pair (g pair f)) :
    (v.replay (feeds.toList.flatMap fun x => events x.1 x.2)).Tells r (feeds.map g) := by
  have hpairs : ∀ e ∈ feeds.toList.flatMap fun x => events x.1 x.2, e.pair?.isSome := by
    intro e he
    obtain ⟨x, -, hx⟩ := List.mem_flatMap.1 he
    rw [hev x.1 x.2 e hx]
    rfl
  have hbook := NetworkView.book_replay hpairs v
  refine ⟨by rw [hbook]; exact h.book, fun pair f' hf' => ?_, fun pair hnone => ?_⟩
  · rw [Table.get?_map, Option.map_eq_some_iff] at hf'
    obtain ⟨f, hf, rfl⟩ := hf'
    rw [hbook, NetworkView.page_replay hpairs, filter_flatMap_toList feeds hev, hf]
    exact ht pair f hf
  · rw [Table.get?_map, Option.map_eq_none_iff] at hnone
    rw [NetworkView.page_replay hpairs, filter_flatMap_toList feeds hev, hnone]
    exact h.untracked pair hnone

/-! ### Oracles -/

/-- An event of an oracle changes the book alone. -/
theorem rebook (h : v.Tells r feeds) {e : Event} (he : e.pair? = none)
    (hbook : (v.book.apply e).Lists r')
    (hpage : ∀ pair f, feeds.get? pair = some f → (v.page pair).Tells (v.book.apply e) pair f) :
    (v.apply e).Tells r' feeds := by
  have hsame : ∀ pair, (v.apply e).page pair = v.page pair := by
    intro pair
    rw [NetworkView.page_apply, he, if_neg (by simp)]
  refine ⟨hbook, fun pair f hf => ?_, fun pair hnone => ?_⟩
  · rw [hsame]
    exact hpage pair f hf
  · rw [hsame]
    exact h.untracked pair hnone

theorem registered (h : v.Tells r feeds) {owner address : Address} {name : String} {stake : Amount}
    {hint : Option PrevHint} {entry : OracleEntry}
    (hr : r.register owner address name stake hint = .ok (entry, r')) :
    (v.apply (.oracleRegistered owner address name)).Tells r' feeds := by
  obtain ⟨hnew, -, hp⟩ := Registry.identities_register hr
  have hu := h.book.unambiguous.register hr
  have hfresh : v.book.get? owner = none := by
    rw [h.book.entry, hnew]
    rfl
  have hkeep : ∀ {o : Address} {x : Address × String}, v.book.get? o = some x →
      (v.book.insert owner (address, name)).get? o = some x := by
    intro o x hx
    rw [Table.get?_insert_ne]
    · exact hx
    · rintro rfl
      rw [hfresh] at hx
      cases hx
  refine h.rebook rfl ⟨hu, fun o => ?_⟩ fun pair f hf => ?_
  · show (v.book.insert owner (address, name)).get? o = _
    apply Option.ext
    rintro ⟨a, m⟩
    rw [← Registry.mem_identities hu, hp.mem_iff, List.mem_cons, Prod.mk.injEq,
      Registry.mem_identities h.book.unambiguous, ← h.book.entry, Table.get?_insert]
    by_cases heq : o = owner
    · subst heq
      rw [hfresh]
      simp [eq_comm]
    · simp [heq]
  · have hpage := h.page pair f hf
    refine hpage.of_book (fun s hs => ?_) fun o ho => ?_
    · obtain ⟨m, hm⟩ := hpage.seated s hs
      exact ⟨m, hkeep hm⟩
    · obtain ⟨x, hx⟩ := Option.isSome_iff_exists.1 (hpage.registered o ho)
      show ((v.book.insert owner (address, name)).get? o).isSome
      rw [hkeep hx]
      rfl

theorem renamed (h : v.Tells r feeds) {owner : Address} {name : String} (hr : r.setName owner name = .ok r') :
    (v.apply (.oracleNameChanged owner name)).Tells r' feeds := by
  have hu := h.book.unambiguous.setName hr
  unfold Registry.setName at hr
  split at hr
  · rename_i hregistered
    cases hr
    obtain ⟨e, he⟩ := Option.isSome_iff_exists.1 hregistered
    have hold : v.book.get? owner = some (e.address, e.name) := by
      rw [h.book.entry, he]
      rfl
    have hbook : v.book.apply (.oracleNameChanged owner name) = v.book.insert owner (e.address, name) := by
      unfold OracleBook.apply
      simp only
      rw [hold]
      rfl
    refine h.rebook rfl ⟨hu, fun o => ?_⟩ fun pair f hf => ?_
    · rw [hbook, Table.get?_insert, Registry.get?_update r owner (f := ({ · with name })) fun _ => rfl,
        h.book.entry]
      by_cases heq : o = owner
      · subst heq
        simp [he]
      · simp [heq]
    · have hpage := h.page pair f hf
      rw [hbook]
      refine hpage.of_book (fun s hs => ?_) fun o ho => ?_
      · obtain ⟨m, hm⟩ := hpage.seated s hs
        rw [Table.get?_insert]
        by_cases heq : s.owner = owner
        · rw [heq, hold, Option.some.injEq, Prod.mk.injEq] at hm
          exact ⟨name, by rw [if_pos heq, hm.1]⟩
        · exact ⟨m, by rw [if_neg heq, hm]⟩
      · rw [Table.get?_insert]
        split
        · rfl
        · exact hpage.registered o ho
  · cases hr

theorem removed (h : v.Tells r feeds) {owner : Address} {entry : OracleEntry}
    (hr : r.remove owner = .ok (entry, r'))
    (hout : ∀ pair f, feeds.get? pair = some f → ¬ f.round.seatsOwner owner ∧ ¬ f.isSubscribed owner)
    (address : Address) : (v.apply (.oracleRemoved owner address)).Tells r' feeds := by
  refine h.rebook rfl ⟨h.book.unambiguous.remove hr, fun o => ?_⟩ fun pair f hf => ?_
  · show (v.book.erase owner).get? o = _
    rw [Table.get?_erase, Registry.get?_remove hr, h.book.entry]
    split <;> rfl
  · have hpage := h.page pair f hf
    obtain ⟨hseat, hsub⟩ := hout pair f hf
    refine hpage.of_book (fun s hs => ?_) fun o ho => ?_
    · obtain ⟨m, hm⟩ := hpage.seated s hs
      have hne : s.owner ≠ owner := by
        rintro rfl
        rw [Round.seatsOwner_iff, ← hpage.owners_eq] at hseat
        exact hseat (List.mem_map_of_mem hs)
      exact ⟨m, by rw [OracleBook.apply, Table.get?_erase, if_neg hne, hm]⟩
    · have hne : o ≠ owner := by
        rintro rfl
        rw [hpage.subscribed] at ho
        exact hsub ho
      rw [OracleBook.apply, Table.get?_erase, if_neg hne]
      exact hpage.registered o ho

end NetworkView.Tells

/-! ### Drops of stake -/

namespace Network

variable {n : Network}

theorem perm_foldl_restake (n : Network) (ctx : BlockContext) (es : List OracleEntry) :
    ∀ r : Registry, r.Unambiguous → (∀ e ∈ es, e.identity ∈ r.identities) →
    (es.foldl (fun r e =>
      let stake := n.staking.balance e.owner ctx
      if stake = e.stake then r else r.restake e stake) r).identities.Perm r.identities := by
  induction es with
  | nil => exact fun r _ _ => .refl _
  | cons e es ih =>
    intro r hu hes
    rw [List.foldl_cons]
    by_cases hsame : n.staking.balance e.owner ctx = e.stake
    · simp only [hsame, ↓reduceIte]
      exact ih r hu fun x hx => hes x (List.mem_cons_of_mem _ hx)
    · simp only [hsame, ↓reduceIte]
      have hp := Registry.identities_restake hu (hes e (List.mem_cons_self ..)) (n.staking.balance e.owner ctx)
      refine (ih _ (hu.of_perm hp) fun x hx => ?_).trans hp
      exact hp.mem_iff.2 (hes x (List.mem_cons_of_mem _ hx))

theorem perm_restaked (hu : n.registry.Unambiguous) (ctx : BlockContext) :
    (n.restaked ctx).identities.Perm n.registry.identities :=
  perm_foldl_restake n ctx n.registry.entries n.registry hu fun _ he => List.mem_map_of_mem he

theorem identities_foldl_delist {α : Type} (owner : α → Address) (pair : α → CoinPair) (xs : List α) :
    ∀ r : Registry, (xs.foldl (fun r x => r.delist (owner x) (pair x)) r).identities = r.identities := by
  induction xs with
  | nil => exact fun r => rfl
  | cons x xs ih =>
    intro r
    rw [List.foldl_cons, ih, Registry.identities_delist]

theorem tells_expelEverywhere {v : NetworkView} {r r' : Registry} {feeds feeds' now : Feeds}
    (h : v.Tells r feeds) {owner : Address} {change : StakeChange}
    (hc : SubscriptionPolicy.expelEverywhere owner r feeds = (change, r', feeds')) :
    (v.replay (stakeChangeEvents now owner change)).Tells r' feeds' := by
  let number (pair : CoinPair) : Nat := (now.get? pair).elim 0 (·.round.number)
  have hmap := h.map (fun _ _ _ => pair?_of_mem_expelEvents) fun pair f hf =>
    (h.page pair f hf).expel owner (number pair)
  unfold SubscriptionPolicy.expelEverywhere at hc
  cases hc
  have hevents : ∀ x : CoinPair × PriceFeed,
      (if x.2.isSubscribed owner || x.2.round.seatsOwner owner then
        some (x.1, x.2.round.seatsOwner owner) else none).elim [] (fun y : CoinPair × Bool =>
          Event.oracleUnsubscribed owner y.1
            :: if y.2 then [.oracleLeftRound owner y.1 (number y.1)] else [])
        = expelEvents owner (number x.1) x.1 x.2 := by
    intro x
    unfold expelEvents
    split <;> rfl
  unfold stakeChangeEvents
  simp only [List.flatMap_nil, List.append_nil, flatMap_filterMap]
  refine NetworkView.Tells.of_perm ?_ (.of_eq (identities_foldl_delist (fun _ => owner) Prod.fst _ _))
  rw [← funext hevents] at hmap
  exact hmap

theorem tells_yieldEverywhere {v : NetworkView} {r r' : Registry} {feeds feeds' now : Feeds}
    (h : v.Tells r feeds) {owner : Address} {change : StakeChange}
    (hc : SubscriptionPolicy.yieldEverywhere owner r feeds = (change, r', feeds')) :
    (v.replay (stakeChangeEvents now owner change)).Tells r' feeds' := by
  let number (pair : CoinPair) : Nat := (now.get? pair).elim 0 (·.round.number)
  have hmap := h.map (fun _ _ _ => pair?_of_mem_yieldEvents) fun pair f hf =>
    (h.page pair f hf).yieldSeat h.book owner (number pair)
  unfold SubscriptionPolicy.yieldEverywhere at hc
  cases hc
  have hevents : ∀ x : CoinPair × PriceFeed,
      ((x.2.yieldSeat? owner r).map fun y => (x.1, y.1)).elim [] (fun y : CoinPair × Replacement =>
          [Event.oracleLeftRound y.2.removed y.1 (number y.1), .oracleJoinedRound y.2.added y.1 (number y.1)])
        = yieldEvents owner r (number x.1) x.1 x.2 := by
    intro x
    unfold yieldEvents
    cases x.2.yieldSeat? owner r <;> rfl
  unfold stakeChangeEvents
  simp only [List.flatMap_nil, List.nil_append, flatMap_filterMap]
  rw [← funext hevents] at hmap
  exact hmap

theorem tells_stakeDecreased {v : NetworkView} {r r' : Registry} {feeds feeds' now : Feeds}
    (h : v.Tells r feeds) {p : SubscriptionPolicy} {owner : Address} {previous : Amount} {change : StakeChange}
    (hc : p.stakeDecreased owner previous r feeds = (change, r', feeds')) :
    (v.replay (stakeChangeEvents now owner change)).Tells r' feeds' := by
  unfold SubscriptionPolicy.stakeDecreased at hc
  split at hc
  · cases hc
    exact h
  · split at hc
    · cases hc
      exact h
    · split at hc
      · exact tells_expelEverywhere h hc
      · exact tells_yieldEverywhere h hc

end Network

end PriceOracle
