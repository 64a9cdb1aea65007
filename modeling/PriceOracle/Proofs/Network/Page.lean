import PriceOracle.Proofs.Feed.Publication
import PriceOracle.Proofs.Network.View
/-! The page of a pair under the operations of its feed. A page tells a feed if it shows its subscribers,
its round and its price, and if the book knows every subscriber and every seat. Each operation of a feed
comes with the events that keep its page telling it. -/
namespace PriceOracle

/-! ### The book -/

/-- The book lists the oracles of a registry. -/
structure OracleBook.Lists (b : OracleBook) (r : Registry) : Prop where
  unambiguous : r.Unambiguous
  entry : ∀ owner, b.get? owner = (r.get? owner).map fun e => (e.address, e.name)

namespace OracleBook.Lists

variable {b : OracleBook} {r : Registry}

theorem get?_of_entry (h : Lists b r) {e : OracleEntry} (he : e ∈ r.entries) :
    b.get? e.owner = some (e.address, e.name) := by
  rw [h.entry, (Registry.get?_eq_some h.unambiguous).2 ⟨he, rfl⟩]
  rfl

theorem isSome_get? (h : Lists b r) (owner : Address) : (b.get? owner).isSome = r.isRegistered owner := by
  rw [h.entry, Option.isSome_map]
  rfl

theorem owner_eq (h : Lists b r) {owner owner' address : Address} {name name' : String}
    (ho : b.get? owner = some (address, name)) (ho' : b.get? owner' = some (address, name')) :
    owner = owner' := by
  rw [h.entry, Option.map_eq_some_iff] at ho ho'
  obtain ⟨e, he, heq⟩ := ho
  obtain ⟨e', he', heq'⟩ := ho'
  have hadr : e.address = e'.address := (Prod.mk.inj heq).1.trans (Prod.mk.inj heq').1.symm
  have := List.inj_on_of_nodup_map h.unambiguous.addresses (Registry.mem_of_get? he)
    (Registry.mem_of_get? he') hadr
  rw [← Registry.owner_of_get? he, ← Registry.owner_of_get? he', this]

theorem ownerOf_eq (h : Lists b r) {e : OracleEntry} (he : e ∈ r.entries) :
    b.ownerOf e.address = e.owner := by
  have hmem := Table.mem_toList.2 (h.get?_of_entry he)
  unfold ownerOf
  cases hf : b.toList.find? (·.2.1 = e.address) with
  | none =>
    have := List.find?_eq_none.1 hf _ hmem
    simp at this
  | some x =>
    obtain ⟨owner, address, name⟩ := x
    have hadr : address = e.address := by simpa using List.find?_some hf
    subst hadr
    exact h.owner_eq (Table.mem_toList.1 (List.mem_of_find?_eq_some hf)) (h.get?_of_entry he)

theorem of_perm (h : Lists b r) {r' : Registry} (hp : r'.identities.Perm r.identities) : Lists b r' := by
  have hu := h.unambiguous.of_perm hp
  refine ⟨hu, fun owner => ?_⟩
  rw [h.entry]
  apply Option.ext
  rintro ⟨address, name⟩
  rw [← Registry.mem_identities h.unambiguous, ← Registry.mem_identities hu]
  exact hp.mem_iff.symm

end OracleBook.Lists

/-! ### Pages -/

def SeatView.of (s : Seat) : SeatView := ⟨s.owner, s.address, s.points⟩

/-- A page shows a feed, and the book knows whom it names. -/
structure PairView.Tells (b : OracleBook) (pair : CoinPair) (v : PairView) (f : PriceFeed) : Prop where
  pair_eq : f.pair = pair
  subscribed : v.subscribed = f.subscribed
  number : v.number = f.round.number
  lockUntil : v.lockUntil = f.round.lockUntil
  seats : v.seats = f.round.seats.map .of
  published : ∀ price block, v.published = some (price, block) →
    f.currentPrice = price ∧ f.lastPublicationBlock = block
  distinct : (v.seats.map (·.owner)).Nodup
  seated : ∀ s ∈ v.seats, ∃ name, b.get? s.owner = some (s.address, name)
  registered : ∀ owner, v.subscribed.contains owner → (b.get? owner).isSome

/-- The events of an owner's expulsion from a pair. -/
def expelEvents (owner : Address) (n : Nat) (pair : CoinPair) (f : PriceFeed) : List Event :=
  if f.isSubscribed owner || f.round.seatsOwner owner then
    .oracleUnsubscribed owner pair
      :: if f.round.seatsOwner owner then [.oracleLeftRound owner pair n] else []
  else []

/-- The events of an owner's seat that passes to another, if it does. -/
def yieldEvents (owner : Address) (r : Registry) (n : Nat) (pair : CoinPair) (f : PriceFeed) : List Event :=
  (f.yieldSeat? owner r).elim [] fun x =>
    [.oracleLeftRound x.1.removed pair n, .oracleJoinedRound x.1.added pair n]

theorem pair?_of_mem_expelEvents {owner : Address} {n : Nat} {pair : CoinPair} {f : PriceFeed} {e : Event}
    (he : e ∈ expelEvents owner n pair f) : e.pair? = some pair := by
  unfold expelEvents at he
  split at he
  · rcases List.mem_cons.1 he with rfl | he
    · rfl
    · split at he
      · rw [List.mem_singleton] at he
        rw [he]
        rfl
      · cases he
  · cases he

theorem pair?_of_mem_yieldEvents {owner : Address} {r : Registry} {n : Nat} {pair : CoinPair}
    {f : PriceFeed} {e : Event} (he : e ∈ yieldEvents owner r n pair f) : e.pair? = some pair := by
  unfold yieldEvents at he
  cases hy : f.yieldSeat? owner r with
  | none =>
    rw [hy] at he
    cases he
  | some x =>
    rw [hy, Option.elim_some, List.mem_cons, List.mem_singleton] at he
    rcases he with rfl | rfl <;> rfl

namespace PairView.Tells

variable {b : OracleBook} {pair : CoinPair} {v : PairView} {f f' : PriceFeed} {r : Registry}

theorem owners_eq (h : v.Tells b pair f) : v.seats.map (·.owner) = f.round.owners := by
  rw [h.seats, List.map_map]
  rfl

theorem round_distinct (h : v.Tells b pair f) : f.round.Distinct := by
  rw [Round.Distinct, ← h.owners_eq]
  exact h.distinct

/-- Parameters and lists of privileged accounts are not told. -/
theorem settings (h : v.Tells b pair f) (params : RoundParams) (readers emergencyPublishers : KeySet Address) :
    v.Tells b pair { f with params, readers, emergencyPublishers } :=
  ⟨h.pair_eq, h.subscribed, h.number, h.lockUntil, h.seats, h.published, h.distinct, h.seated, h.registered⟩

/-- A page goes on telling its feed while the book keeps the addresses of its seats and knows its
subscribers. -/
theorem of_book (h : v.Tells b pair f) {b' : OracleBook}
    (hs : ∀ s ∈ v.seats, ∃ name, b'.get? s.owner = some (s.address, name))
    (hr : ∀ owner, v.subscribed.contains owner → (b'.get? owner).isSome) : v.Tells b' pair f :=
  ⟨h.pair_eq, h.subscribed, h.number, h.lockUntil, h.seats, h.published, h.distinct, hs, hr⟩

/-- A page that no event told of tells a feed that just started. -/
theorem start {params : RoundParams} {ctx : BlockContext} (hs : PriceFeed.start pair params ctx = .ok f) :
    PairView.initial.Tells b pair f := by
  unfold PriceFeed.start at hs
  split at hs
  · cases hs
  · cases hs
    refine ⟨rfl, rfl, rfl, rfl, rfl, ?_, .nil, ?_, ?_⟩
    · intro price block hp
      cases hp
    · intro s hs
      cases hs
    · intro owner ho
      cases ho

theorem map_of_setExcluded (round : Round) (owner : Address) (excluded : Bool) :
    (round.setExcluded owner excluded).seats.map SeatView.of = round.seats.map SeatView.of := by
  unfold Round.setExcluded Round.update
  rw [List.map_map]
  apply List.map_congr_left
  intro s _
  rw [Function.comp_apply]
  split <;> rfl

/-! ### Subscriptions -/

theorem strike (h : v.Tells b pair f) (owner : Address) :
    (v.apply b (.oracleUnsubscribed owner pair)).Tells b pair
      { f with subscribed := f.subscribed.erase owner } where
  pair_eq := h.pair_eq
  subscribed := by
    show v.subscribed.erase owner = f.subscribed.erase owner
    rw [h.subscribed]
  number := h.number
  lockUntil := h.lockUntil
  seats := h.seats
  published := h.published
  distinct := h.distinct
  seated := h.seated
  registered o ho := by
    refine h.registered o ?_
    unfold PairView.apply at ho
    rw [Table.contains, Table.get?_erase] at ho
    split at ho
    · cases ho
    · exact ho

theorem setExcluded (h : v.Tells b pair f) (owner : Address) (excluded : Bool) :
    v.Tells b pair { f with round := f.round.setExcluded owner excluded } :=
  ⟨h.pair_eq, h.subscribed, h.number, h.lockUntil,
    h.seats.trans (map_of_setExcluded f.round owner excluded).symm, h.published, h.distinct, h.seated,
    h.registered⟩

theorem drop (h : v.Tells b pair f) (owner : Address) :
    (v.apply b (.oracleUnsubscribed owner pair)).Tells b pair (f.drop owner) :=
  (h.strike owner).setExcluded owner true

theorem dropSubscribed (h : v.Tells b pair f) (owner : Address) :
    (v.applyAll b (if f.isSubscribed owner then [.oracleUnsubscribed owner pair] else [])).Tells b pair
      (if f.isSubscribed owner then f.drop owner else f) := by
  split
  · exact h.drop owner
  · exact h

theorem drops (dropped : List Address) : ∀ {v : PairView} {f : PriceFeed},
    v.Tells b pair f → (v.applyAll b (dropped.map (.oracleUnsubscribed · pair))).Tells b pair
      (dropped.foldl PriceFeed.drop f) := by
  induction dropped with
  | nil => intro v f h; exact h
  | cons owner rest ih =>
    intro v f h
    rw [List.map_cons, applyAll_cons, List.foldl_cons]
    exact ih (h.drop owner)

theorem add (h : v.Tells b pair f) {owner : Address} (ho : (b.get? owner).isSome) :
    (v.apply b (.oracleSubscribed owner pair)).Tells b pair
      { f with subscribed := f.subscribed.add owner } where
  pair_eq := h.pair_eq
  subscribed := by
    show v.subscribed.add owner = f.subscribed.add owner
    rw [h.subscribed]
  number := h.number
  lockUntil := h.lockUntil
  seats := h.seats
  published := h.published
  distinct := h.distinct
  seated := h.seated
  registered o hadd := by
    unfold PairView.apply KeySet.add at hadd
    rw [Table.contains, Table.get?_insert] at hadd
    split at hadd
    · rename_i heq
      subst heq
      exact ho
    · exact h.registered o hadd

theorem seat (h : v.Tells b pair f) {owner address : Address} {name : String} (n : Nat)
    (ho : b.get? owner = some (address, name)) (hfree : ¬ f.round.seatsOwner owner) :
    (v.apply b (.oracleJoinedRound owner pair n)).Tells b pair (f.seat owner address) := by
  have hadr : b.addressOf owner = address := by
    rw [OracleBook.addressOf, ho]
    rfl
  have hseats : (v.apply b (.oracleJoinedRound owner pair n)).seats = v.seats ++ [⟨owner, address, 0⟩] := by
    show v.seats ++ [⟨owner, b.addressOf owner, 0⟩] = _
    rw [hadr]
  refine ⟨h.pair_eq, h.subscribed, h.number, h.lockUntil, ?_, h.published, ?_, ?_, h.registered⟩
  · rw [hseats, h.seats]
    simp [PriceFeed.seat, Round.seat, Seat.fresh, SeatView.of]
  · rw [hseats, List.map_append, h.owners_eq]
    have := h.round_distinct.seat address hfree
    rw [Round.Distinct, Round.owners_seat] at this
    exact this
  · rw [hseats]
    intro s hs
    rcases List.mem_append.1 hs with hs | hs
    · exact h.seated s hs
    · rw [List.mem_singleton] at hs
      subst hs
      exact ⟨name, ho⟩

theorem unseat (h : v.Tells b pair f) (owner : Address) (n : Nat) :
    (v.apply b (.oracleLeftRound owner pair n)).Tells b pair { f with round := f.round.unseat owner } := by
  refine ⟨h.pair_eq, h.subscribed, h.number, h.lockUntil, ?_, h.published, ?_, ?_, h.registered⟩
  · show v.seats.filter (·.owner ≠ owner) = (f.round.seats.filter (·.owner ≠ owner)).map .of
    rw [h.seats, List.filter_map]
    rfl
  · exact h.distinct.sublist (List.filter_sublist.map _)
  · exact fun s hs => h.seated s (List.mem_of_mem_filter hs)

theorem enlist (h : v.Tells b pair f) {owner address : Address} {name : String} (n : Nat)
    (ho : b.get? owner = some (address, name)) :
    (v.applyAll b (.oracleSubscribed owner pair
      :: if (f.enlist owner address).1 then [.oracleJoinedRound owner pair n] else [])).Tells b pair
      (f.enlist owner address).2 := by
  have hadd := h.add (by rw [ho]; rfl : (b.get? owner).isSome)
  rw [applyAll_cons]
  unfold PriceFeed.enlist
  simp only
  split
  · exact hadd.setExcluded owner false
  · rename_i hfree
    split
    · exact hadd.seat n ho hfree
    · exact hadd

theorem subscribe (h : v.Tells b pair f) (hb : b.Lists r) {owner : Address} {outcome : SubscribeOutcome}
    (hs : f.subscribe owner r = .ok (outcome, f')) (n : Nat) :
    (v.applyAll b (Network.subscriptionEvents owner pair n outcome)).Tells b pair f' := by
  unfold PriceFeed.subscribe at hs
  split at hs
  · cases hs
  · rename_i e he
    have ho : b.get? owner = some (e.address, e.name) := by
      rw [hb.entry, he]
      rfl
    split at hs
    · cases hs
    · split at hs
      · cases hs
      · rename_i evicted _
        cases hs
        unfold Network.subscriptionEvents
        rw [applyAll_append]
        cases evicted with
        | none => exact h.enlist n ho
        | some tail => exact (h.drop tail).enlist n ho

/-! ### Drops of stake -/

theorem expel (h : v.Tells b pair f) (owner : Address) (n : Nat) :
    (v.applyAll b (expelEvents owner n pair f)).Tells b pair (f.expel owner).2 := by
  unfold PriceFeed.expel expelEvents
  by_cases hseated : f.round.seatsOwner owner
  · rw [hseated, Bool.or_true, if_pos rfl, if_pos rfl]
    exact (h.strike owner).unseat owner n
  · rw [Round.unseat_of_not_seatsOwner hseated]
    by_cases hsub : f.isSubscribed owner
    · rw [hsub, Bool.true_or, if_pos rfl, if_neg hseated]
      exact h.strike owner
    · have hnone : f.subscribed.get? owner = none := by
        simpa [PriceFeed.isSubscribed, Table.contains] using hsub
      rw [Table.erase_of_get?_eq_none hnone]
      simp only [hsub, hseated, Bool.or_self, Bool.false_eq_true, ↓reduceIte]
      exact h

theorem yieldSeat (h : v.Tells b pair f) (hb : b.Lists r) (owner : Address) (n : Nat) :
    (v.applyAll b (yieldEvents owner r n pair f)).Tells b pair
      ((f.yieldSeat? owner r).elim f (·.2)) := by
  unfold yieldEvents
  cases hy : f.yieldSeat? owner r with
  | none => exact h
  | some x =>
    obtain ⟨e, he, -, hwaits, hswap, hf⟩ := PriceFeed.yieldSeat?_eq_some hy
    simp only [Option.elim_some]
    rw [hswap, hf]
    exact (h.unseat owner n).seat n (hb.get?_of_entry he)
      fun hseated => hwaits (Round.seatsOwner_of_unseat hseated)

/-! ### Prices and rounds -/

theorem address_eq_iff (h : v.Tells b pair f) (hb : b.Lists r) {s t : Seat} (hs : s ∈ f.round.seats)
    (ht : t ∈ f.round.seats) : s.address = t.address ↔ s.owner = t.owner := by
  obtain ⟨name, hsn⟩ := h.seated (.of s) (h.seats ▸ List.mem_map_of_mem hs)
  obtain ⟨name', htn⟩ := h.seated (.of t) (h.seats ▸ List.mem_map_of_mem ht)
  constructor
  · intro heq
    exact hb.owner_eq (show b.get? s.owner = some (s.address, name) from hsn)
      (show b.get? t.owner = some (s.address, name') from heq ▸ htn)
  · intro heq
    have htn : b.get? s.owner = some (t.address, name') := heq ▸ htn
    rw [show b.get? s.owner = some (s.address, name) from hsn, Option.some.injEq, Prod.mk.injEq] at htn
    exact htn.1

theorem publish (h : v.Tells b pair f) (hb : b.Lists r) {caller : Address} {m : PriceMessage}
    {signatures : List Signature} {ctx : BlockContext} {outcome : PublishOutcome}
    (hp : f.publish caller m signatures ctx = .ok (outcome, f')) (voted : Address) :
    (v.apply b (.pricePublished pair caller voted m.price ctx.number)).Tells b pair f' := by
  obtain ⟨-, seat, hseat, -, -, rfl⟩ := PriceFeed.publish_eq_ok.1 hp
  have hmem : seat ∈ f.round.seats := List.mem_of_find?_eq_some hseat
  have hadr : seat.address = caller := by simpa using List.find?_some hseat
  subst hadr
  have hseats : (v.apply b (.pricePublished pair seat.address voted m.price ctx.number)).seats
      = (f.round.award seat.owner).seats.map .of := by
    show v.seats.map _ = _
    unfold Round.award Round.update
    rw [h.seats, List.map_map, List.map_map]
    apply List.map_congr_left
    intro s hs
    rw [Function.comp_apply, Function.comp_apply]
    by_cases heq : s.owner = seat.owner
    · have hadr := (h.address_eq_iff hb hs hmem).2 heq
      rw [if_pos heq, if_pos (show (SeatView.of s).address = seat.address from hadr)]
      rfl
    · have hadr := mt (h.address_eq_iff hb hs hmem).1 heq
      rw [if_neg heq, if_neg (show (SeatView.of s).address ≠ seat.address from hadr)]
  refine ⟨h.pair_eq, h.subscribed, h.number, h.lockUntil, hseats, ?_, ?_, ?_, h.registered⟩
  · intro price block hpub
    cases hpub
    exact ⟨rfl, rfl⟩
  · rw [hseats, List.map_map]
    show (f.round.award seat.owner).owners.Nodup
    rw [Round.owners_award]
    exact h.round_distinct
  · show ∀ s ∈ v.seats.map _, _
    intro s hs
    obtain ⟨t, ht, rfl⟩ := List.mem_map.1 hs
    split
    · exact h.seated t ht
    · exact h.seated t ht

theorem emergencyPublish (h : v.Tells b pair f) {caller : Address} {price : Amount} {ctx : BlockContext}
    (hp : f.emergencyPublish caller price ctx = .ok f') :
    (v.apply b (.emergencyPricePublished pair caller price ctx.number)).Tells b pair f' := by
  unfold PriceFeed.emergencyPublish at hp
  repeat' split at hp
  all_goals cases hp
  refine ⟨h.pair_eq, h.subscribed, h.number, h.lockUntil, h.seats, ?_, h.distinct, h.seated, h.registered⟩
  intro price' block hpub
  cases hpub
  exact ⟨rfl, rfl⟩

theorem mem_selection {owner address : Address} (hs : (owner, address) ∈ f.selection r) :
    ∃ e ∈ r.entries, e.owner = owner ∧ e.address = address := by
  obtain ⟨e, he, heq⟩ := List.mem_map.1 hs
  exact ⟨e, List.mem_of_mem_filter (List.mem_of_mem_take he), (Prod.mk.inj heq).1, (Prod.mk.inj heq).2⟩

theorem nextRound (h : v.Tells b pair f) (hb : b.Lists r) (caller : Address) (lockUntil : Nat) :
    (v.apply b (.newRound pair caller (f.round.number + 1) lockUntil
      ((f.selection r).map (·.2)))).Tells b pair (f.nextRound (f.selection r) lockUntil) := by
  have hseats : (v.apply b (.newRound pair caller (f.round.number + 1) lockUntil
      ((f.selection r).map (·.2)))).seats = (f.selection r).map fun s => ⟨s.1, s.2, 0⟩ := by
    show ((f.selection r).map (·.2)).map _ = _
    rw [List.map_map]
    apply List.map_congr_left
    rintro ⟨owner, address⟩ hs
    obtain ⟨e, he, rfl, rfl⟩ := mem_selection hs
    rw [Function.comp_apply, hb.ownerOf_eq he]
  refine ⟨h.pair_eq, h.subscribed, rfl, rfl, ?_, h.published, ?_, ?_, h.registered⟩
  · rw [hseats]
    unfold PriceFeed.nextRound
    rw [List.map_map]
    rfl
  · rw [hseats, List.map_map]
    exact PriceFeed.nodup_selection f hb.unambiguous
  · rw [hseats]
    intro s hs
    obtain ⟨⟨owner, address⟩, hsel, rfl⟩ := List.mem_map.1 hs
    obtain ⟨e, he, rfl, rfl⟩ := mem_selection hsel
    exact ⟨e.name, hb.get?_of_entry he⟩

theorem switchRound (h : v.Tells b pair f) (hb : b.Lists r) {L : Type} [CollateralLedger L] {ledger : L}
    {ctx : BlockContext} {outcome : SwitchOutcome}
    (hs : (f.switchRound r ledger ctx).result = .ok outcome) (caller : Address) :
    (v.applyAll b (Network.switchEvents caller pair outcome)).Tells b pair
      (f.switchRound r ledger ctx).state.1 := by
  rcases PriceFeed.switchRound_cases f r ledger ctx with
    ⟨e, he, -⟩ | ⟨outcome', hok, hf, hround, hselected⟩
  · rw [hs] at he
    cases he
  · rw [hs] at hok
    cases hok
    have rewards (ps : List Payout) : v.applyAll b (ps.map fun p =>
        .oracleRewardTransfer pair outcome.previousRound p.owner p.address p.amount) = v := by
      induction ps with
      | nil => rfl
      | cons p ps ih => exact ih
    unfold Network.switchEvents
    rw [applyAll_append, rewards, hf, hround, hselected]
    exact h.nextRound hb caller outcome.lockUntil

end PairView.Tells

end PriceOracle
