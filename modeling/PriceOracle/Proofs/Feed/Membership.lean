import PriceOracle.Proofs.Feed.Idleness
/-! Who is in the round. A seat's mark and the list are two notes of who is subscribed, and what is noted of
the last round that an owner was seated in is a third of who has a seat. They are kept apart, and every call
leaves them in agreement. Seats are added only where the round has fewer than it may select, or in place of
others. -/
namespace PriceOracle.PriceFeed

variable {L : Type} [CollateralLedger L] {f f' : PriceFeed} {owner : Address} {subscribed : KeySet Address}
  {takers : List Address}

/-! ### Marks -/

/-- A seat is marked as excluded exactly if its owner is not on the list. -/
def Marked (f : PriceFeed) : Prop := ∀ s ∈ f.round.seats, s.excluded ↔ ¬ f.isSubscribed s.owner

theorem Marked.setExcluded (h : f.Marked) {excluded : Bool}
    (howner : subscribed.contains owner ↔ ¬ excluded)
    (hothers : ∀ o ≠ owner, subscribed.contains o ↔ f.isSubscribed o) :
    Marked { f with subscribed, round := f.round.setExcluded owner excluded } := by
  intro s hs
  obtain ⟨t, ht, rfl⟩ := List.mem_map.1 hs
  by_cases heq : t.owner = owner
  · rw [if_pos heq]
    show excluded ↔ ¬ subscribed.contains t.owner
    rw [heq, howner, not_not]
  · rw [if_neg heq]
    show t.excluded ↔ ¬ subscribed.contains t.owner
    rw [hothers _ heq]
    exact h t ht

/-- Without an owner's seat the list may say of that owner what it likes. -/
theorem Marked.unseat (h : f.Marked) (hothers : ∀ o ≠ owner, subscribed.contains o ↔ f.isSubscribed o) :
    Marked { f with subscribed, round := f.round.unseat owner } := by
  intro s hs
  obtain ⟨hs, hne⟩ := List.mem_filter.1 hs
  show s.excluded ↔ ¬ subscribed.contains s.owner
  rw [hothers _ (of_decide_eq_true hne)]
  exact h s hs

/-- Those who are on the list take their seats without a mark. -/
theorem Marked.seat (h : f.Marked) (hlisted : f.isSubscribed owner) (address : Address) :
    (f.seat owner address).Marked := by
  intro s hs
  rcases List.mem_append.1 hs with hs | hs
  · exact h s hs
  · obtain rfl := List.mem_singleton.1 hs
    exact iff_of_false Bool.false_ne_true (not_not.2 hlisted)

theorem Marked.drop (h : f.Marked) (owner : Address) : (f.drop owner).Marked :=
  h.setExcluded (by simp [Table.contains_erase]) fun o hne => by simp [Table.contains_erase, hne, isSubscribed]

theorem Marked.foldl_drop (h : f.Marked) (dropped : List Address) :
    (dropped.foldl PriceFeed.drop f).Marked :=
  List.foldlRecOn dropped PriceFeed.drop h fun _ hmarked owner _ => hmarked.drop owner

theorem Marked.enlist (h : f.Marked) (owner address : Address) : (f.enlist owner address).2.Marked := by
  have hadd : ∀ o, (f.subscribed.add owner).contains o ↔ o = owner ∨ f.isSubscribed o := fun o =>
    Table.contains_insert f.subscribed owner o ()
  have hothers : ∀ o ≠ owner, (f.subscribed.add owner).contains o ↔ f.isSubscribed o := fun o hne => by
    rw [hadd, or_iff_right hne]
  have hlisted : (f.subscribed.add owner).contains owner := (hadd owner).2 (.inl rfl)
  unfold PriceFeed.enlist
  dsimp only
  split
  · exact h.setExcluded (iff_of_true hlisted Bool.false_ne_true) hothers
  · rename_i hfree
    have hadded : Marked { f with subscribed := f.subscribed.add owner } := by
      have hunseat := h.unseat hothers
      rwa [Round.unseat_of_not_seatsOwner hfree] at hunseat
    split
    · exact hadded.seat hlisted address
    · exact hadded

theorem marked_nextRound (f : PriceFeed) (registry : Registry) (lockUntil : Nat) :
    (f.nextRound (f.selection registry) lockUntil).Marked := by
  intro s hs
  have hseated : (f.nextRound (f.selection registry) lockUntil).round.seatsOwner s.owner :=
    Round.seatsOwner_iff.2 (List.mem_map_of_mem hs)
  have hlisted : f.isSubscribed s.owner := isSubscribed_of_nextRound hseated
  obtain ⟨x, -, rfl⟩ := List.mem_map.1 hs
  exact iff_of_false Bool.false_ne_true (not_not.2 hlisted)

theorem Marked.award (h : f.Marked) (owner : Address) :
    Marked { f with round := f.round.award owner } := by
  intro s hs
  obtain ⟨t, ht, rfl⟩ := List.mem_map.1 hs
  split <;> exact h t ht

omit [CollateralLedger L] in
/-- Every call marks those whom it strikes off the list, and takes the marks of those whom it puts on it. -/
theorem Marked.of_effect (h : f.Marked) {call : Call L} (hf : f.Effect call f') : f'.Marked := by
  cases hf with
  | idle | readers | publishers => exact h
  | @listed owner _ e evicted he hnew hevicted =>
    cases evicted with
    | none => exact h.enlist owner e.address
    | some tail => exact (h.drop tail).enlist owner e.address
  | dropped hlisted => exact h.drop _
  | expelled owner => exact h.unseat fun o hne => by simp [Table.contains_erase, hne, isSubscribed]
  | yielded he hlisted hwaits hseated => exact (h.unseat fun _ _ => .rfl).seat hlisted _
  | published hp =>
    obtain ⟨-, seat, -, -, -, rfl⟩ := publish_eq_ok.1 hp
    exact h.award seat.owner
  | emergency hp =>
    obtain ⟨-, rfl, -⟩ := emergencyPublish_eq_ok hp
    exact h
  | @switched registry _ _ lockUntil => exact f.marked_nextRound registry lockUntil
  | @capped value _ dropped _ hs =>
    obtain ⟨-, -, rfl⟩ := setMaxSubscribed_eq_ok hs
    have hcap : Marked { f with params := { f.params with maxSubscribed := value } } := h
    exact hcap.foldl_drop dropped
  | params hp hcap =>
    obtain ⟨-, rfl⟩ := withParams_eq_ok hp
    exact h

/-! ### Agreement -/

/-- Nobody has two seats, the marks agree with the list, and of every owner with a seat it is noted that it was
seated in the running round. -/
structure Consistent (f : PriceFeed) : Prop where
  distinct : f.round.Distinct
  marked : f.Marked
  lastSelected : ∀ s ∈ f.round.seats, f.lastSelected.get? s.owner = some f.round.number

theorem consistent_start {pair : CoinPair} {params : RoundParams} {ctx : BlockContext}
    (h : PriceFeed.start pair params ctx = .ok f) : f.Consistent := by
  have hseats : f.round.seats = [] := by
    rw [(paced_start h).1]
    rfl
  refine ⟨?_, fun s hs => ?_, fun s hs => ?_⟩
  · rw [(paced_start h).1]
    exact Round.distinct_initial
  · simp [hseats] at hs
  · simp [hseats] at hs

/-- Whoever has a seat took it in the running round, before or now. -/
theorem Seating.lastSelected (h : f.Seating f' takers)
    (hf : ∀ s ∈ f.round.seats, f.lastSelected.get? s.owner = some f.round.number) {s : Seat}
    (hs : s ∈ f'.round.seats) : f'.lastSelected.get? s.owner = some f'.round.number := by
  rw [h.noted]
  split
  · rfl
  · rename_i hout
    obtain ⟨hseat, hnumber⟩ :=
      (h.kept s.owner (Round.seatsOwner_iff.2 (List.mem_map_of_mem hs))).resolve_left hout
    obtain ⟨t, ht, howner⟩ := List.mem_map.1 (Round.seatsOwner_iff.1 hseat)
    rw [← howner, hf t ht, hnumber]

theorem Consistent.after (h : f.Consistent) {call : Call L} (hc : call.WellFormed) :
    (f.after call).Consistent := by
  have heffect := f.effect_after call
  obtain ⟨takers, hseating⟩ := seating_of_effect heffect
  exact ⟨distinct_of_effect h.distinct hc heffect, h.marked.of_effect heffect,
    fun s hs => hseating.lastSelected h.lastSelected hs⟩

theorem Consistent.run (h : f.Consistent) {calls : List (Call L)}
    (hcalls : ∀ call ∈ calls, call.WellFormed) : (f.run calls).Consistent :=
  run_induction Consistent (fun h hc => h.after hc) h hcalls

/-! ### The number of seats -/

/-- If seats are added, then to no more than the round may select, under the same parameters. -/
def GrowsWithin (f f' : PriceFeed) : Prop :=
  f.round.seats.length < f'.round.seats.length →
    f'.round.seats.length ≤ f.params.maxOracles ∧ f'.params = f.params

theorem GrowsWithin.of_le (h : f'.round.seats.length ≤ f.round.seats.length) : f.GrowsWithin f' :=
  fun hlt => absurd hlt (Nat.not_lt.2 h)

theorem length_foldl_drop (dropped : List Address) (f : PriceFeed) :
    (dropped.foldl drop f).round.seats.length = f.round.seats.length := by
  rw [← Round.length_owners, owners_foldl_drop, Round.length_owners]

/-- Who is put on the list is seated if there is a seat to have. -/
theorem length_enlist (f : PriceFeed) (owner address : Address) :
    (f.enlist owner address).2.round.seats.length ≤ f.round.seats.length ∨
      (f.enlist owner address).2.round.seats.length ≤ f.params.maxOracles := by
  unfold enlist
  dsimp only
  split
  · left
    rw [← Round.length_owners, Round.owners_setExcluded, Round.length_owners]
  · split
    · rename_i hroom
      right
      show (f.round.seat owner address).seats.length ≤ _
      rw [Round.length_seat]
      exact hroom
    · exact .inl (Nat.le_refl _)

theorem growsWithin_listed (f : PriceFeed) (evicted : Option Address) (owner address : Address) :
    f.GrowsWithin ((evicted.elim f f.drop).enlist owner address).2 := by
  have hroom : (evicted.elim f f.drop).round.seats.length = f.round.seats.length ∧
      (evicted.elim f f.drop).params = f.params := by
    cases evicted with
    | none => exact ⟨rfl, rfl⟩
    | some tail => exact ⟨length_foldl_drop [tail] f, rfl⟩
  intro hlt
  refine ⟨?_, (f.sameTerms_listed evicted owner address).2⟩
  rcases (evicted.elim f f.drop).length_enlist owner address with hle | hle
  · omega
  · rwa [hroom.2] at hle

theorem length_yielded (h : f.round.Distinct) (hseated : f.round.seatsOwner owner) (other address : Address) :
    ({ f with round := f.round.unseat owner }.seat other address).round.seats.length
      = f.round.seats.length := by
  show ((f.round.unseat owner).seat other address).seats.length = _
  rw [Round.length_seat, h.length_unseat hseated]

omit [CollateralLedger L] in
theorem growsWithin_of_effect (h : f.round.Distinct) {call : Call L} (hf : f.Effect call f') :
    f.GrowsWithin f' := by
  cases hf with
  | idle | readers | publishers => exact .of_le (Nat.le_refl _)
  | @listed owner _ e evicted he hnew hevicted => exact f.growsWithin_listed evicted owner e.address
  | @dropped owner hlisted => exact .of_le (Nat.le_of_eq (length_foldl_drop [owner] f))
  | expelled owner => exact .of_le (f.round.length_unseat_le owner)
  | @yielded owner _ e he hlisted hwaits hseated =>
    exact .of_le (Nat.le_of_eq (length_yielded h hseated e.owner e.address))
  | published hp =>
    obtain ⟨-, seat, -, -, -, rfl⟩ := publish_eq_ok.1 hp
    exact .of_le (Nat.le_of_eq (List.length_map _))
  | emergency hp =>
    obtain ⟨-, rfl, -⟩ := emergencyPublish_eq_ok hp
    exact .of_le (Nat.le_refl _)
  | @switched registry _ _ lockUntil =>
    refine fun _ => ⟨?_, rfl⟩
    simp only [nextRound, selection, List.length_map]
    exact List.length_take_le _ _
  | @capped value _ dropped _ hs =>
    obtain ⟨-, -, rfl⟩ := setMaxSubscribed_eq_ok hs
    exact .of_le (Nat.le_of_eq (length_foldl_drop dropped _))
  | params hp hcap =>
    obtain ⟨-, rfl⟩ := withParams_eq_ok hp
    exact .of_le (Nat.le_refl _)

theorem length_yieldSeat (h : f.round.Distinct) (owner : Address) (registry : Registry) :
    (f.after (.yieldSeat owner registry : Call L)).round.seats.length = f.round.seats.length := by
  simp only [after]
  cases hy : f.yieldSeat? owner registry with
  | none => rfl
  | some x =>
    obtain ⟨e, -, -, -, -, hx⟩ := yieldSeat?_eq_some hy
    rw [Option.elim_some, hx]
    exact length_yielded h (seatsOwner_of_yieldSeat? hy) e.owner e.address

/-- From the start of a feed, over any calls with any registries that have one oracle an owner and an address,
accepted or refused. Nobody has two seats; a seat is marked as excluded exactly if its owner is not on the list; of every
owner with a seat it is noted that it was seated in the running round. No call adds seats beyond what a round
may select at that moment, and passing a seat on leaves their number. -/
theorem consistent_run {pair : CoinPair} {params : RoundParams} {ctx : BlockContext}
    (hf : PriceFeed.start pair params ctx = .ok f) {calls : List (Call L)}
    (hcalls : ∀ call ∈ calls, call.WellFormed) :
    (f.run calls).Consistent ∧
      (∀ call : Call L, (f.run calls).GrowsWithin ((f.run calls).after call)) ∧
      ∀ owner registry, ((f.run calls).after (.yieldSeat owner registry : Call L)).round.seats.length
        = (f.run calls).round.seats.length := by
  have h : (f.run calls).Consistent := (consistent_start hf).run hcalls
  exact ⟨h, fun call => growsWithin_of_effect h.distinct (effect_after _ call), length_yieldSeat h.distinct⟩

/-- The third subscriber waits, for a round selects two. The first unsubscribes and keeps its seat, marked. The
second's stake falls below the third's, and its seat passes to the third. -/
theorem consistent_run_of_swap :
    let first := Address.ofNat 1
    let second := Address.ofNat 2
    let third := Address.ofNat 3
    let entry (owner : Address) (stake : Amount) (seq : Nat) : OracleEntry :=
      ⟨owner, owner, "host", stake, .empty, seq⟩
    let before : Registry := ⟨[entry first 30 0, entry second 20 1, entry third 10 2], 3⟩
    let after : Registry := ⟨[entry first 30 0, entry third 10 2, entry second 5 1], 3⟩
    let params : RoundParams := { minOracles := 1, maxOracles := 2 }
    let f : PriceFeed := ⟨default, params, .initial, .empty, .empty, 100000000, 5, 50, .empty, .empty⟩
    let calls : List (Call Ledger) := [
      .subscribe first before,
      .subscribe second before,
      .subscribe third before,
      .unsubscribe first,
      .yieldSeat second after]
    PriceFeed.start default params ⟨5, 50⟩ = .ok f ∧ (∀ call ∈ calls, call.WellFormed) ∧
      (f.run calls).Consistent ∧
      (f.run calls).round.seats = [⟨first, first, 0, true⟩, ⟨third, third, 0, false⟩] ∧
      (f.run calls).subscribed.keys = [second, third] := by
  intro first second third entry before after params f calls
  have hf : PriceFeed.start default params ⟨5, 50⟩ = .ok f := rfl
  have hcalls : ∀ call ∈ calls, call.WellFormed := by decide +kernel
  exact ⟨hf, hcalls, (consistent_run hf hcalls).1, by decide +kernel, by decide +kernel⟩

end PriceOracle.PriceFeed
