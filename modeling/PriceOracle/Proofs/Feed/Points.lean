import PriceOracle.Proofs.Feed.Membership
import PriceOracle.Proofs.Feed.Payouts
/-! Why points never overflow. A point is given for a publication, and each one that is accepted comes in a
later block than the last. So the blocks since the start of a feed cover the points of its round, and since
blocks are numbered by words, so are points and their sums. -/
namespace PriceOracle

/-! ### Sums of points -/

namespace Round

variable {r : Round} {owner : Address}

theorem totalPoints_eq_sum (r : Round) : r.totalPoints = (r.seats.map (·.points)).sum := by
  unfold totalPoints
  rw [List.sum, List.foldr_map]

theorem totalPoints_setExcluded (r : Round) (owner : Address) (excluded : Bool) :
    (r.setExcluded owner excluded).totalPoints = r.totalPoints := by
  rw [totalPoints_eq_sum, totalPoints_eq_sum]
  congr 1
  show (r.seats.map _).map _ = _
  rw [List.map_map]
  refine List.map_congr_left fun s _ => ?_
  rw [Function.comp_apply]
  split <;> rfl

theorem totalPoints_unseat_le (r : Round) (owner : Address) : (r.unseat owner).totalPoints ≤ r.totalPoints := by
  rw [totalPoints_eq_sum, totalPoints_eq_sum]
  exact (List.filter_sublist.map _).sum_le_sum fun _ _ => Nat.zero_le _

theorem totalPoints_seat (r : Round) (owner address : Address) :
    (r.seat owner address).totalPoints = r.totalPoints := by
  rw [totalPoints_eq_sum, totalPoints_eq_sum]
  simp [seat, Seat.fresh]

/-- A publication is worth one point, whoever proposed it. -/
theorem Distinct.totalPoints_award (h : r.Distinct) {address : Address} {s : Seat}
    (hs : r.seatByAddress? address = some s) : (r.award s.owner).totalPoints = r.totalPoints + 1 := by
  obtain ⟨before, after, hseats, -, -, haward⟩ := award_seatByAddress? h hs
  rw [haward, totalPoints_eq_sum, totalPoints_eq_sum, hseats]
  simp only [List.map_append, List.map_cons, List.sum_append, List.sum_cons]
  omega

theorem sum_points_le {first : List Seat} (h : first <+: r.seats) :
    (first.map (·.points)).sum ≤ r.totalPoints := by
  rw [totalPoints_eq_sum]
  exact (h.sublist.map _).sum_le_sum fun _ _ => Nat.zero_le _

end Round

/-! ### Points and blocks -/

namespace PriceFeed

variable {L : Type} [CollateralLedger L] {f f' : PriceFeed} {block : Nat}

theorem totalPoints_foldl_drop (dropped : List Address) (f : PriceFeed) :
    (dropped.foldl drop f).round.totalPoints = f.round.totalPoints :=
  view_foldl_drop (·.round.totalPoints) (fun f owner => f.round.totalPoints_setExcluded owner true) dropped f

theorem totalPoints_enlist (f : PriceFeed) (owner address : Address) :
    (f.enlist owner address).2.round.totalPoints = f.round.totalPoints := by
  unfold enlist
  dsimp only
  split
  · exact f.round.totalPoints_setExcluded owner false
  · split
    · exact f.round.totalPoints_seat owner address
    · rfl

omit [CollateralLedger L] in
/-- A call adds no points, or one point for a publication in a later block. -/
theorem totalPoints_of_effect (h : f.round.Distinct) {call : Call L} (hf : f.Effect call f') :
    f'.round.totalPoints ≤ f.round.totalPoints ∨
      f'.round.totalPoints = f.round.totalPoints + 1 ∧ f.lastPublicationBlock < f'.lastPublicationBlock := by
  cases hf with
  | idle | readers | publishers => exact .inl (Nat.le_refl _)
  | @listed owner _ e evicted he hnew hevicted =>
    left
    rw [totalPoints_enlist]
    cases evicted with
    | none => exact Nat.le_refl _
    | some tail => exact Nat.le_of_eq (f.round.totalPoints_setExcluded tail true)
  | @dropped owner hlisted => exact .inl (Nat.le_of_eq (f.round.totalPoints_setExcluded owner true))
  | expelled owner => exact .inl (f.round.totalPoints_unseat_le owner)
  | @yielded owner _ e he hlisted hwaits hseated =>
    left
    show ((f.round.unseat owner).seat e.owner e.address).totalPoints ≤ _
    rw [Round.totalPoints_seat]
    exact f.round.totalPoints_unseat_le owner
  | published hp =>
    obtain ⟨hcertified, seat, hseat, -, -, rfl⟩ := publish_eq_ok.1 hp
    exact .inr ⟨h.totalPoints_award hseat, hcertified.later⟩
  | emergency hp =>
    obtain ⟨-, rfl, -⟩ := emergencyPublish_eq_ok hp
    exact .inl (Nat.le_refl _)
  | @switched registry _ _ lockUntil =>
    -- the seats of the new round are fresh
    have hzero : (f.nextRound (f.selection registry) lockUntil).round.totalPoints = 0 := by
      rw [Round.totalPoints_eq_sum]
      simp [nextRound, Seat.fresh, Function.comp_def]
    exact .inl (hzero ▸ Nat.zero_le _)
  | @capped value _ dropped _ hs =>
    obtain ⟨-, -, rfl⟩ := setMaxSubscribed_eq_ok hs
    exact .inl (Nat.le_of_eq (totalPoints_foldl_drop dropped _))
  | params hp hcap =>
    obtain ⟨-, rfl⟩ := withParams_eq_ok hp
    exact .inl (Nat.le_refl _)

/-- The blocks from some block to the last publication cover the points of the round. -/
structure Covers (f : PriceFeed) (block : Nat) : Prop where
  distinct : f.round.Distinct
  dated : f.lastPublicationBlock < Word.limit
  le : block + f.round.totalPoints ≤ f.lastPublicationBlock

theorem covers_start {pair : CoinPair} {params : RoundParams} {ctx : BlockContext}
    (h : PriceFeed.start pair params ctx = .ok f) (hctx : ctx.number < Word.limit) : f.Covers ctx.number := by
  unfold PriceFeed.start at h
  split at h
  · cases h
  · cases h
    exact ⟨Round.distinct_initial, hctx, Nat.le_refl _⟩

theorem Covers.after (h : f.Covers block) {call : Call L} (hc : call.WellFormed) (hd : call.Dated) :
    (f.after call).Covers block := by
  have heffect := f.effect_after call
  have hadvances : f.Advances call := advances h.dated hd
  have hblock := hadvances.le
  have hcovers := h.le
  refine ⟨distinct_of_effect h.distinct hc heffect, hadvances.dated, ?_⟩
  rcases totalPoints_of_effect h.distinct heffect with hle | ⟨heq, hlater⟩
  · omega
  · omega

theorem Covers.run (h : f.Covers block) {calls : List (Call L)}
    (hcalls : ∀ call ∈ calls, call.WellFormed ∧ call.Dated) : (f.run calls).Covers block :=
  run_induction (·.Covers block) (fun h hc => h.after hc.1 hc.2) h hcalls

/-- An accepted publication leaves its proposer with a number of points that is a word. -/
theorem Covers.points_lt (h : f.Covers block) {caller : Address} {m : PriceMessage}
    {signatures : List Signature} {ctx : BlockContext} (hctx : ctx.number < Word.limit)
    {outcome : PublishOutcome} (hp : f.publish caller m signatures ctx = .ok (outcome, f')) :
    outcome.points < Word.limit := by
  obtain ⟨hcertified, seat, hseat, -, hpoints, -⟩ := publish_eq_ok.1 hp
  have hlater := hcertified.later
  have hcovers := h.le
  have hone : seat.points ≤ f.round.totalPoints := by
    rw [Round.totalPoints_eq_sum]
    exact List.le_sum_of_mem (List.mem_map_of_mem (List.mem_of_find?_eq_some hseat))
  omega

/-- From the start of a feed at some block, over any calls with any registries that have one oracle an owner and
an address, at blocks that are words in any order, accepted or refused. All points of the round together are no more than
the blocks from that block to the last publication. So their sum is a word, as is every sum that it is counted
up by from the first seat on, and what an accepted publication raises its proposer's points to. -/
theorem totalPoints_run {pair : CoinPair} {params : RoundParams} {ctx : BlockContext}
    (hf : PriceFeed.start pair params ctx = .ok f) (hctx : ctx.number < Word.limit) {calls : List (Call L)}
    (hcalls : ∀ call ∈ calls, call.WellFormed ∧ call.Dated) :
    ctx.number + (f.run calls).round.totalPoints ≤ (f.run calls).lastPublicationBlock ∧
      (f.run calls).round.totalPoints < Word.limit ∧
      (∀ first, first <+: (f.run calls).round.seats → (first.map (·.points)).sum < Word.limit) ∧
      ∀ caller m signatures (now : BlockContext) outcome f', now.number < Word.limit →
        (f.run calls).publish caller m signatures now = .ok (outcome, f') → outcome.points < Word.limit := by
  have h : (f.run calls).Covers ctx.number := (covers_start hf hctx).run hcalls
  have hcovers := h.le
  have hdated := h.dated
  refine ⟨hcovers, by omega, fun first hfirst => ?_, fun _ _ _ _ _ _ hnow hp => h.points_lt hnow hp⟩
  have hsum := Round.sum_points_le hfirst
  omega

/-- Two publications in the two blocks after the start: there are as many points as there can be. -/
theorem totalPoints_run_of_two_publications :
    let calls : List (Call Ledger) := [
      .subscribe (.ofNat 1) TwoSeats.registry,
      .publish TwoSeats.first TwoSeats.proposal [TwoSeats.signature] ⟨6, 60⟩,
      .subscribe (.ofNat 2) TwoSeats.registry,
      .publish TwoSeats.second TwoSeats.counterproposal TwoSeats.cosignatures ⟨7, 70⟩]
    let f := TwoSeats.start.run calls
    PriceFeed.start default {} ⟨5, 50⟩ = .ok TwoSeats.start ∧ 5 < Word.limit ∧
      (∀ call ∈ calls, call.WellFormed ∧ call.Dated) ∧
      5 + f.round.totalPoints ≤ f.lastPublicationBlock ∧
      f.round.totalPoints = 2 ∧ f.lastPublicationBlock = 7 := by
  intro calls f
  have hstart : PriceFeed.start default {} ⟨5, 50⟩ = .ok TwoSeats.start := rfl
  have hblock : 5 < Word.limit := by decide
  have hcalls : ∀ call ∈ calls, call.WellFormed ∧ call.Dated := by decide +kernel
  have hfirst : TwoSeats.subscribed.after
      (.publish TwoSeats.first TwoSeats.proposal [TwoSeats.signature] ⟨6, 60⟩ : Call Ledger)
        = TwoSeats.published := by
    rw [after, TwoSeats.publish_proposal]
    rfl
  have hsecond : TwoSeats.joined.after
      (.publish TwoSeats.second TwoSeats.counterproposal TwoSeats.cosignatures ⟨7, 70⟩ : Call Ledger)
        = TwoSeats.republished := by
    rw [after, TwoSeats.publish_counterproposal]
    rfl
  have hf : f = TwoSeats.republished := by
    simp only [f, calls]
    rw [run, List.foldl_cons, List.foldl_cons, List.foldl_cons, List.foldl_cons, List.foldl_nil,
      ← TwoSeats.subscribed, hfirst, ← TwoSeats.joined, hsecond]
  obtain ⟨hcovered, -⟩ := totalPoints_run hstart hblock hcalls
  refine ⟨hstart, hblock, hcalls, hcovered, ?_, ?_⟩
  · rw [hf]
    decide +kernel
  · rw [hf]
    decide +kernel

end PriceFeed

end PriceOracle
