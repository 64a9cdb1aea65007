import PriceOracle.Proofs.Feed.Subscribers
/-! Seats that are kept. In a round that goes on, an owner's seat stays with at least its points through
everything but its own expulsion and the passing on of its own seat. -/
namespace PriceOracle

/-! ### Rounds -/

namespace Round

/-- The round goes on, and an owner with a seat in it keeps the seat and its points. -/
structure Retains (x x' : Round) (owner : Address) : Prop where
  number : x'.number = x.number
  seat : ∀ s, x.seatByOwner? owner = some s → ∃ s', x'.seatByOwner? owner = some s' ∧ s.points ≤ s'.points

variable {x x' x'' : Round} {owner other : Address}

theorem Retains.refl (x : Round) (owner : Address) : x.Retains x owner :=
  ⟨rfl, fun s hs => ⟨s, hs, Nat.le_refl _⟩⟩

theorem Retains.trans (h : x.Retains x' owner) (h' : x'.Retains x'' owner) : x.Retains x'' owner := by
  refine ⟨h'.number.trans h.number, fun s hs => ?_⟩
  obtain ⟨s', hs', hle⟩ := h.seat s hs
  obtain ⟨s'', hs'', hle'⟩ := h'.seat s' hs'
  exact ⟨s'', hs'', Nat.le_trans hle hle'⟩

theorem retains_update (x : Round) (owner : Address) {f : Seat → Seat} (howner : ∀ s, (f s).owner = s.owner)
    (hpoints : ∀ s, s.points ≤ (f s).points) (other : Address) : x.Retains (x.update owner f) other := by
  refine ⟨rfl, fun s hs => ?_⟩
  have hsame : ∀ s : Seat, (if s.owner = owner then f s else s).owner = s.owner := by
    intro s
    split
    · exact howner s
    · rfl
  refine ⟨if s.owner = owner then f s else s, ?_, ?_⟩
  · unfold seatByOwner? update
    rw [List.find?_map]
    simp only [Function.comp_def, hsame]
    exact congrArg _ hs
  · split
    · exact hpoints s
    · exact Nat.le_refl _

theorem retains_setExcluded (x : Round) (owner : Address) (excluded : Bool) (other : Address) :
    x.Retains (x.setExcluded owner excluded) other :=
  x.retains_update owner (f := ({ · with excluded })) (fun _ => rfl) (fun _ => Nat.le_refl _) other

theorem retains_award (x : Round) (owner other : Address) : x.Retains (x.award owner) other :=
  x.retains_update owner (f := fun s => { s with points := s.points + 1 }) (fun _ => rfl)
    (fun _ => Nat.le_succ _) other

theorem retains_seat (x : Round) (owner address other : Address) :
    x.Retains (x.seat owner address) other := by
  refine ⟨rfl, fun s hs => ⟨s, ?_, Nat.le_refl _⟩⟩
  unfold seatByOwner? at hs
  unfold seatByOwner? seat
  rw [List.find?_append, hs]
  rfl

theorem retains_unseat (x : Round) (hne : other ≠ owner) : x.Retains (x.unseat owner) other := by
  refine ⟨rfl, fun s hs => ⟨s, ?_, Nat.le_refl _⟩⟩
  unfold seatByOwner? at hs
  unfold seatByOwner? unseat
  rw [List.find?_filter, ← hs]
  congr 1
  funext t
  by_cases heq : t.owner = other
  · simp [heq, hne]
  · simp [heq]

end Round

/-! ### Feeds -/

namespace PriceFeed

structure Retains (f f' : PriceFeed) (owner : Address) : Prop where
  pair : f'.pair = f.pair
  round : f.round.Retains f'.round owner

variable {f f' f'' : PriceFeed} {owner other : Address}

theorem Retains.refl (f : PriceFeed) (owner : Address) : f.Retains f owner := ⟨rfl, .refl _ _⟩

theorem Retains.trans (h : f.Retains f' owner) (h' : f'.Retains f'' owner) : f.Retains f'' owner :=
  ⟨h'.pair.trans h.pair, h.round.trans h'.round⟩

theorem retains_drop (f : PriceFeed) (owner other : Address) : f.Retains (f.drop owner) other :=
  ⟨rfl, f.round.retains_setExcluded owner true other⟩

theorem retains_foldl_drop (dropped : List Address) (other : Address) : ∀ f : PriceFeed,
    f.Retains (dropped.foldl drop f) other := by
  induction dropped with
  | nil => exact fun f => .refl f other
  | cons owner dropped ih => exact fun f => (f.retains_drop owner other).trans (ih _)

theorem retains_enlist (f : PriceFeed) (owner address other : Address) :
    f.Retains (f.enlist owner address).2 other := by
  unfold enlist
  dsimp only
  split
  · exact ⟨rfl, f.round.retains_setExcluded owner false other⟩
  · split
    · exact ⟨rfl, f.round.retains_seat owner address other⟩
    · exact ⟨rfl, .refl _ _⟩

theorem retains_expel (f : PriceFeed) (hne : other ≠ owner) : f.Retains (f.expel owner).2 other :=
  ⟨rfl, f.round.retains_unseat hne⟩

theorem retains_yieldSeat (f : PriceFeed) (registry : Registry) (hne : other ≠ owner) :
    f.Retains ((f.yieldSeat? owner registry).elim f (·.2)) other := by
  cases hy : f.yieldSeat? owner registry with
  | none => exact .refl f other
  | some x =>
    obtain ⟨e, -, -, -, -, hx⟩ := yieldSeat?_eq_some hy
    rw [Option.elim_some, hx]
    exact ⟨rfl, (f.round.retains_unseat hne).trans (Round.retains_seat _ e.owner e.address other)⟩

variable {L : Type} [CollateralLedger L]

/-- The call is none of those that take an owner's seat, and no switch. -/
def Call.Spares (owner : Address) : Call L → Prop
  | switchRound .. => False
  | expel other | yieldSeat other _ => owner ≠ other
  | _ => True

omit [CollateralLedger L] in
theorem retains_of_effect {call : Call L} (h : f.Effect call f') (hcall : call.Spares owner) :
    f.Retains f' owner := by
  cases h with
  | idle | readers | publishers => exact ⟨rfl, .refl _ _⟩
  | @listed newcomer _ e evicted he hnew hevicted =>
    have henlist := (evicted.elim f f.drop).retains_enlist newcomer e.address owner
    cases evicted with
    | none => exact henlist
    | some tail => exact (f.retains_drop tail owner).trans henlist
  | dropped hlisted => exact f.retains_drop _ owner
  | expelled other => exact f.retains_expel hcall
  | yielded he hlisted hwaits =>
    exact ⟨rfl, (f.round.retains_unseat hcall).trans (Round.retains_seat _ _ _ owner)⟩
  | published hp =>
    obtain ⟨-, seat, -, -, -, rfl⟩ := publish_eq_ok.1 hp
    exact ⟨rfl, f.round.retains_award _ owner⟩
  | emergency hp =>
    obtain ⟨-, rfl, -⟩ := emergencyPublish_eq_ok hp
    exact ⟨rfl, .refl _ _⟩
  | switched lockUntil => exact absurd hcall id
  | @capped value _ dropped _ hs =>
    obtain ⟨-, -, rfl⟩ := setMaxSubscribed_eq_ok hs
    have hdropped := retains_foldl_drop dropped owner
      { f with params := { f.params with maxSubscribed := value } }
    exact ⟨hdropped.pair, hdropped.round⟩
  | params hp hcap =>
    obtain ⟨-, rfl⟩ := withParams_eq_ok hp
    exact ⟨rfl, .refl _ _⟩

end PriceFeed

end PriceOracle
