import Mathlib.Order.Bounds.Basic
import PriceOracle.Proofs.Feed.Subscribers
import PriceOracle.Proofs.Registry.Enrollment
/-! Who is chosen by stake. The subscribers of a feed have one ranking: by what they have at stake, the highest
first, and by registration among equals. Its beginning is what a switch selects and what a lower cap leaves,
and its end is who makes room for a newcomer. Those who go are marked in the round and keep their seats and
their points. -/
namespace PriceOracle

namespace Registry

variable {r : Registry}

theorem stakeOf_of_mem (hu : r.Unambiguous) {e : OracleEntry} (he : e ∈ r.entries) :
    r.stakeOf e.owner = e.stake := by
  rw [stakeOf, (get?_eq_some hu).2 ⟨he, rfl⟩, Option.elim_some]

end Registry

namespace PriceFeed

variable {f f' : PriceFeed} {r : Registry} {owner : Address} {stakeOf : Address → Amount}
  {ranking : List OracleEntry}

/-! ### The ranking -/

/-- All subscribers with their entries, by what they have at stake, the highest first, and by registration among
equals. -/
structure Ranks (f : PriceFeed) (r : Registry) (stakeOf : Address → Amount) (ranking : List OracleEntry) :
    Prop where
  entry : ∀ e ∈ ranking, r.get? e.owner = some e
  listed : (ranking.map (·.owner)).Perm f.subscribed.keys
  sorted : ranking.Pairwise fun a b =>
    stakeOf b.owner < stakeOf a.owner ∨ stakeOf a.owner = stakeOf b.owner ∧ a.seq < b.seq

def LowestStake (f : PriceFeed) (r : Registry) (stake : Amount) : Prop :=
  IsLeast {s | ∃ o, f.isSubscribed o ∧ r.stakeOf o = s} stake

theorem Ranks.unique {ranking' : List OracleEntry} (h : f.Ranks r stakeOf ranking)
    (h' : f.Ranks r stakeOf ranking') : ranking = ranking' := by
  -- the entries are those of the owners, who are the same in both
  have hentries : ∀ {es : List OracleEntry}, (∀ e ∈ es, r.get? e.owner = some e) →
      (es.map (·.owner)).filterMap r.get? = es := by
    intro es hes
    rw [List.filterMap_map]
    refine (List.filterMap_congr fun e he => hes e he).trans List.filterMap_some
  have hperm : ranking.Perm ranking' := by
    have howners := (h.listed.trans h'.listed.symm).filterMap r.get?
    rwa [hentries h.entry, hentries h'.entry] at howners
  refine hperm.eq_of_pairwise ?_ h.sorted h'.sorted
  intro a b _ _ hab hba
  exact absurd hab (by lia)

theorem Ranks.existsUnique (h : f.Ranks r stakeOf ranking) : ∃! ranking, f.Ranks r stakeOf ranking :=
  ⟨ranking, h, fun _ h' => h'.unique h⟩

theorem Ranks.isSubscribed_iff (h : f.Ranks r stakeOf ranking) :
    f.isSubscribed owner ↔ owner ∈ ranking.map (·.owner) := by
  rw [h.listed.mem_iff, Table.mem_keys]
  rfl

theorem Ranks.nodup (h : f.Ranks r stakeOf ranking) : (ranking.map (·.owner)).Nodup :=
  h.listed.nodup_iff.2 (Table.nodup_keys _)

theorem Ranks.length_eq (h : f.Ranks r stakeOf ranking) : ranking.length = f.subscribed.size := by
  have hlen := h.listed.length_eq
  rwa [List.length_map, Table.length_keys] at hlen

/-- The last in a ranking by the registry has the lowest stake of all subscribers. -/
theorem Ranks.lowest (h : f.Ranks r r.stakeOf ranking) {tail : OracleEntry}
    (htail : ranking.getLast? = some tail) : f.LowestStake r tail.stake := by
  have hstake : ∀ e ∈ ranking, r.stakeOf e.owner = e.stake := fun e he => by
    rw [Registry.stakeOf, h.entry e he, Option.elim_some]
  obtain ⟨before, rfl⟩ := List.getLast?_eq_some_iff.1 htail
  refine ⟨⟨tail.owner, h.isSubscribed_iff.2 (by simp), hstake tail (by simp)⟩, ?_⟩
  rintro _ ⟨o, ho, rfl⟩
  obtain ⟨e, he, rfl⟩ := List.mem_map.1 (h.isSubscribed_iff.1 ho)
  rcases List.mem_append.1 he with hbefore | hlast
  · have hsorted := (List.pairwise_append.1 h.sorted).2.2 e hbefore tail (by simp)
    have hlast := hstake tail (by simp)
    lia
  · rw [hstake e he, List.mem_singleton.1 hlast]

/-- When every subscriber is registered, a registry in its order ranks them. -/
theorem ranks_ranked (ho : r.Ordered) (hu : r.Unambiguous)
    (hall : ∀ o, f.isSubscribed o → r.isRegistered o)
    (hstake : ∀ e ∈ r.entries, e.stake = stakeOf e.owner) : f.Ranks r stakeOf (f.ranked r) where
  entry e he := (Registry.get?_eq_some hu).2 ⟨(mem_ranked.1 he).1, rfl⟩
  listed := perm_ranked hu hall
  sorted := by
    have hsorted : (f.ranked r).Pairwise OracleEntry.Before := ho.sorted.filter _
    refine hsorted.imp_of_mem fun {a b} ha hb hab => ?_
    rw [← hstake a (mem_ranked.1 ha).1, ← hstake b (mem_ranked.1 hb).1]
    exact hab.imp_right fun ⟨heq, hseq⟩ => ⟨heq, hseq⟩

/-! ### Selection -/

/-- What a switch does to the round. The first in the ranking have the seats of the next one, as many as may be
selected and as are subscribed, without points and marks, and it is flagged if these are too few. -/
structure Selects (f : PriceFeed) (ranking : List OracleEntry) (f' : PriceFeed) : Prop where
  number : f'.round.number = f.round.number + 1
  seats : f'.round.seats = (ranking.take (min f.params.maxOracles f'.subscribed.size)).map
    fun e => ⟨e.owner, e.address, 0, false⟩
  seated : ∀ s ∈ f'.round.seats, f'.isSubscribed s.owner
  flagged : f'.round.belowMinimum ↔ f'.subscribed.size < f.params.minOracles

theorem selects_nextRound (hvalid : f.params.validate = .ok ())
    (h : f.Ranks r stakeOf (f.ranked r)) (lockUntil : Nat) :
    f.Selects (f.ranked r) (f.nextRound (f.selection r) lockUntil) := by
  obtain ⟨-, hmax, -⟩ := RoundParams.validate_eq_ok.1 hvalid
  have hseats : (f.nextRound (f.selection r) lockUntil).round.seats
      = ((f.ranked r).take f.params.maxOracles).map fun e => ⟨e.owner, e.address, 0, false⟩ := by
    simp [nextRound, selection, Seat.fresh, Function.comp_def]
  refine ⟨rfl, ?_, fun s hs => ?_, ?_⟩
  · show _ = ((f.ranked r).take (min f.params.maxOracles f.subscribed.size)).map _
    rw [hseats, ← h.length_eq, ← List.take_eq_take_min]
  · rw [hseats] at hs
    obtain ⟨e, he, rfl⟩ := List.mem_map.1 hs
    exact (mem_ranked.1 (List.mem_of_mem_take he)).2
  · have hselected : (f.selection r).length = min f.params.maxOracles f.subscribed.size := by
      rw [selection, List.length_map, List.length_take, h.length_eq]
    simp only [nextRound, hselected, decide_eq_true_eq]
    omega

/-! ### Those who go -/

def excluding (gone : List Address) (s : Seat) : Seat :=
  if s.owner ∈ gone then { s with excluded := true } else s

theorem owner_excluding (gone : List Address) (s : Seat) : (excluding gone s).owner = s.owner := by
  unfold excluding
  split <;> rfl

/-- Those who are struck off the list keep their seats, marked as excluded. -/
theorem foldl_drop_eq (gone : List Address) : ∀ f : PriceFeed,
    gone.foldl drop f = { f with
      subscribed := (gone.foldl drop f).subscribed
      round := { f.round with seats := f.round.seats.map (excluding gone) } } := by
  induction gone with
  | nil =>
    intro f
    have hseats : f.round.seats.map (excluding []) = f.round.seats :=
      List.map_id'' (fun s => if_neg List.not_mem_nil) _
    rw [hseats]
    rfl
  | cons owner gone ih =>
    intro f
    have hseats : (f.drop owner).round.seats.map (excluding gone)
        = f.round.seats.map (excluding (owner :: gone)) := by
      show (f.round.seats.map _).map _ = _
      rw [List.map_map]
      refine List.map_congr_left fun s _ => ?_
      by_cases howner : s.owner = owner <;> by_cases hgone : s.owner ∈ gone <;>
        simp_all [excluding]
    rw [List.foldl_cons, ih, hseats]
    rfl

/-! ### Admission -/

/-- What a subscription does to the list and the round. Only on a full list somebody makes room for the
newcomer: the last in the ranking, whose seat stays with its points, marked as excluded. A seat that the
newcomer had stays with its points, no longer marked; else it takes one, without points, if the round has
fewer than it may select. -/
structure Admits (f : PriceFeed) (ranking : List OracleEntry) (e : OracleEntry)
    (outcome : SubscribeOutcome) (f' : PriceFeed) : Prop where
  evicted : if f.subscribed.size < f.params.maxSubscribed then outcome.evicted = none
    else ∃ tail, ranking.getLast? = some tail ∧ outcome.evicted = some tail.owner
  listed : ∀ o, f'.isSubscribed o ↔ o = e.owner ∨ f.isSubscribed o ∧ outcome.evicted ≠ some o
  joined : outcome.joinedRound ↔
    ¬ f.round.seatsOwner e.owner ∧ f.round.seats.length < f.params.maxOracles
  seats : f'.round.seats = f.round.seats.map (fun s =>
      if s.owner = e.owner then { s with excluded := false }
      else if outcome.evicted = some s.owner then { s with excluded := true } else s)
    ++ if outcome.joinedRound then [⟨e.owner, e.address, 0, false⟩] else []
  rest : f' = { f with
    subscribed := f'.subscribed
    round := { f.round with seats := f'.round.seats }
    lastSelected := if outcome.joinedRound then f.lastSelected.insert e.owner f.round.number
      else f.lastSelected }

/-- Putting an owner on the list, seat by seat. -/
theorem enlist_eq {address : Address} {joined : Bool} (h : f.enlist owner address = (joined, f')) :
    (joined ↔ ¬ f.round.seatsOwner owner ∧ f.round.seats.length < f.params.maxOracles) ∧
    f'.round.seats = f.round.seats.map (fun s =>
        if s.owner = owner then { s with excluded := false } else s)
      ++ (if joined then [⟨owner, address, 0, false⟩] else []) ∧
    f' = { f with
      subscribed := f'.subscribed
      round := { f.round with seats := f'.round.seats }
      lastSelected := if joined then f.lastSelected.insert owner f.round.number else f.lastSelected } := by
  have hfree : ¬ f.round.seatsOwner owner → f.round.seats.map (fun s =>
      if s.owner = owner then { s with excluded := false } else s) = f.round.seats := by
    intro hseat
    refine Round.map_update_of_ne _ fun s hs heq => hseat (Round.seatsOwner_iff.2 ?_)
    exact heq ▸ List.mem_map_of_mem hs
  unfold enlist at h
  dsimp only at h
  split at h
  · rename_i hseat
    cases h
    exact ⟨by simp [hseat], by simp [Round.setExcluded, Round.update], rfl⟩
  · rename_i hseat
    have hsame := hfree hseat
    split at h
    · rename_i hroom
      cases h
      refine ⟨by simp [hseat, hroom], ?_, rfl⟩
      rw [hsame]
      rfl
    · rename_i hroom
      cases h
      refine ⟨by simp [hseat, hroom], ?_, rfl⟩
      rw [hsame]
      simp

theorem Ranks.exists_tail (h : f.Ranks r stakeOf ranking) (hc : f.Capped)
    (hfull : ¬ f.subscribed.size < f.params.maxSubscribed) : ∃ tail, ranking.getLast? = some tail := by
  have hpos := RoundParams.maxSubscribed_pos hc.valid
  have hlen := h.length_eq
  cases htail : ranking.getLast? with
  | some tail => exact ⟨tail, rfl⟩
  | none =>
    rw [List.getLast?_eq_none_iff.1 htail, List.length_nil] at hlen
    omega

/-- Who makes room: nobody while there is room, and else the last one, if its stake is lower. -/
theorem evictionFor_eq_ok_iff (hc : f.Capped) (h : f.Ranks r stakeOf (f.ranked r)) {stake : Amount}
    {evicted : Option Address} :
    f.evictionFor r stake = .ok evicted ↔
      if f.subscribed.size < f.params.maxSubscribed then evicted = none
      else ∃ tail, (f.ranked r).getLast? = some tail ∧ evicted = some tail.owner ∧ tail.stake < stake := by
  unfold evictionFor
  by_cases hroom : f.subscribed.size < f.params.maxSubscribed
  · simp [hroom, eq_comm]
  · obtain ⟨tail, htail⟩ := h.exists_tail hc hroom
    by_cases hmore : tail.stake < stake <;> simp [hroom, htail, hmore, eq_comm]

theorem exists_subscribe_iff (hc : f.Capped) (h : f.Ranks r r.stakeOf (f.ranked r)) :
    (∃ outcome f', f.subscribe owner r = .ok (outcome, f')) ↔
      ∃ e, r.get? owner = some e ∧ ¬ f.isSubscribed owner ∧
        (f.subscribed.size < f.params.maxSubscribed ∨ ∃ low, f.LowestStake r low ∧ low < e.stake) := by
  constructor
  · rintro ⟨outcome, f', hs⟩
    obtain ⟨e, he, hnew, hevicted, -⟩ := subscribe_eq_ok hs
    refine ⟨e, he, hnew, ?_⟩
    by_cases hroom : f.subscribed.size < f.params.maxSubscribed
    · exact .inl hroom
    · rw [evictionFor_eq_ok_iff hc h, if_neg hroom] at hevicted
      obtain ⟨tail, htail, -, hmore⟩ := hevicted
      exact .inr ⟨tail.stake, h.lowest htail, hmore⟩
  · rintro ⟨e, he, hnew, hmore⟩
    have hevicted : ∃ evicted, f.evictionFor r e.stake = .ok evicted := by
      by_cases hroom : f.subscribed.size < f.params.maxSubscribed
      · exact ⟨none, (evictionFor_eq_ok_iff hc h).2 (by rw [if_pos hroom])⟩
      · obtain ⟨low, hlow, hmore⟩ := hmore.resolve_left hroom
        obtain ⟨tail, htail⟩ := h.exists_tail hc hroom
        have heq : low = tail.stake := hlow.unique (h.lowest htail)
        refine ⟨some tail.owner, (evictionFor_eq_ok_iff hc h).2 ?_⟩
        rw [if_neg hroom]
        exact ⟨tail, htail, rfl, heq ▸ hmore⟩
    obtain ⟨evicted, hevicted⟩ := hevicted
    unfold subscribe
    simp [he, hnew, hevicted]

theorem admits_of_subscribe (hc : f.Capped) (h : f.Ranks r stakeOf (f.ranked r))
    {outcome : SubscribeOutcome} (hs : f.subscribe owner r = .ok (outcome, f')) :
    ∃ e, r.get? owner = some e ∧ f.Admits (f.ranked r) e outcome f' := by
  obtain ⟨e, he, hnew, hevicted, henlist⟩ := subscribe_eq_ok hs
  obtain rfl := Registry.owner_of_get? he
  have hgone : outcome.evicted.elim f f.drop = outcome.evicted.toList.foldl drop f := by
    cases outcome.evicted <;> rfl
  have hlist : ∀ o, f'.isSubscribed o ↔ o = e.owner ∨ f.isSubscribed o ∧ outcome.evicted ≠ some o := by
    intro o
    have hf' : f' = ((outcome.evicted.elim f f.drop).enlist e.owner e.address).2 := by rw [henlist]
    rw [hf', isSubscribed_enlist, hgone, isSubscribed_foldl_drop, Option.mem_toList, and_comm]
  rw [hgone, foldl_drop_eq] at henlist
  obtain ⟨hjoined, hseats, hrest⟩ := enlist_eq henlist
  refine ⟨e, he, ?_, hlist, ?_, ?_, ?_⟩
  · rw [evictionFor_eq_ok_iff hc h] at hevicted
    split
    · rename_i hroom
      rwa [if_pos hroom] at hevicted
    · rename_i hfull
      rw [if_neg hfull] at hevicted
      obtain ⟨tail, htail, hevicted, -⟩ := hevicted
      exact ⟨tail, htail, hevicted⟩
  · rw [hjoined, Round.seatsOwner_iff, Round.seatsOwner_iff]
    simp [Round.owners, Function.comp_def, owner_excluding]
  · rw [hseats]
    congr 1
    show (f.round.seats.map _).map _ = _
    rw [List.map_map]
    refine List.map_congr_left fun s _ => ?_
    simp only [Function.comp_apply, excluding, Option.mem_toList]
    split
    · split <;> rfl
    · rfl
  · exact hrest

/-! ### A new cap -/

/-- What a new cap does to the list and the round. The first in the ranking stay on the list, as many as it
allows; the others go, the last first, and their seats stay with their points, marked as excluded. -/
structure Trims (f : PriceFeed) (ranking : List OracleEntry) (value : Nat) (gone : List Address)
    (f' : PriceFeed) : Prop where
  listed : ∀ o, f'.isSubscribed o ↔ o ∈ (ranking.take value).map (·.owner)
  dropped : gone = ((ranking.drop value).map (·.owner)).reverse
  seats : f'.round.seats = f.round.seats.map (excluding gone)
  rest : f' = { f with
    params := { f.params with maxSubscribed := value }
    subscribed := f'.subscribed
    round := { f.round with seats := f'.round.seats } }

/-- A cap is refused if the parameters do not fit together with it. -/
theorem setMaxSubscribed_eq_error {value : Nat} {err : RoundError} :
    f.setMaxSubscribed value r = .error err ↔
      ({ f.params with maxSubscribed := value }).validate = .error err := by
  unfold setMaxSubscribed withParams
  cases ({ f.params with maxSubscribed := value }).validate <;> simp

theorem take_reverse_excess {α : Type} (xs : List α) (value : Nat) :
    xs.reverse.take (xs.length - value) = (xs.drop value).reverse := by
  rw [List.take_reverse]
  rcases Nat.le_total value xs.length with hle | hle
  · rw [Nat.sub_sub_self hle]
  · rw [Nat.sub_eq_zero_of_le hle, Nat.sub_zero, List.drop_length, List.drop_of_length_le hle]

/-- The beginning of a row without repetitions is what is not at its end. -/
theorem mem_take_iff_of_nodup {α : Type} {xs : List α} (h : xs.Nodup) (value : Nat) {x : α} :
    x ∈ xs.take value ↔ x ∉ xs.drop value ∧ x ∈ xs := by
  constructor
  · exact fun hx => ⟨List.disjoint_take_drop h (Nat.le_refl value) hx, List.mem_of_mem_take hx⟩
  · rintro ⟨hend, hx⟩
    rw [← List.take_append_drop value xs] at hx
    exact (List.mem_append.1 hx).resolve_right hend

theorem trims_of_setMaxSubscribed (h : f.Ranks r stakeOf (f.ranked r)) {value : Nat}
    {gone : List Address} (hs : f.setMaxSubscribed value r = .ok (gone, f')) :
    f.Trims (f.ranked r) value gone f' := by
  obtain ⟨-, hgone, rfl⟩ := setMaxSubscribed_eq_ok hs
  rw [← h.length_eq, ← List.length_map (·.owner), take_reverse_excess, ← List.map_drop] at hgone
  have hdrop := foldl_drop_eq gone { f with params := { f.params with maxSubscribed := value } }
  refine ⟨fun o => ?_, hgone, ?_, ?_⟩
  · rw [isSubscribed_foldl_drop, List.map_take, mem_take_iff_of_nodup h.nodup, ← h.isSubscribed_iff, hgone,
      List.mem_reverse, List.map_drop]
    rfl
  · rw [hdrop]
  · rw [hdrop]

end PriceFeed

end PriceOracle
