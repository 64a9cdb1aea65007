import Mathlib.Data.List.Induction
import PriceOracle.Proofs.Feed.Pace
/-! How long an owner has been without a seat. A feed notes one number an owner, that of the round in which it
took a seat the last time. The number stands for all seats it ever had, for rounds are never gone back to, and
whoever has a seat took it in the running round. A switch moves the lock on by two seconds at least, so rounds
are far from the largest word, and a sum that is held there is as good as the sum itself. -/
namespace PriceOracle.PriceFeed

variable {L : Type} [CollateralLedger L] {f f' f'' : PriceFeed} {owner other : Address} {takers : List Address}

/-! ### Taking seats -/

/-- Some owners take seats, which is noted with the number of the round. All others with seats had them before,
in the same round. -/
structure Seating (f f' : PriceFeed) (takers : List Address) : Prop where
  number_le : f.round.number ≤ f'.round.number
  noted : ∀ o, f'.lastSelected.get? o
    = if o ∈ takers then some f'.round.number else f.lastSelected.get? o
  seated : ∀ o ∈ takers, f'.round.seatsOwner o
  kept : ∀ o, f'.round.seatsOwner o → o ∈ takers ∨ f.round.seatsOwner o ∧ f'.round.number = f.round.number

theorem Seating.nobody (hnumber : f'.round.number = f.round.number)
    (hlast : f'.lastSelected = f.lastSelected) (hseats : ∀ o ∈ f'.round.owners, o ∈ f.round.owners) :
    f.Seating f' [] where
  number_le := Nat.le_of_eq hnumber.symm
  noted o := by rw [hlast, if_neg List.not_mem_nil]
  seated o ho := by cases ho
  kept o ho := .inr ⟨Round.seatsOwner_iff.2 (hseats o (Round.seatsOwner_iff.1 ho)), hnumber⟩

theorem Seating.trans (h : f.Seating f' []) (h' : f'.Seating f'' takers) : f.Seating f'' takers where
  number_le := Nat.le_trans h.number_le h'.number_le
  noted o := by rw [h'.noted, h.noted, if_neg List.not_mem_nil]
  seated := h'.seated
  kept o ho := by
    refine (h'.kept o ho).imp_right fun ⟨hseat, hnumber⟩ => ?_
    obtain ⟨hseat, hnumber'⟩ := (h.kept o hseat).resolve_left List.not_mem_nil
    exact ⟨hseat, hnumber.trans hnumber'⟩

theorem seating_drop (f : PriceFeed) (owner : Address) : f.Seating (f.drop owner) [] :=
  .nobody rfl rfl fun o ho => by rwa [← owners_drop]

theorem seating_foldl_drop (dropped : List Address) (f : PriceFeed) :
    f.Seating (dropped.foldl drop f) [] :=
  .nobody (by rw [foldl_drop_eq]) (by rw [foldl_drop_eq]) fun o ho => by
    rwa [← owners_foldl_drop dropped f]

theorem seating_unseat (f : PriceFeed) (owner : Address) :
    f.Seating { f with round := f.round.unseat owner } [] :=
  .nobody rfl rfl fun _ ho =>
    Round.seatsOwner_iff.1 (Round.seatsOwner_of_unseat (Round.seatsOwner_iff.2 ho))

theorem seating_seat (f : PriceFeed) (owner address : Address) :
    f.Seating (f.seat owner address) [owner] where
  number_le := Nat.le_refl _
  noted o := by
    show (f.lastSelected.insert owner f.round.number).get? o = _
    simp only [Table.get?_insert, List.mem_singleton]
    rfl
  seated o ho := by
    rw [List.mem_singleton.1 ho, Round.seatsOwner_iff]
    show owner ∈ (f.round.seat owner address).owners
    rw [Round.owners_seat]
    exact List.mem_append_right _ (List.mem_singleton_self owner)
  kept o ho := by
    rw [Round.seatsOwner_iff] at ho
    change o ∈ (f.round.seat owner address).owners at ho
    rw [Round.owners_seat] at ho
    exact (List.mem_append.1 ho).symm.imp_right fun ho => ⟨Round.seatsOwner_iff.2 ho, rfl⟩

theorem seating_enlist (f : PriceFeed) (owner address : Address) :
    ∃ takers, f.Seating (f.enlist owner address).2 takers := by
  unfold enlist
  dsimp only
  split
  · exact ⟨[], .nobody rfl rfl fun o ho => by rwa [← Round.owners_setExcluded]⟩
  · have hlisted : f.Seating { f with subscribed := f.subscribed.add owner } [] :=
      .nobody rfl rfl fun _ => id
    split
    · exact ⟨[owner], hlisted.trans (seating_seat _ owner address)⟩
    · exact ⟨[], hlisted⟩

theorem get?_foldl_insert {selected : List (Address × Address)} {number : Nat} {o : Address} :
    ∀ {t : Table Address Nat}, (selected.foldl (fun t s => t.insert s.1 number) t).get? o
      = if o ∈ selected.map (·.1) then some number else t.get? o := by
  induction selected with
  | nil => simp
  | cons s selected ih =>
    intro t
    rw [List.foldl_cons, ih, Table.get?_insert]
    by_cases hs : o = s.1 <;> by_cases hrest : o ∈ selected.map (·.1) <;> simp [hs, hrest]

theorem seating_nextRound (f : PriceFeed) (selected : List (Address × Address)) (lockUntil : Nat) :
    f.Seating (f.nextRound selected lockUntil) (selected.map (·.1)) := by
  have howners : (f.nextRound selected lockUntil).round.owners = selected.map (·.1) := by
    simp [nextRound, Round.owners, Seat.fresh, Function.comp_def]
  refine ⟨Nat.le_succ _, fun o => get?_foldl_insert, fun o ho => ?_, fun o ho => .inl ?_⟩
  · rwa [Round.seatsOwner_iff, howners]
  · rwa [Round.seatsOwner_iff, howners] at ho

omit [CollateralLedger L] in
theorem seating_of_effect {call : Call L} (h : f.Effect call f') : ∃ takers, f.Seating f' takers := by
  cases h with
  | idle | readers | publishers => exact ⟨[], .nobody rfl rfl fun _ => id⟩
  | @listed owner _ e evicted he hnew hevicted =>
    have hroom : f.Seating (evicted.elim f f.drop) [] := by
      cases evicted with
      | none => exact .nobody rfl rfl fun _ => id
      | some tail => exact f.seating_drop tail
    obtain ⟨takers, henlist⟩ := (evicted.elim f f.drop).seating_enlist owner e.address
    exact ⟨takers, hroom.trans henlist⟩
  | dropped hlisted => exact ⟨[], f.seating_drop _⟩
  | expelled owner =>
    have hstruck : f.Seating { f with subscribed := f.subscribed.erase owner } [] :=
      .nobody rfl rfl fun _ => id
    exact ⟨[], hstruck.trans (seating_unseat _ owner)⟩
  | @yielded owner _ e he hlisted hwaits =>
    exact ⟨[e.owner], (f.seating_unseat owner).trans (seating_seat _ e.owner e.address)⟩
  | published hp =>
    obtain ⟨-, seat, -, -, -, rfl⟩ := publish_eq_ok.1 hp
    exact ⟨[], .nobody rfl rfl fun o ho => by rwa [← Round.owners_award f.round seat.owner]⟩
  | emergency hp =>
    obtain ⟨-, rfl, -⟩ := emergencyPublish_eq_ok hp
    exact ⟨[], .nobody rfl rfl fun _ => id⟩
  | switched lockUntil => exact ⟨_, f.seating_nextRound _ lockUntil⟩
  | @capped value _ dropped _ hs =>
    obtain ⟨-, -, rfl⟩ := setMaxSubscribed_eq_ok hs
    have hcap : f.Seating { f with params := { f.params with maxSubscribed := value } } [] :=
      .nobody rfl rfl fun _ => id
    exact ⟨[], hcap.trans (seating_foldl_drop dropped _)⟩
  | params hp hcap =>
    obtain ⟨-, rfl⟩ := withParams_eq_ok hp
    exact ⟨[], .nobody rfl rfl fun _ => id⟩

/-! ### Pasts -/

/-- How a feed came about: its start, and the calls since. -/
structure Past (L : Type) where
  origin : PriceFeed
  started : ∃ pair params ctx, PriceFeed.start pair params ctx = .ok origin
  calls : List (Call L)

namespace Past

def feed (h : Past L) : PriceFeed := h.origin.run h.calls

/-- The feed was in a state at some moment: at its start, or after some call. -/
def Passes (h : Past L) (f : PriceFeed) : Prop := ∃ before, before <+: h.calls ∧ h.origin.run before = f

/-- The owner had a seat at some moment of the round with a number. -/
def Seats (h : Past L) (owner : Address) (number : Nat) : Prop :=
  ∃ f, h.Passes f ∧ f.round.number = number ∧ f.round.seatsOwner owner

/-- The owner has no seat, and had none at any moment of the last rounds. -/
def SitsOut (h : Past L) (owner : Address) (rounds : Nat) : Prop :=
  ¬ h.feed.round.seatsOwner owner ∧
    ∀ number, h.feed.round.number < number + rounds → ¬ h.Seats owner number

def extend (h : Past L) (calls : List (Call L)) : Past L := { h with calls := h.calls ++ calls }

variable {h : Past L} {call : Call L} {number : Nat}

theorem feed_extend (h : Past L) (calls : List (Call L)) : (h.extend calls).feed = h.feed.run calls :=
  List.foldl_append ..

theorem passes_feed (h : Past L) : h.Passes h.feed := ⟨h.calls, List.prefix_rfl, rfl⟩

theorem Passes.extend (hf : h.Passes f) (calls : List (Call L)) : (h.extend calls).Passes f := by
  obtain ⟨before, hbefore, rfl⟩ := hf
  exact ⟨before, hbefore.trans (List.prefix_append ..), rfl⟩

theorem passes_extend : (h.extend [call]).Passes f ↔ f = h.feed.after call ∨ h.Passes f := by
  constructor
  · rintro ⟨before, hbefore, rfl⟩
    rcases List.prefix_concat_iff.1 hbefore with rfl | hbefore
    · exact .inl (h.feed_extend [call])
    · exact .inr ⟨before, hbefore, rfl⟩
  · rintro (rfl | hf)
    · have hlast := (h.extend [call]).passes_feed
      rwa [feed_extend] at hlast
    · exact hf.extend [call]

theorem seats_extend : (h.extend [call]).Seats owner number ↔
    ((h.feed.after call).round.number = number ∧ (h.feed.after call).round.seatsOwner owner) ∨
      h.Seats owner number := by
  unfold Seats
  simp only [passes_extend, or_and_right, exists_or, exists_eq_left]

omit [CollateralLedger L] in
/-- What holds at the start of a feed, and after each call if before it, holds of all pasts. -/
theorem induction {P : Past L → Prop} (hstart : ∀ origin started, P ⟨origin, started, []⟩)
    (hcall : ∀ h call, P h → P (h.extend [call])) (h : Past L) : P h := by
  obtain ⟨origin, started, calls⟩ := h
  induction calls using List.reverseRecOn with
  | nil => exact hstart origin started
  | append_singleton calls call ih => exact hcall ⟨origin, started, calls⟩ call ih

theorem paced (h : Past L) : h.feed.Paced := by
  obtain ⟨pair, params, ctx, hs⟩ := h.started
  exact (paced_start hs).2.run h.calls

/-- What the feed notes about its past: for every owner the last round in which it had a seat. -/
structure Noted (h : Past L) : Prop where
  le : ∀ owner number, h.Seats owner number → number ≤ h.feed.round.number
  never : ∀ owner, h.feed.lastSelected.get? owner = none → ∀ number, ¬ h.Seats owner number
  last : ∀ owner number, h.feed.lastSelected.get? owner = some number →
    IsGreatest {number | h.Seats owner number} number

theorem Noted.extend (hnoted : h.Noted) (hstep : h.feed.Seating (h.feed.after call) takers) :
    (h.extend [call]).Noted := by
  have hfeed : (h.extend [call]).feed = h.feed.after call := h.feed_extend [call]
  have hle : ∀ owner number, (h.extend [call]).Seats owner number →
      number ≤ (h.feed.after call).round.number := by
    intro owner number hseats
    rcases seats_extend.1 hseats with ⟨rfl, -⟩ | hseats
    · exact Nat.le_refl _
    · exact Nat.le_trans (hnoted.le owner number hseats) hstep.number_le
  -- whoever takes no seat has had seats in the same rounds as before
  have hothers : ∀ owner, owner ∉ takers → ∀ number,
      (h.extend [call]).Seats owner number ↔ h.Seats owner number := by
    intro owner hout number
    rw [seats_extend, or_iff_right_iff_imp]
    rintro ⟨rfl, hseat⟩
    obtain ⟨hseat, hnumber⟩ := (hstep.kept owner hseat).resolve_left hout
    exact ⟨h.feed, h.passes_feed, hnumber.symm, hseat⟩
  refine ⟨hfeed ▸ hle, fun owner hnone number => ?_, fun owner number hsome => ?_⟩
  · rw [hfeed, hstep.noted] at hnone
    split at hnone
    · cases hnone
    · rename_i hout
      rw [hothers owner hout]
      exact hnoted.never owner hnone number
  · rw [hfeed, hstep.noted] at hsome
    split at hsome
    · rename_i htakes
      cases hsome
      exact ⟨seats_extend.2 (.inl ⟨rfl, hstep.seated owner htakes⟩), fun number => hle owner number⟩
    · rename_i hout
      simp only [hothers owner hout]
      exact hnoted.last owner number hsome

theorem noted (h : Past L) : h.Noted := by
  induction h using Past.induction with
  | hstart origin started =>
    have hempty : origin.round = .initial ∧ origin.lastSelected = .empty := by
      obtain ⟨pair, params, ctx, hs⟩ := started
      unfold PriceFeed.start at hs
      split at hs
      · cases hs
      · cases hs
        exact ⟨rfl, rfl⟩
    have hnever : ∀ owner number, ¬ Seats (L := L) ⟨origin, started, []⟩ owner number := by
      rintro owner number ⟨f, ⟨before, hbefore, rfl⟩, -, hseat⟩
      rw [List.prefix_nil.1 hbefore] at hseat
      change origin.round.seatsOwner owner at hseat
      rw [hempty.1] at hseat
      cases hseat
    refine ⟨fun owner number hseats => absurd hseats (hnever owner number), fun owner _ => hnever owner,
      fun owner number hsome => ?_⟩
    change origin.lastSelected.get? owner = some number at hsome
    rw [hempty.2] at hsome
    cases hsome
  | hcall h call ih =>
    obtain ⟨takers, hstep⟩ := seating_of_effect (effect_after h.feed call)
    exact ih.extend hstep

/-- Whether an owner is idle tells of its whole past: it has no seat, and had none in the last rounds. -/
theorem isIdle_iff (h : Past L) (owner : Address) (rounds : Nat) :
    h.feed.isIdle owner rounds ↔ h.SitsOut owner rounds := by
  have hnoted := h.noted
  unfold isIdle SitsOut
  rw [Bool.and_eq_true, Bool.not_eq_true', ← Bool.not_eq_true]
  refine and_congr_right fun _ => ?_
  cases hlast : h.feed.lastSelected.get? owner with
  | none => exact iff_of_true rfl fun number _ => hnoted.never owner hlast number
  | some last =>
    obtain ⟨hseats, hgreatest⟩ := hnoted.last owner last hlast
    rw [Option.all_some, decide_eq_true_eq, h.paced.satAdd_le_iff]
    constructor
    · intro hidle number hnumber hseats
      have hle := hgreatest hseats
      omega
    · intro hout
      by_contra hlater
      exact hout last (Nat.not_le.1 hlater) hseats

end Past

end PriceOracle.PriceFeed
