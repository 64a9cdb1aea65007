import Mathlib.Data.List.Nodup
import PriceOracle.Round.Basic
/-! Seats of a round. No owner has two seats, whatever is done to them, so an owner's seat is one place in
the row. -/
namespace PriceOracle.Round

def owners (r : Round) : List Address := r.seats.map (·.owner)

def Distinct (r : Round) : Prop := r.owners.Nodup

theorem seatsOwner_iff {r : Round} {owner : Address} : r.seatsOwner owner ↔ owner ∈ r.owners := by
  simp [seatsOwner, seatByOwner?, owners]

theorem seatsAddress_iff {r : Round} {address : Address} :
    r.seatsAddress address ↔ ∃ s ∈ r.seats, s.address = address := by
  simp [seatsAddress, seatByAddress?]

theorem owners_update (r : Round) (owner : Address) {f : Seat → Seat} (hf : ∀ s, (f s).owner = s.owner) :
    (r.update owner f).owners = r.owners := by
  unfold owners update
  rw [List.map_map]
  apply List.map_congr_left
  intro s _
  rw [Function.comp_apply]
  split
  · exact hf s
  · rfl

@[simp]
theorem owners_setExcluded (r : Round) (owner : Address) (excluded : Bool) :
    (r.setExcluded owner excluded).owners = r.owners :=
  owners_update r owner fun _ => rfl

@[simp]
theorem owners_award (r : Round) (owner : Address) : (r.award owner).owners = r.owners :=
  owners_update r owner fun _ => rfl

theorem owners_unseat (r : Round) (owner : Address) :
    (r.unseat owner).owners = r.owners.filter (· ≠ owner) := by
  unfold owners unseat
  rw [List.filter_map]
  rfl

theorem owners_seat (r : Round) (owner address : Address) :
    (r.seat owner address).owners = r.owners ++ [owner] := by
  simp [owners, seat, Seat.fresh]

theorem seatsOwner_of_unseat {r : Round} {owner other : Address}
    (h : (r.unseat owner).seatsOwner other) : r.seatsOwner other := by
  rw [seatsOwner_iff, owners_unseat] at h
  exact seatsOwner_iff.2 (List.mem_of_mem_filter h)

theorem unseat_of_not_seatsOwner {r : Round} {owner : Address} (h : ¬ r.seatsOwner owner) :
    r.unseat owner = r := by
  have hseats : r.seats.filter (·.owner ≠ owner) = r.seats := by
    refine List.filter_eq_self.2 fun s hs => ?_
    rw [decide_eq_true_eq]
    intro heq
    exact h (seatsOwner_iff.2 (heq ▸ List.mem_map_of_mem hs))
  unfold unseat
  rw [hseats]

theorem length_owners (r : Round) : r.owners.length = r.seats.length := List.length_map _

theorem length_seat (r : Round) (owner address : Address) :
    (r.seat owner address).seats.length = r.seats.length + 1 := List.length_append

theorem length_unseat_le (r : Round) (owner : Address) :
    (r.unseat owner).seats.length ≤ r.seats.length := List.length_filter_le _ _

theorem Distinct.length_unseat {r : Round} (h : r.Distinct) {owner : Address} (hseat : r.seatsOwner owner) :
    (r.unseat owner).seats.length + 1 = r.seats.length := by
  have hmem := seatsOwner_iff.1 hseat
  have hpos := List.length_pos_of_mem hmem
  have herase : (r.unseat owner).owners = r.owners.erase owner := by
    rw [owners_unseat, List.Nodup.erase_eq_filter h]
    refine List.filter_congr fun o _ => ?_
    by_cases heq : o = owner <;> simp [heq]
  rw [← length_owners, herase, List.length_erase_of_mem hmem, ← length_owners]
  omega

theorem distinct_initial : initial.Distinct := .nil

theorem Distinct.unseat {r : Round} (h : r.Distinct) (owner : Address) : (r.unseat owner).Distinct := by
  unfold Distinct
  rw [owners_unseat]
  exact List.Nodup.filter _ h

theorem Distinct.seat {r : Round} (h : r.Distinct) {owner : Address} (address : Address)
    (hfree : ¬ r.seatsOwner owner) : (r.seat owner address).Distinct := by
  unfold Distinct
  rw [owners_seat]
  refine List.nodup_append.2 ⟨h, List.nodup_singleton _, ?_⟩
  rintro a ha b hb rfl
  rw [List.mem_singleton] at hb
  subst hb
  exact hfree (seatsOwner_iff.2 ha)

theorem map_update_of_ne {owner : Address} (f : Seat → Seat) {xs : List Seat}
    (h : ∀ x ∈ xs, x.owner ≠ owner) : xs.map (fun x => if x.owner = owner then f x else x) = xs := by
  induction xs with
  | nil => rfl
  | cons x xs ih =>
    rw [List.map_cons, if_neg (h x (List.mem_cons_self ..)), ih fun y hy => h y (List.mem_cons_of_mem _ hy)]

/-- A point goes to one place in the row: the first seat with the address. -/
theorem award_seatByAddress? {r : Round} (h : r.Distinct) {address : Address} {s : Seat}
    (hs : r.seatByAddress? address = some s) :
    ∃ before after, r.seats = before ++ s :: after ∧ s.address = address ∧
      (∀ x ∈ before, x.address ≠ address) ∧
      r.award s.owner = { r with seats := before ++ { s with points := s.points + 1 } :: after } := by
  obtain ⟨hadr, before, after, heq, hbefore⟩ := List.find?_eq_some_iff_append.1 hs
  refine ⟨before, after, heq, by simpa using hadr, fun x hx => by simpa using hbefore x hx, ?_⟩
  unfold Distinct owners at h
  rw [heq, List.map_append, List.map_cons, List.nodup_append, List.nodup_cons] at h
  obtain ⟨-, ⟨hafter, -⟩, hdisjoint⟩ := h
  have hb : ∀ x ∈ before, x.owner ≠ s.owner := fun x hx =>
    hdisjoint x.owner (List.mem_map_of_mem hx) s.owner (List.mem_cons_self ..)
  have ha : ∀ x ∈ after, x.owner ≠ s.owner := by
    rintro x hx hxs
    exact hafter (hxs ▸ List.mem_map_of_mem hx)
  unfold award update
  rw [heq, List.map_append, List.map_cons, map_update_of_ne _ hb, map_update_of_ne _ ha, if_pos rfl]

end PriceOracle.Round
