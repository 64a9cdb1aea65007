import Mathlib.Data.List.Sort
import PriceOracle.Proofs.Registry.Order
/-! The order of the registry as a function. A run tells who registered after whom, apart from all numbers
and stakes. The registry lists its oracles by their stakes now and, among equal stakes, in the order of this
roll: by whatever way the stakes came about, the same stakes make the same order. -/
namespace PriceOracle.Registry

/-! ### Runs -/

/-- The registry after a call. One that is refused changes nothing. -/
def after (r : Registry) (call : Call) : Registry := (r.perform call).toOption.getD r

def run (r : Registry) (calls : List Call) : Registry := calls.foldl after r

theorem after_cases (r : Registry) (call : Call) :
    (r.perform call = .ok (r.after call)) ∨ (∃ e, r.perform call = .error e) ∧ r.after call = r := by
  unfold after
  cases r.perform call with
  | error e => exact .inr ⟨⟨e, rfl⟩, rfl⟩
  | ok r' => exact .inl rfl

theorem Reachable.after {r : Registry} (h : r.Reachable) (call : Call) : (r.after call).Reachable := by
  rcases r.after_cases call with hok | ⟨-, hsame⟩
  · exact .call h hok
  · rwa [hsame]

theorem Reachable.run (calls : List Call) : ∀ {r : Registry}, r.Reachable → (r.run calls).Reachable := by
  induction calls with
  | nil => exact fun h => h
  | cons call calls ih => exact fun h => ih (h.after call)

/-! ### The roll -/

/-- The roll after an accepted call: a registration is entered at the end, a removal is struck off. -/
def Call.enter (roll : List Address) : Call → List Address
  | .register owner .. => roll ++ [owner]
  | .remove owner => roll.filter (· ≠ owner)
  | _ => roll

/-- The roll after some calls: the registered owners in the order of their registrations. -/
def roll (r : Registry) (entered : List Address) : List Call → List Address
  | [] => entered
  | call :: calls =>
    match r.perform call with
    | .ok r' => r'.roll (call.enter entered) calls
    | .error _ => r.roll entered calls

/-- Owners by stake, the highest first, and those with equal stakes in the order they are given in. -/
def byStake (stakeOf : Address → Amount) (owners : List Address) : List Address :=
  owners.insertionSort fun a b => stakeOf b ≤ stakeOf a

/-- What an owner's oracle has at stake, and nothing without one. -/
def stakeOf (r : Registry) (owner : Address) : Amount := (r.get? owner).elim 0 (·.stake)

def numbers (r : Registry) : List (Address × Nat) := r.entries.map fun e => (e.owner, e.seq)

/-- A roll enters the owners of a registry in the order of their numbers. -/
def Enrolled (r : Registry) (entered : List Address) : Prop :=
  ∃ xs : List (Address × Nat), xs.Perm r.numbers ∧ xs.Pairwise (·.2 < ·.2) ∧ entered = xs.map (·.1)

variable {r r' : Registry} {entered : List Address}

theorem enrolled_empty : Enrolled empty [] := ⟨[], .nil, .nil, rfl⟩

theorem Enrolled.of_perm (h : r.Enrolled entered) (hp : r'.numbers.Perm r.numbers) :
    r'.Enrolled entered := by
  obtain ⟨xs, hxs, hs, heq⟩ := h
  exact ⟨xs, hxs.trans hp.symm, hs, heq⟩

theorem numbers_update (r : Registry) (owner : Address) {f : OracleEntry → OracleEntry}
    (hf : ∀ e, ((f e).owner, (f e).seq) = (e.owner, e.seq)) : (r.update owner f).numbers = r.numbers :=
  map_update r owner (g := fun e => (e.owner, e.seq)) hf

theorem perm_numbers_restake (hu : r.Unambiguous) {e : OracleEntry} (he : r.get? e.owner = some e)
    (stake : Amount) : (r.restake e stake).numbers.Perm r.numbers := by
  have hplace := (perm_place { e with stake } (r.others e.owner)).map fun e => (e.owner, e.seq)
  exact hplace.trans ((perm_others hu he).map fun e => (e.owner, e.seq))

theorem Enrolled.register (h : r.Enrolled entered) (ho : r.Ordered) {owner address : Address}
    {name : String} {stake : Amount} {hint : Option PrevHint} {entry : OracleEntry}
    (hr : r.register owner address name stake hint = .ok (entry, r')) :
    r'.Enrolled (entered ++ [owner]) := by
  obtain ⟨xs, hxs, hs, rfl⟩ := h
  obtain ⟨hentry, rfl⟩ := register_eq_ok hr
  have hplace := (perm_place entry r.entries).map fun e => (e.owner, e.seq)
  rw [List.map_cons, hentry] at hplace
  refine ⟨xs ++ [(owner, r.nextSeq)], ?_, ?_, by simp⟩
  · refine (List.perm_append_singleton _ _).trans ((hxs.cons _).trans ?_)
    rw [hentry]
    exact hplace.symm
  · refine List.pairwise_append.2 ⟨hs, List.pairwise_singleton _ _, fun x hx y hy => ?_⟩
    obtain ⟨e, he, rfl⟩ := List.mem_map.1 (hxs.mem_iff.1 hx)
    rw [List.mem_singleton.1 hy]
    exact ho.seq_lt e he

theorem Enrolled.remove (h : r.Enrolled entered) {owner : Address} {entry : OracleEntry}
    (hr : r.remove owner = .ok (entry, r')) : r'.Enrolled (entered.filter (· ≠ owner)) := by
  obtain ⟨xs, hxs, hs, rfl⟩ := h
  have hentries := (remove_eq_ok hr).2
  refine ⟨xs.filter (·.1 ≠ owner), ?_, hs.filter _, by rw [List.filter_map]; rfl⟩
  have hnumbers : r'.numbers = r.numbers.filter (·.1 ≠ owner) := by
    rw [numbers, hentries, others, numbers, List.filter_map]
    rfl
  rw [hnumbers]
  exact hxs.filter _

theorem Enrolled.perform (h : r.Enrolled entered) (ho : r.Ordered) (hu : r.Unambiguous) {call : Call}
    (hc : r.perform call = .ok r') : r'.Enrolled (call.enter entered) := by
  have restaked {owner : Address} {stake old : Amount} {hint : Option PrevHint}
      (hs : r.setStake owner stake hint = .ok (old, r')) : r'.Enrolled entered := by
    obtain ⟨e, he, -, rfl⟩ := setStake_eq_ok hs
    exact h.of_perm (perm_numbers_restake hu (by rw [owner_of_get? he]; exact he) stake)
  cases call with
  | register owner address name stake hint =>
    obtain ⟨⟨e, _⟩, he, rfl⟩ := exists_of_map_eq_ok hc
    exact h.register ho he
  | setStake owner stake hint =>
    obtain ⟨⟨old, _⟩, hs, rfl⟩ := exists_of_map_eq_ok hc
    exact restaked hs
  | adjustStake owner delta hint =>
    obtain ⟨⟨new, _⟩, ha, rfl⟩ := exists_of_map_eq_ok hc
    obtain ⟨old, hs⟩ := adjustStake_eq_ok ha
    exact restaked hs
  | remove owner =>
    obtain ⟨⟨e, _⟩, hr, rfl⟩ := exists_of_map_eq_ok hc
    exact h.remove hr
  | setName owner name =>
    change r.setName owner name = .ok r' at hc
    unfold Registry.setName at hc
    split at hc
    · cases hc
      exact h.of_perm (.of_eq (numbers_update r owner fun _ => rfl))
    · cases hc
  | addSubscription owner pair =>
    obtain ⟨⟨fresh, _⟩, hs, rfl⟩ := exists_of_map_eq_ok hc
    unfold addSubscription at hs
    split at hs
    · cases hs
    · cases hs
      exact h.of_perm (.of_eq (numbers_update r owner fun _ => rfl))
  | removeSubscription owner pair =>
    obtain ⟨⟨listed, _⟩, hs, rfl⟩ := exists_of_map_eq_ok hc
    unfold removeSubscription at hs
    split at hs
    · cases hs
    · cases hs
      exact h.of_perm (.of_eq (numbers_update r owner fun _ => rfl))

theorem Enrolled.run (calls : List Call) : ∀ {r : Registry} {entered : List Address},
    r.Enrolled entered → r.Reachable → (r.run calls).Enrolled (r.roll entered calls) := by
  induction calls with
  | nil => exact fun h _ => h
  | cons call calls ih =>
    intro r entered h hr
    show ((r.after call).run calls).Enrolled _
    unfold roll
    cases hc : r.perform call with
    | error e =>
      have hsame : r.after call = r := by rw [Registry.after, hc]; rfl
      rw [hsame]
      exact ih h hr
    | ok r' =>
      have hok : r.after call = r' := by rw [Registry.after, hc]; rfl
      rw [hok]
      exact ih (h.perform hr.ordered hr.unambiguous hc) (.call hr hc)

/-! ### The order -/

/-- Entries that are put in one after the other, by number, stand in their order. -/
theorem pairwise_insertionSort {es : List OracleEntry} (h : es.Pairwise (·.seq < ·.seq)) :
    (es.insertionSort fun a b => b.stake ≤ a.stake).Pairwise OracleEntry.Before := by
  induction es with
  | nil => exact .nil
  | cons e es ih =>
    obtain ⟨he, hes⟩ := List.pairwise_cons.1 h
    have hnew : ∀ x ∈ es.insertionSort fun a b => b.stake ≤ a.stake, e.seq < x.seq := fun x hx =>
      he x ((List.mem_insertionSort _).1 hx)
    rw [List.insertionSort_cons]
    have ih := ih hes
    revert ih hnew
    generalize (es.insertionSort fun a b => b.stake ≤ a.stake) = xs
    -- the entry goes before the first that has no more stake
    induction xs with
    | nil => exact fun _ _ => List.pairwise_singleton _ _
    | cons x xs ihx =>
      intro hnew hs
      obtain ⟨hx, hxs⟩ := List.pairwise_cons.1 hs
      have hex := hnew x (by simp)
      rw [List.orderedInsert_cons]
      split
      · rename_i hle
        have hbefore : e.Before x := by
          simp only [OracleEntry.Before, OracleEntry.Precedes]
          lia
        refine List.pairwise_cons.2 ⟨fun y hy => ?_, hs⟩
        rcases List.mem_cons.1 hy with rfl | hy
        · exact hbefore
        · exact hbefore.trans (hx y hy)
      · rename_i hlt
        have hlater : x.Before e := by
          simp only [OracleEntry.Before, OracleEntry.Precedes]
          lia
        refine List.pairwise_cons.2 ⟨fun y hy => ?_, ihx (fun y hy => hnew y (by simp [hy])) hxs⟩
        rcases List.mem_orderedInsert _ |>.1 hy with rfl | hy
        · exact hlater
        · exact hx y hy

/-- A registry lists its owners by stake and, among equal stakes, in the order of its roll. -/
theorem Enrolled.owners_eq (h : r.Enrolled entered) (ho : r.Ordered) (hu : r.Unambiguous) :
    r.entries.map (·.owner) = byStake r.stakeOf entered := by
  obtain ⟨xs, hxs, hs, rfl⟩ := h
  -- the entries by number
  let es := r.entries.insertionSort fun a b => a.seq ≤ b.seq
  have hperm : es.Perm r.entries := List.perm_insertionSort _ _
  have hle : es.Pairwise fun a b => a.seq ≤ b.seq := List.pairwise_insertionSort _ _
  have hnodup : (es.map (·.seq)).Nodup := (hperm.map (·.seq)).nodup_iff.2 ho.seqs
  have hseqs : es.Pairwise fun a b => a.seq ≠ b.seq := List.pairwise_map.1 hnodup
  have hlt : es.Pairwise fun a b => a.seq < b.seq :=
    (hle.and hseqs).imp fun hab => Nat.lt_of_le_of_ne hab.1 hab.2
  have hroll : xs = es.map fun e => (e.owner, e.seq) := by
    refine (hxs.trans (hperm.map _).symm).eq_of_pairwise ?_ hs (List.pairwise_map.2 hlt)
    exact fun _ _ _ _ hab hba => absurd hab (Nat.lt_asymm hba)
  have hsorted : r.entries = es.insertionSort fun a b => b.stake ≤ a.stake := by
    refine (hperm.symm.trans (List.perm_insertionSort _ _).symm).eq_of_pairwise ?_ ho.sorted
      (pairwise_insertionSort hlt)
    exact fun _ _ _ _ hab hba => absurd hba hab.asymm
  have hstake : ∀ e ∈ es, r.stakeOf e.owner = e.stake := by
    intro e he
    rw [stakeOf, (get?_eq_some hu).2 ⟨hperm.mem_iff.1 he, rfl⟩, Option.elim_some]
  rw [hroll, List.map_map, byStake]
  conv_lhs => rw [hsorted]
  apply List.map_insertionSort
  intro a ha b hb
  show b.stake ≤ a.stake ↔ r.stakeOf b.owner ≤ r.stakeOf a.owner
  rw [hstake a ha, hstake b hb]

end PriceOracle.Registry
