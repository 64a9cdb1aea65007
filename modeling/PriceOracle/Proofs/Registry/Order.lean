import PriceOracle.Attempt
import PriceOracle.Proofs.Registry.Entries
/-! The order of the registry. Entries stand strictly by stake, the highest first, and by registration
among equals. Every entry has a number of its own that never changes, so wherever an entry is put, there is
one place for it, and two registries with the same entries list them alike. -/
namespace PriceOracle

/-! ### Places -/

def OracleEntry.Before (a b : OracleEntry) : Prop := a.Precedes b.stake b.seq

namespace OracleEntry

instance (a b : OracleEntry) : Decidable (a.Before b) := inferInstanceAs (Decidable (a.Precedes ..))

theorem Before.irrefl (a : OracleEntry) : ¬ a.Before a := by
  simp only [Before, Precedes]
  lia

theorem Before.asymm {a b : OracleEntry} (h : a.Before b) : ¬ b.Before a := by
  simp only [Before, Precedes] at h ⊢
  lia

theorem Before.trans {a b c : OracleEntry} (h : a.Before b) (h' : b.Before c) : a.Before c := by
  simp only [Before, Precedes] at h h' ⊢
  lia

theorem Before.total {a b : OracleEntry} (h : a.seq ≠ b.seq) : a.Before b ∨ b.Before a := by
  simp only [Before, Precedes]
  lia

end OracleEntry

open OracleEntry (Before)

namespace Registry

theorem mem_place {e x : OracleEntry} {xs : List OracleEntry} : x ∈ place e xs ↔ x = e ∨ x ∈ xs := by
  rw [(perm_place e xs).mem_iff, List.mem_cons]

/-- An entry with a new number is put where it belongs. -/
theorem pairwise_place {e : OracleEntry} {xs : List OracleEntry} (hs : xs.Pairwise Before)
    (hnew : ∀ x ∈ xs, x.seq ≠ e.seq) : (place e xs).Pairwise Before := by
  induction xs with
  | nil => exact List.pairwise_singleton _ _
  | cons x xs ih =>
    obtain ⟨hx, hxs⟩ := List.pairwise_cons.1 hs
    unfold place
    split
    · rename_i hbefore
      refine List.pairwise_cons.2 ⟨fun y hy => ?_, hs⟩
      rcases List.mem_cons.1 hy with rfl | hy
      · exact hbefore
      · exact Before.trans hbefore (hx y hy)
    · rename_i hnot
      have hlater : x.Before e := (Before.total (hnew x (by simp))).resolve_right hnot
      refine List.pairwise_cons.2 ⟨fun y hy => ?_, ih hxs fun y hy => hnew y (by simp [hy])⟩
      rcases mem_place.1 hy with rfl | hy
      · exact hlater
      · exact hx y hy

/-! ### The invariant -/

/-- Entries stand in their order and have numbers of their own, all of them handed out. -/
structure Ordered (r : Registry) : Prop where
  sorted : r.entries.Pairwise Before
  seqs : (r.entries.map (·.seq)).Nodup
  seq_lt : ∀ e ∈ r.entries, e.seq < r.nextSeq

variable {r r' : Registry}

theorem ordered_empty : empty.Ordered := ⟨.nil, .nil, fun _ he => by cases he⟩

theorem seq_eq (h : r.Ordered) {a b : OracleEntry} (ha : a ∈ r.entries) (hb : b ∈ r.entries)
    (heq : a.seq = b.seq) : a = b :=
  List.inj_on_of_nodup_map h.seqs ha hb heq

theorem Ordered.entries_eq (h : r.Ordered) (h' : r'.Ordered) (hp : r.entries.Perm r'.entries) :
    r.entries = r'.entries :=
  hp.eq_of_pairwise (fun _ _ _ _ hab hba => absurd hba hab.asymm) h.sorted h'.sorted

/-! ### Operations -/

/-- A change that leaves stakes and numbers alone leaves the order. -/
theorem Ordered.update (h : r.Ordered) (owner : Address) {f : OracleEntry → OracleEntry}
    (hstake : ∀ e, (f e).stake = e.stake) (hseq : ∀ e, (f e).seq = e.seq) :
    (r.update owner f).Ordered := by
  have hseqs := map_update r owner (g := (·.seq)) hseq
  refine ⟨?_, ?_, fun e he => ?_⟩
  · refine List.pairwise_map.2 (h.sorted.imp fun {a b} hab => ?_)
    have hkey : ∀ e : OracleEntry, (if e.owner = owner then f e else e).stake = e.stake ∧
        (if e.owner = owner then f e else e).seq = e.seq := by
      intro e
      split
      · exact ⟨hstake e, hseq e⟩
      · exact ⟨rfl, rfl⟩
    simp only [Before, OracleEntry.Precedes, hkey] at hab ⊢
    exact hab
  · rw [hseqs]
    exact h.seqs
  · have hmem : e.seq ∈ r.entries.map (·.seq) := hseqs ▸ List.mem_map_of_mem he
    obtain ⟨x, hx, heq⟩ := List.mem_map.1 hmem
    exact heq ▸ h.seq_lt x hx

theorem Ordered.enlist (h : r.Ordered) (owner : Address) (pair : CoinPair) :
    (r.enlist owner pair).Ordered :=
  h.update owner (fun _ => rfl) fun _ => rfl

theorem Ordered.delist (h : r.Ordered) (owner : Address) (pair : CoinPair) :
    (r.delist owner pair).Ordered :=
  h.update owner (fun _ => rfl) fun _ => rfl

theorem Ordered.foldl_delist {α : Type} (owner : α → Address) (pair : α → CoinPair) (xs : List α) :
    ∀ {r : Registry}, r.Ordered → (xs.foldl (fun r x => r.delist (owner x) (pair x)) r).Ordered := by
  induction xs with
  | nil => exact fun h => h
  | cons x xs ih => exact fun h => ih (h.delist (owner x) (pair x))

theorem Ordered.setName (h : r.Ordered) {owner : Address} {name : String}
    (hr : r.setName owner name = .ok r') : r'.Ordered := by
  unfold Registry.setName at hr
  split at hr
  · cases hr
    exact h.update owner (fun _ => rfl) fun _ => rfl
  · cases hr

theorem register_eq_ok {owner address : Address} {name : String} {stake : Amount}
    {hint : Option PrevHint} {entry : OracleEntry}
    (hr : r.register owner address name stake hint = .ok (entry, r')) :
    entry = ⟨owner, address, name, stake, .empty, r.nextSeq⟩ ∧
      r' = ⟨place entry r.entries, r.nextSeq + 1⟩ := by
  unfold Registry.register at hr
  repeat' split at hr
  all_goals cases hr
  exact ⟨rfl, rfl⟩

theorem Ordered.register (h : r.Ordered) {owner address : Address} {name : String} {stake : Amount}
    {hint : Option PrevHint} {entry : OracleEntry}
    (hr : r.register owner address name stake hint = .ok (entry, r')) : r'.Ordered := by
  obtain ⟨rfl, rfl⟩ := register_eq_ok hr
  have hfresh : ∀ x ∈ r.entries, x.seq ≠ r.nextSeq := fun x hx => Nat.ne_of_lt (h.seq_lt x hx)
  refine ⟨pairwise_place h.sorted hfresh, ?_, fun e he => ?_⟩
  · refine ((perm_place _ r.entries).map (·.seq)).nodup_iff.2 (List.nodup_cons.2 ⟨?_, h.seqs⟩)
    intro hmem
    obtain ⟨x, hx, heq⟩ := List.mem_map.1 hmem
    exact hfresh x hx heq
  · rcases mem_place.1 he with rfl | he
    · exact Nat.lt_succ_self _
    · exact Nat.lt_succ_of_lt (h.seq_lt e he)

theorem Ordered.remove (h : r.Ordered) {owner : Address} {entry : OracleEntry}
    (hr : r.remove owner = .ok (entry, r')) : r'.Ordered := by
  unfold Registry.remove at hr
  split at hr
  · cases hr
  · cases hr
    have hsub : (r.others owner).Sublist r.entries := List.filter_sublist
    exact ⟨h.sorted.sublist hsub, h.seqs.sublist (hsub.map _), fun e he => h.seq_lt e (hsub.subset he)⟩

/-- An owner's entry moves to the place of another stake, even if it was looked up a while ago. -/
theorem Ordered.restake (h : r.Ordered) (hu : r.Unambiguous) {e found : OracleEntry}
    (hfound : r.get? e.owner = some found) (hseq : found.seq = e.seq) (stake : Amount) :
    (r.restake e stake).Ordered := by
  have hsub : (r.others e.owner).Sublist r.entries := List.filter_sublist
  have hperm := (perm_others hu hfound).map (·.seq)
  have hnodup := hperm.nodup_iff.2 h.seqs
  rw [List.map_cons, hseq] at hnodup
  obtain ⟨hnew, hothers⟩ := List.nodup_cons.1 hnodup
  have hfresh : ∀ x ∈ r.others e.owner, x.seq ≠ ({ e with stake } : OracleEntry).seq := by
    intro x hx heq
    exact hnew (heq ▸ List.mem_map_of_mem hx)
  have hplace := (perm_place { e with stake } (r.others e.owner)).map (·.seq)
  refine ⟨pairwise_place (h.sorted.sublist hsub) hfresh, ?_, fun x hx => ?_⟩
  · exact hplace.nodup_iff.2 (List.nodup_cons.2 ⟨hnew, hothers⟩)
  · rcases mem_place.1 hx with rfl | hx
    · have hlt := h.seq_lt found (mem_of_get? hfound)
      rwa [hseq] at hlt
    · exact h.seq_lt x (hsub.subset hx)

theorem setStake_eq_ok {owner : Address} {stake old : Amount} {hint : Option PrevHint}
    (hr : r.setStake owner stake hint = .ok (old, r')) :
    ∃ e, r.get? owner = some e ∧ old = e.stake ∧ r' = r.restake e stake := by
  unfold Registry.setStake at hr
  split at hr
  · cases hr
  · rename_i e he
    split at hr
    · cases hr
    · cases hr
      exact ⟨e, he, rfl, rfl⟩

theorem adjustStake_eq_ok {owner : Address} {delta : StakeDelta} {hint : Option PrevHint} {stake : Amount}
    (hr : r.adjustStake owner delta hint = .ok (stake, r')) :
    ∃ old, r.setStake owner stake hint = .ok (old, r') := by
  unfold Registry.adjustStake at hr
  split at hr
  · cases hr
  · split at hr
    · cases hr
    · rename_i stake' _
      obtain ⟨⟨old, r''⟩, hs, heq⟩ := exists_of_map_eq_ok hr
      cases heq
      exact ⟨old, hs⟩

theorem Ordered.setStake (h : r.Ordered) (hu : r.Unambiguous) {owner : Address} {stake old : Amount}
    {hint : Option PrevHint} (hr : r.setStake owner stake hint = .ok (old, r')) : r'.Ordered := by
  obtain ⟨e, he, -, rfl⟩ := setStake_eq_ok hr
  exact h.restake hu (by rw [owner_of_get? he]; exact he) rfl stake

theorem Ordered.perform (h : r.Ordered) (hu : r.Unambiguous) {call : Call}
    (hc : r.perform call = .ok r') : r'.Ordered := by
  cases call with
  | register owner address name stake hint =>
    obtain ⟨⟨e, _⟩, he, rfl⟩ := exists_of_map_eq_ok hc
    exact h.register he
  | setStake owner stake hint =>
    obtain ⟨⟨old, _⟩, hs, rfl⟩ := exists_of_map_eq_ok hc
    exact h.setStake hu hs
  | adjustStake owner delta hint =>
    obtain ⟨⟨new, _⟩, ha, rfl⟩ := exists_of_map_eq_ok hc
    obtain ⟨old, hs⟩ := adjustStake_eq_ok ha
    exact h.setStake hu hs
  | remove owner =>
    obtain ⟨⟨e, _⟩, hr, rfl⟩ := exists_of_map_eq_ok hc
    exact h.remove hr
  | setName owner name => exact h.setName hc
  | addSubscription owner pair =>
    obtain ⟨⟨fresh, _⟩, hs, rfl⟩ := exists_of_map_eq_ok hc
    unfold addSubscription at hs
    split at hs
    · cases hs
    · cases hs
      exact h.enlist owner pair
  | removeSubscription owner pair =>
    obtain ⟨⟨listed, _⟩, hs, rfl⟩ := exists_of_map_eq_ok hc
    unfold removeSubscription at hs
    split at hs
    · cases hs
    · cases hs
      exact h.delist owner pair

theorem Reachable.ordered (h : r.Reachable) : r.Ordered := by
  induction h with
  | empty => exact ordered_empty
  | call hr hc ih => exact ih.perform hr.unambiguous hc

/-! ### Walking -/

theorem next?_eq (h : r.Ordered) (hu : r.Unambiguous) {before after : List OracleEntry} {e : OracleEntry}
    (heq : r.entries = before ++ e :: after) : r.next? e.owner = after.head? := by
  have hget : r.get? e.owner = some e := (get?_eq_some hu).2 ⟨by simp [heq], rfl⟩
  have hsorted := h.sorted
  rw [heq] at hsorted
  obtain ⟨-, hrest, hcross⟩ := List.pairwise_append.1 hsorted
  obtain ⟨hlater, -⟩ := List.pairwise_cons.1 hrest
  have hpassed : before.find? (fun x => e.Precedes x.stake x.seq) = none := by
    refine List.find?_eq_none.2 fun x hx => ?_
    rw [decide_eq_true_eq]
    exact (hcross x hx e (by simp)).asymm
  have hself : ¬ e.Precedes e.stake e.seq := Before.irrefl e
  unfold next?
  rw [hget, heq]
  simp only [List.find?_append, hpassed, Option.none_or, List.find?_cons, hself, decide_false]
  cases after with
  | nil => rfl
  | cons x after =>
    have hx : e.Precedes x.stake x.seq := hlater x (by simp)
    simp [hx]

/-- Walking from any entry visits the rest of the list, and then ends. -/
theorem walkFrom_eq (h : r.Ordered) (hu : r.Unambiguous) {after : List OracleEntry} :
    ∀ (before : List OracleEntry) {limit : Nat}, r.entries = before ++ after → after.length ≤ limit →
      r.walkFrom limit after.head? = after := by
  induction after with
  | nil =>
    intro before limit _ _
    cases limit <;> rfl
  | cons e after ih =>
    intro before limit heq hlimit
    obtain ⟨limit, rfl⟩ : ∃ k, limit = k + 1 := ⟨limit - 1, by simp at hlimit; omega⟩
    have hrest : r.entries = (before ++ [e]) ++ after := by simp [heq]
    show e :: r.walkFrom limit (r.next? e.owner) = e :: after
    rw [next?_eq h hu heq, ih _ hrest (by simpa using hlimit)]

/-- Walking from the head visits every entry in its order, and then ends. -/
theorem walk_eq (h : r.Ordered) (hu : r.Unambiguous) {limit : Nat} (hlimit : r.size ≤ limit) :
    r.walkFrom limit r.head? = r.entries :=
  walkFrom_eq h hu [] rfl hlimit

end Registry

end PriceOracle
