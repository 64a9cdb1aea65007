import Mathlib.Algebra.Ring.Nat
import PriceOracle.Table
/-! Laws of tables. A table is told by what it stores under each key: storing, dropping and changing
values say what they do to every look-up, equal look-ups make equal tables, and a sum over the values
moves by the value that is put in and the one that is put out. -/
namespace PriceOracle.Table

variable {κ α β : Type} [Ranked κ]

@[simp]
theorem rank_inj {a b : κ} : rank a = rank b ↔ a = b := ⟨rank_injective, fun h => h ▸ rfl⟩

/-! ### Entry lists -/

theorem find_put [DecidableEq κ] (k k' : κ) (v : α) (xs : List (κ × α)) :
    find k' (put k v xs) = if k' = k then some v else find k' xs := by
  induction xs with
  | nil => simp [put, find]
  | cons x xs ih =>
    simp only [put]
    split
    · simp [find]
    · split
      · rename_i heq
        simp only [rank_inj] at heq
        subst heq
        by_cases hk : k' = x.1 <;> simp [find, hk]
      · rename_i hne
        simp only [rank_inj] at hne
        by_cases hx : k' = x.1
        · subst hx
          simp [find, Ne.symm hne]
        · simp [find, hx, ih]

theorem find_filter_ne [DecidableEq κ] (k k' : κ) (xs : List (κ × α)) :
    find k' (xs.filter (fun x => rank x.1 != rank k)) = if k' = k then none else find k' xs := by
  induction xs with
  | nil => simp [find]
  | cons x xs ih =>
    by_cases hx : x.1 = k
    · subst hx
      by_cases hk : k' = x.1 <;> simp_all [find]
    · by_cases hk : k' = x.1
      · subst hk
        simp [find, hx]
      · simp [find, hx, hk, ih]

theorem find_map (f : κ → α → β) (k : κ) (xs : List (κ × α)) :
    find k (xs.map (fun x => (x.1, f x.1 x.2))) = (find k xs).map (f k) := by
  induction xs with
  | nil => rfl
  | cons x xs ih =>
    by_cases hk : k = x.1
    · subst hk
      simp [find]
    · simp [find, hk, ih]

theorem mem_of_find {k : κ} {v : α} {xs : List (κ × α)} (h : find k xs = some v) : (k, v) ∈ xs := by
  induction xs with
  | nil => simp [find] at h
  | cons x xs ih =>
    by_cases hk : k = x.1
    · subst hk
      simp only [find, ↓reduceIte, Option.some.injEq] at h
      simp [← h]
    · simp only [find, rank_inj, hk, ↓reduceIte] at h
      exact List.mem_cons_of_mem _ (ih h)

theorem find_of_mem {k : κ} {v : α} {xs : List (κ × α)}
    (hs : xs.Pairwise (fun x y => rank x.1 < rank y.1)) (h : (k, v) ∈ xs) : find k xs = some v := by
  induction xs with
  | nil => simp at h
  | cons x xs ih =>
    obtain ⟨hx, hxs⟩ := List.pairwise_cons.1 hs
    rcases List.mem_cons.1 h with rfl | h
    · simp [find]
    · have hlt := hx _ h
      have hne : k ≠ x.1 := fun heq => by simp [heq] at hlt
      simp [find, hne, ih hxs h]

theorem eq_of_find_eq {xs ys : List (κ × α)}
    (hx : xs.Pairwise (fun x y => rank x.1 < rank y.1))
    (hy : ys.Pairwise (fun x y => rank x.1 < rank y.1)) (h : ∀ k, find k xs = find k ys) : xs = ys := by
  have hmem : ∀ e, e ∈ xs ↔ e ∈ ys := fun e =>
    ⟨fun he => mem_of_find ((h e.1).symm.trans (find_of_mem hx he)),
      fun he => mem_of_find ((h e.1).trans (find_of_mem hy he))⟩
  have hnodup : ∀ {zs : List (κ × α)}, zs.Pairwise (fun x y => rank x.1 < rank y.1) → zs.Nodup :=
    fun hz => hz.imp fun hlt heq => by simp [heq] at hlt
  have hperm : xs.Perm ys := (List.perm_ext_iff_of_nodup (hnodup hx) (hnodup hy)).2 hmem
  exact hperm.eq_of_pairwise (fun _ _ _ _ h1 h2 => absurd h1 (Nat.lt_asymm h2)) hx hy

/-! ### Look-ups -/

@[simp]
theorem get?_empty (k : κ) : (empty : Table κ α).get? k = none := rfl

theorem get?_insert [DecidableEq κ] (t : Table κ α) (k k' : κ) (v : α) :
    (t.insert k v).get? k' = if k' = k then some v else t.get? k' :=
  find_put k k' v t.toList

@[simp]
theorem get?_insert_self [DecidableEq κ] (t : Table κ α) (k : κ) (v : α) :
    (t.insert k v).get? k = some v := by
  simp [get?_insert]

theorem get?_insert_ne [DecidableEq κ] (t : Table κ α) {k k' : κ} (v : α) (h : k' ≠ k) :
    (t.insert k v).get? k' = t.get? k' := by
  simp [get?_insert, h]

theorem get?_erase [DecidableEq κ] (t : Table κ α) (k k' : κ) :
    (t.erase k).get? k' = if k' = k then none else t.get? k' :=
  find_filter_ne k k' t.toList

@[simp]
theorem get?_map (f : κ → α → β) (t : Table κ α) (k : κ) : (t.map f).get? k = (t.get? k).map (f k) :=
  find_map f k t.toList

theorem mem_toList {t : Table κ α} {k : κ} {v : α} : (k, v) ∈ t.toList ↔ t.get? k = some v :=
  ⟨find_of_mem t.sorted, mem_of_find⟩

theorem ext {s t : Table κ α} (h : ∀ k, s.get? k = t.get? k) : s = t := by
  cases s with
  | mk xs hx =>
    cases t with
    | mk ys hy =>
      congr
      exact eq_of_find_eq hx hy h

theorem contains_insert [DecidableEq κ] (t : Table κ α) (k k' : κ) (v : α) :
    (t.insert k v).contains k' ↔ k' = k ∨ t.contains k' := by
  rw [contains, get?_insert]
  split
  · simp [*]
  · simp [*, contains]

theorem contains_erase [DecidableEq κ] (t : Table κ α) (k k' : κ) :
    (t.erase k).contains k' ↔ k' ≠ k ∧ t.contains k' := by
  rw [contains, get?_erase]
  split
  · simp [*]
  · simp [*, contains]

theorem insert_insert [DecidableEq κ] (t : Table κ α) (k : κ) (v w : α) :
    (t.insert k v).insert k w = t.insert k w := by
  apply ext
  intro k'
  simp only [get?_insert]
  split <;> rfl

theorem mem_keys {t : Table κ α} {k : κ} : k ∈ t.keys ↔ t.contains k := by
  simp only [keys, List.mem_map, contains, Option.isSome_iff_exists]
  constructor
  · rintro ⟨⟨k', v⟩, hmem, rfl⟩
    exact ⟨v, mem_toList.1 hmem⟩
  · rintro ⟨v, hv⟩
    exact ⟨(k, v), mem_toList.2 hv, rfl⟩

theorem nodup_keys (t : Table κ α) : t.keys.Nodup :=
  List.pairwise_map.2 (t.sorted.imp fun hlt heq => by simp [heq] at hlt)

theorem erase_of_get?_eq_none [DecidableEq κ] {t : Table κ α} {k : κ} (h : t.get? k = none) :
    t.erase k = t := by
  apply ext
  intro k'
  rw [get?_erase]
  split
  · rename_i heq
    rw [heq, h]
  · rfl

/-! ### Sums over values -/

/-- The sum of a measure of all values. -/
def total (f : α → Nat) (t : Table κ α) : Nat := (t.values.map f).sum

theorem find_eq_none_of_lt {k : κ} {xs : List (κ × α)} (h : ∀ x ∈ xs, rank k < rank x.1) :
    find k xs = none := by
  induction xs with
  | nil => rfl
  | cons x xs ih =>
    have hne : k ≠ x.1 := fun heq => by simpa [heq] using h x (by simp)
    simp [find, hne, ih fun y hy => h y (by simp [hy])]

theorem sum_put (f : α → Nat) (k : κ) (v : α) {xs : List (κ × α)}
    (hs : xs.Pairwise (fun x y => rank x.1 < rank y.1)) :
    ((put k v xs).map (fun x => f x.2)).sum + (find k xs).elim 0 f
      = (xs.map (fun x => f x.2)).sum + f v := by
  induction xs with
  | nil => simp [put, find]
  | cons x xs ih =>
    obtain ⟨hx, hxs⟩ := List.pairwise_cons.1 hs
    simp only [put]
    split
    · rename_i hlt
      have hnone : find k (x :: xs) = none := find_eq_none_of_lt fun y hy => by
        rcases List.mem_cons.1 hy with rfl | hy
        · exact hlt
        · exact Nat.lt_trans hlt (hx y hy)
      simp only [hnone, List.map_cons, List.sum_cons, Option.elim_none]
      omega
    · split
      · rename_i heq
        simp only [find, heq, ↓reduceIte, List.map_cons, List.sum_cons, Option.elim_some]
        omega
      · rename_i hne
        simp only [find, hne, ↓reduceIte, List.map_cons, List.sum_cons]
        have := ih hxs
        omega

theorem sum_filter_ne (f : α → Nat) (k : κ) {xs : List (κ × α)}
    (hs : xs.Pairwise (fun x y => rank x.1 < rank y.1)) :
    ((xs.filter (fun x => rank x.1 != rank k)).map (fun x => f x.2)).sum + (find k xs).elim 0 f
      = (xs.map (fun x => f x.2)).sum := by
  induction xs with
  | nil => rfl
  | cons x xs ih =>
    obtain ⟨hx, hxs⟩ := List.pairwise_cons.1 hs
    have ih := ih hxs
    by_cases hk : x.1 = k
    · subst hk
      have hnone : find x.1 xs = none := find_eq_none_of_lt hx
      rw [hnone] at ih
      simp only [Option.elim_none] at ih
      simp [find]
      omega
    · simp [find, hk, Ne.symm hk]
      omega

theorem total_insert (f : α → Nat) (t : Table κ α) (k : κ) (v : α) :
    (t.insert k v).total f + (t.get? k).elim 0 f = t.total f + f v := by
  simpa [total, values, insert, get?, Function.comp_def] using sum_put f k v t.sorted

theorem total_erase (f : α → Nat) (t : Table κ α) (k : κ) :
    (t.erase k).total f + (t.get? k).elim 0 f = t.total f := by
  simpa [total, values, erase, get?, Function.comp_def] using sum_filter_ne f k t.sorted

theorem elim_le_total (f : α → Nat) (t : Table κ α) (k : κ) : (t.get? k).elim 0 f ≤ t.total f := by
  have := total_erase f t k
  omega

@[simp]
theorem total_empty (f : α → Nat) : (empty : Table κ α).total f = 0 := rfl

theorem map_get?_keys (t : Table κ α) : t.keys.map t.get? = t.values.map some := by
  rw [keys, values, List.map_map, List.map_map]
  exact List.map_congr_left fun _ hx => find_of_mem t.sorted hx

/-- A sum over the values is one over what the keys find. -/
theorem total_eq_sum_keys (f : α → Nat) (t : Table κ α) :
    t.total f = (t.keys.map fun k => (t.get? k).elim 0 f).sum := by
  have h : t.keys.map (fun k => (t.get? k).elim 0 f) = (t.keys.map t.get?).map (·.elim 0 f) := by
    rw [List.map_map]
    rfl
  rw [h, map_get?_keys, List.map_map]
  rfl

/-! ### Sizes -/

theorem length_keys (t : Table κ α) : t.keys.length = t.size := List.length_map _

theorem total_one (t : Table κ α) : t.total (fun _ => 1) = t.size := by
  simp [total, values, size, Function.comp_def, List.map_const']

theorem size_insert [DecidableEq κ] {t : Table κ α} {k : κ} (v : α) (h : ¬ t.contains k) :
    (t.insert k v).size = t.size + 1 := by
  have hnone : t.get? k = none := by simpa [contains] using h
  have htotal := total_insert (fun _ => 1) t k v
  rw [total_one, total_one, hnone, Option.elim_none] at htotal
  omega

theorem size_erase {t : Table κ α} {k : κ} (h : t.contains k) : (t.erase k).size + 1 = t.size := by
  obtain ⟨v, hv⟩ := Option.isSome_iff_exists.1 h
  have htotal := total_erase (fun _ => 1) t k
  rwa [total_one, total_one, hv, Option.elim_some] at htotal

theorem size_erase_le (t : Table κ α) (k : κ) : (t.erase k).size ≤ t.size :=
  List.length_filter_le _ _

end PriceOracle.Table
