/-! Finite tables and sets whose keys are ranked by natural numbers. The entries stand in ascending
order of rank, each key at most once, so listing a table is listing it in key order and two tables
with the same entries are equal. -/
namespace PriceOracle

/-- Keys told apart, and put in order, by a natural number. -/
class Ranked (κ : Type) where
  rank : κ → Nat
  rank_injective : ∀ {a b : κ}, rank a = rank b → a = b

export Ranked (rank rank_injective)

instance : Ranked Nat := ⟨id, id⟩

/-- Entries in strictly ascending order of their keys' ranks. -/
structure Table (κ : Type) [Ranked κ] (α : Type) where
  toList : List (κ × α)
  sorted : toList.Pairwise (fun x y => rank x.1 < rank y.1)

namespace Table

variable {κ α : Type} [Ranked κ]

/-! ### Entry lists -/

/-- Puts an entry in its place, in place of an entry with the same key. -/
def put (k : κ) (v : α) : List (κ × α) → List (κ × α)
  | [] => [(k, v)]
  | x :: xs =>
    if rank k < rank x.1 then (k, v) :: x :: xs
    else if rank k = rank x.1 then (k, v) :: xs
    else x :: put k v xs

/-- The value of the first entry with key `k`. -/
def find (k : κ) : List (κ × α) → Option α
  | [] => none
  | x :: xs => if rank k = rank x.1 then some x.2 else find k xs

theorem eq_or_mem_of_mem_put {k : κ} {v : α} {x : κ × α} {xs : List (κ × α)} (h : x ∈ put k v xs) :
    x = (k, v) ∨ x ∈ xs := by
  induction xs with
  | nil => simpa [put] using h
  | cons y ys ih =>
    simp only [put] at h
    split at h
    · simpa using h
    · split at h
      · rcases List.mem_cons.1 h with rfl | h
        · exact .inl rfl
        · exact .inr (.tail _ h)
      · rcases List.mem_cons.1 h with rfl | h
        · exact .inr (.head _)
        · exact (ih h).imp_right (.tail _)

theorem sorted_put {k : κ} {v : α} {xs : List (κ × α)}
    (h : xs.Pairwise (fun x y => rank x.1 < rank y.1)) :
    (put k v xs).Pairwise (fun x y => rank x.1 < rank y.1) := by
  induction xs with
  | nil => simp [put]
  | cons y ys ih =>
    obtain ⟨hy, hys⟩ := List.pairwise_cons.1 h
    simp only [put]
    split
    · rename_i hlt
      refine List.pairwise_cons.2 ⟨fun z hz => ?_, h⟩
      rcases List.mem_cons.1 hz with rfl | hz
      · exact hlt
      · exact Nat.lt_trans hlt (hy z hz)
    · split
      · rename_i heq
        exact List.pairwise_cons.2 ⟨fun z hz => heq ▸ hy z hz, hys⟩
      · refine List.pairwise_cons.2 ⟨fun z hz => ?_, ih hys⟩
        rcases eq_or_mem_of_mem_put hz with rfl | hz
        · dsimp only
          omega
        · exact hy z hz

/-! ### Tables -/

def empty : Table κ α := ⟨[], .nil⟩

instance : Inhabited (Table κ α) := ⟨empty⟩

instance [DecidableEq κ] [DecidableEq α] : DecidableEq (Table κ α) := fun a b =>
  decidable_of_iff (a.toList = b.toList) ⟨fun h => by cases a; cases b; cases h; rfl, fun h => h ▸ rfl⟩

def get? (t : Table κ α) (k : κ) : Option α := find k t.toList

def contains (t : Table κ α) (k : κ) : Bool := (t.get? k).isSome

/-- Stores `v` under `k`, over what was there. -/
def insert (t : Table κ α) (k : κ) (v : α) : Table κ α := ⟨put k v t.toList, sorted_put t.sorted⟩

def erase (t : Table κ α) (k : κ) : Table κ α :=
  ⟨t.toList.filter (fun x => rank x.1 != rank k), t.sorted.filter _⟩

def map {β : Type} (f : κ → α → β) (t : Table κ α) : Table κ β :=
  ⟨t.toList.map (fun x => (x.1, f x.1 x.2)), List.pairwise_map.2 t.sorted⟩

def size (t : Table κ α) : Nat := t.toList.length

/-- The keys, ascending. -/
def keys (t : Table κ α) : List κ := t.toList.map (·.1)

/-- The values, in the order of their keys. -/
def values (t : Table κ α) : List α := t.toList.map (·.2)

end Table

/-- A finite set of keys. -/
abbrev KeySet (κ : Type) [Ranked κ] := Table κ Unit

namespace KeySet

variable {κ : Type} [Ranked κ]

def add (s : KeySet κ) (k : κ) : KeySet κ := Table.insert s k ()

def ofList (ks : List κ) : KeySet κ := ks.foldl add Table.empty

end KeySet

end PriceOracle
