import Mathlib.Data.List.Nodup
import PriceOracle.Proofs.Json.Writer
/-! Canonical forms. Values that differ only in the order of members, at any depth, have one canonical form,
and every value differs from its canonical form only so. Hence the text of the canonical form tells a value
up to the order of members and nothing less. -/
namespace PriceOracle.Json

/-- One value comes from the other by putting members of objects in another order, at any depth. -/
inductive Reordered : Json → Json → Prop where
  | refl (j : Json) : Reordered j j
  | trans {a b c : Json} (hab : Reordered a b) (hbc : Reordered b c) : Reordered a c
  /-- The members of an object change places. -/
  | members {ms ns : List (String × Json)} (h : ms.Perm ns) : Reordered (.obj ms) (.obj ns)
  /-- Within one item of an array. -/
  | item {x y : Json} (before after : List Json) (h : Reordered x y) :
      Reordered (.arr (before ++ x :: after)) (.arr (before ++ y :: after))
  /-- Within one member of an object. -/
  | member {x y : Json} (name : String) (before after : List (String × Json)) (h : Reordered x y) :
      Reordered (.obj (before ++ (name, x) :: after)) (.obj (before ++ (name, y) :: after))

theorem Reordered.symm {a b : Json} (h : Reordered a b) : Reordered b a := by
  induction h with
  | refl j => exact .refl j
  | trans _ _ ihab ihbc => exact .trans ihbc ihab
  | members h => exact .members h.symm
  | item before after _ ih => exact .item before after ih
  | member name before after _ ih => exact .member name before after ih

/-! ### Plain values -/

theorem plain_arr {xs : List Json} : (arr xs).Plain ↔ ∀ x ∈ xs, x.Plain :=
  ⟨fun h => by cases h with | arr h => exact h, .arr⟩

theorem plain_obj {ms : List (String × Json)} :
    (obj ms).Plain ↔ (ms.map (·.1)).Nodup ∧ ∀ m ∈ ms, m.2.Plain :=
  ⟨fun h => by cases h with | obj hnames h => exact ⟨hnames, h⟩, fun h => .obj h.1 h.2⟩

theorem Reordered.plain_iff {a b : Json} (h : Reordered a b) : a.Plain ↔ b.Plain := by
  induction h with
  | refl => rfl
  | trans _ _ ihab ihbc => exact ihab.trans ihbc
  | members h => simp only [plain_obj, (h.map _).nodup_iff, h.mem_iff]
  | item before after _ ih => simp only [plain_arr, List.forall_mem_append, List.forall_mem_cons, ih]
  | member name before after _ ih =>
    simp only [plain_obj, List.forall_mem_append, List.forall_mem_cons, List.map_append, List.map_cons, ih]

/-! ### Members in order -/

theorem perm_place (m : String × Json) (ms : List (String × Json)) : (place m ms).Perm (m :: ms) := by
  induction ms with
  | nil => exact .refl _
  | cons x xs ih =>
    unfold place
    split
    · exact .refl _
    · exact (ih.cons x).trans (.swap m x xs)

/-- A member is put in its place among others in ascending order. -/
theorem pairwise_place {m : String × Json} {ms : List (String × Json)}
    (hs : ms.Pairwise (fun x y => x.1 < y.1)) (hnew : m.1 ∉ ms.map (·.1)) :
    (place m ms).Pairwise (fun x y => x.1 < y.1) := by
  induction ms with
  | nil => exact List.pairwise_singleton _ _
  | cons x xs ih =>
    obtain ⟨hx, hxs⟩ := List.pairwise_cons.1 hs
    rw [List.map_cons, List.mem_cons, not_or] at hnew
    unfold place
    split
    · rename_i hlt
      refine List.pairwise_cons.2 ⟨fun y hy => ?_, hs⟩
      rcases List.mem_cons.1 hy with rfl | hy
      · exact hlt
      · exact String.lt_trans hlt (hx y hy)
    · rename_i hnot
      have hlater : x.1 < m.1 := Std.lt_of_le_of_ne (String.not_lt.1 hnot) (Ne.symm hnew.1)
      refine List.pairwise_cons.2 ⟨fun y hy => ?_, ih hxs hnew.2⟩
      rcases List.mem_cons.1 ((perm_place m xs).subset hy) with rfl | hy
      · exact hlater
      · exact hx y hy

def canonicalMember (m : String × Json) : String × Json := (m.1, m.2.canonical)

theorem canonicalItems_eq (xs : List Json) : canonicalItems xs = xs.map canonical := by
  induction xs with
  | nil => rfl
  | cons x xs ih => rw [canonicalItems, ih, List.map_cons]

theorem canonicalMembers_cons (m : String × Json) (ms : List (String × Json)) :
    canonicalMembers (m :: ms) = place (canonicalMember m) (canonicalMembers ms) := rfl

theorem perm_canonicalMembers (ms : List (String × Json)) :
    (canonicalMembers ms).Perm (ms.map canonicalMember) := by
  induction ms with
  | nil => exact .refl _
  | cons m ms ih =>
    rw [canonicalMembers_cons]
    exact (perm_place _ _).trans (ih.cons _)

theorem pairwise_canonicalMembers {ms : List (String × Json)} (h : (ms.map (·.1)).Nodup) :
    (canonicalMembers ms).Pairwise (fun x y => x.1 < y.1) := by
  induction ms with
  | nil => exact .nil
  | cons m ms ih =>
    obtain ⟨hnew, hrest⟩ := List.nodup_cons.1 h
    refine pairwise_place (ih hrest) fun hmem => hnew ?_
    have hnames := ((perm_canonicalMembers ms).map (·.1)).mem_iff.1 hmem
    rwa [List.map_map] at hnames

/-- Members with distinct names have one ascending order. -/
theorem canonicalMembers_eq_of_perm {ms ns : List (String × Json)} (hnames : (ms.map (·.1)).Nodup)
    (h : (ms.map canonicalMember).Perm (ns.map canonicalMember)) :
    canonicalMembers ms = canonicalMembers ns := by
  have hnames' : (ns.map (·.1)).Nodup := by
    have hp := h.map (·.1)
    rw [List.map_map, List.map_map] at hp
    exact hp.nodup_iff.1 hnames
  have hperm : (canonicalMembers ms).Perm (canonicalMembers ns) :=
    (perm_canonicalMembers ms).trans (h.trans (perm_canonicalMembers ns).symm)
  exact hperm.eq_of_pairwise (fun _ _ _ _ hab hba => absurd hba (String.lt_asymm hab))
    (pairwise_canonicalMembers hnames) (pairwise_canonicalMembers hnames')

/-! ### One form for all orders -/

theorem Reordered.canonical_eq {a b : Json} (h : Reordered a b) (ha : a.Plain) :
    a.canonical = b.canonical := by
  induction h with
  | refl => rfl
  | trans hab _ ihab ihbc => exact (ihab ha).trans (ihbc (hab.plain_iff.1 ha))
  | members h =>
    have hnames := (plain_obj.1 ha).1
    exact congrArg obj (canonicalMembers_eq_of_perm hnames (h.map _))
  | @item x _ before after _ ih =>
    have hx := plain_arr.1 ha x (by simp)
    simp only [canonical, canonicalItems_eq, List.map_append, List.map_cons, ih hx]
  | @member x _ name before after _ ih =>
    obtain ⟨hnames, hplain⟩ := plain_obj.1 ha
    have hx := ih (hplain (name, x) (by simp))
    refine congrArg obj (canonicalMembers_eq_of_perm hnames (.of_eq ?_))
    simp only [List.map_append, List.map_cons, canonicalMember, hx]

theorem reordered_items {f : Json → Json} {xs : List Json} : ∀ before : List Json,
    (∀ x ∈ xs, Reordered x (f x)) → Reordered (.arr (before ++ xs)) (.arr (before ++ xs.map f)) := by
  induction xs with
  | nil =>
    intro before _
    exact .refl _
  | cons x xs ih =>
    intro before h
    have hrest := ih (before ++ [f x]) fun y hy => h y (by simp [hy])
    simp only [List.append_assoc, List.singleton_append] at hrest
    exact .trans (.item before xs (h x (by simp))) hrest

theorem reordered_members {f : Json → Json} {ms : List (String × Json)} :
    ∀ before : List (String × Json), (∀ m ∈ ms, Reordered m.2 (f m.2)) →
      Reordered (.obj (before ++ ms)) (.obj (before ++ ms.map fun m => (m.1, f m.2))) := by
  induction ms with
  | nil =>
    intro before _
    exact .refl _
  | cons m ms ih =>
    intro before h
    have hrest := ih (before ++ [(m.1, f m.2)]) fun n hn => h n (by simp [hn])
    simp only [List.append_assoc, List.singleton_append] at hrest
    exact .trans (.member m.1 before ms (h m (by simp))) hrest

theorem reordered_canonical {j : Json} (h : j.Plain) : Reordered j j.canonical := by
  induction h with
  | null | bool | int | str => exact .refl _
  | @arr xs _ ih =>
    rw [canonical, canonicalItems_eq]
    exact reordered_items [] ih
  | @obj ms _ _ ih =>
    rw [canonical]
    exact .trans (reordered_members [] ih) (.members (perm_canonicalMembers ms).symm)

theorem canonical_eq_iff {a b : Json} (ha : a.Plain) (hb : b.Plain) :
    a.canonical = b.canonical ↔ Reordered a b := by
  refine ⟨fun h => ?_, fun h => h.canonical_eq ha⟩
  have hback := (reordered_canonical hb).symm
  rw [← h] at hback
  exact .trans (reordered_canonical ha) hback

end PriceOracle.Json
