import Mathlib.Data.List.Forall2
import PriceOracle.Json.Record
/-! Reading what somebody else wrote. A record means the same with its members in another order and with
members that nobody asked for, at any depth: every member that was there is still found under its name, and
a reader asks for nothing else. -/
namespace PriceOracle.Json

/-- One value comes from the other by putting members of objects in another order and adding members of new
names, at any depth. -/
inductive Widened : Json → Json → Prop where
  | refl (j : Json) : Widened j j
  | trans {a b c : Json} (hab : Widened a b) (hbc : Widened b c) : Widened a c
  /-- The members of an object change places. -/
  | members {ms ns : List (String × Json)} (h : ms.Perm ns) : Widened (.obj ms) (.obj ns)
  /-- An object gets one more member. -/
  | extra {ms : List (String × Json)} {name : String} (value : Json) (h : name ∉ ms.map (·.1)) :
      Widened (.obj ms) (.obj ((name, value) :: ms))
  /-- Within one item of an array. -/
  | item {x y : Json} (before after : List Json) (h : Widened x y) :
      Widened (.arr (before ++ x :: after)) (.arr (before ++ y :: after))
  /-- Within one member of an object. -/
  | member {x y : Json} (name : String) (before after : List (String × Json)) (h : Widened x y) :
      Widened (.obj (before ++ (name, x) :: after)) (.obj (before ++ (name, y) :: after))

/-! ### Members by name -/

theorem find_filter {key : String} {keep : String × Json → Bool} (hk : ∀ j, keep (key, j))
    (ms : List (String × Json)) : find key (ms.filter keep) = find key ms := by
  induction ms with
  | nil => rfl
  | cons m ms ih =>
    obtain ⟨name, j⟩ := m
    by_cases hname : name = key
    · subst hname
      simp [find, hk]
    · by_cases hkeep : keep (name, j)
      · simp [find, hkeep, hname, ih]
      · simp [find, hkeep, hname, ih]

/-- Where no two members have one name, each is found by its own. -/
theorem find_of_mem {ms : List (String × Json)} (hnames : (ms.map (·.1)).Nodup) {m : String × Json}
    (hm : m ∈ ms) : find m.1 ms = some m.2 := by
  induction ms with
  | nil => cases hm
  | cons n ms ih =>
    obtain ⟨hnew, hrest⟩ := List.nodup_cons.1 hnames
    rw [find]
    rcases List.mem_cons.1 hm with rfl | hm
    · rw [if_pos rfl]
    · have hother : n.1 ≠ m.1 := fun h => hnew (List.mem_map.2 ⟨m, hm, h.symm⟩)
      rw [if_neg hother, ih hrest hm]

theorem mem_of_find {key : String} {j : Json} {ms : List (String × Json)} (h : find key ms = some j) :
    (key, j) ∈ ms := by
  induction ms with
  | nil => cases h
  | cons m ms ih =>
    rw [find] at h
    split at h
    case isTrue hkey =>
      cases h
      exact hkey ▸ List.mem_cons_self
    case isFalse => exact List.mem_cons_of_mem _ (ih h)

/-! ### What a widened value holds -/

/-- Nothing can be added to what is no container. -/
theorem Widened.eq_of_atom {a b : Json} (h : Widened a b) (hms : a.members? = none) (hxs : a.items? = none) :
    b = a := by
  induction h with
  | refl => rfl
  | trans _ _ ihab ihbc =>
    obtain rfl := ihab hms hxs
    exact ihbc hms hxs
  | members | extra | member => cases hms
  | item => cases hxs

theorem forall₂_trans {xs ys zs : List Json} (hxy : List.Forall₂ Widened xs ys)
    (hyz : List.Forall₂ Widened ys zs) : List.Forall₂ Widened xs zs := by
  induction hxy generalizing zs with
  | nil => exact hyz
  | cons hab _ ih =>
    cases hyz with
    | cons hbc hrest => exact .cons (hab.trans hbc) (ih hrest)

/-- An array keeps its items in their places. -/
theorem Widened.items {xs : List Json} {b : Json} (h : Widened (.arr xs) b) :
    ∃ ys, b = .arr ys ∧ List.Forall₂ Widened xs ys := by
  have hself (xs : List Json) : List.Forall₂ Widened xs xs := List.forall₂_same.2 fun x _ => .refl x
  generalize ha : Json.arr xs = a at h
  induction h generalizing xs with
  | refl => exact ⟨xs, ha.symm, hself xs⟩
  | trans _ _ ihab ihbc =>
    obtain ⟨ys, rfl, hxy⟩ := ihab ha
    obtain ⟨zs, rfl, hyz⟩ := ihbc rfl
    exact ⟨zs, rfl, forall₂_trans hxy hyz⟩
  | members | extra | member => cases ha
  | item before after h =>
    cases ha
    exact ⟨_, rfl, List.rel_append (hself before) (.cons h (hself after))⟩

/-- An object keeps every member under its name, and its names stay distinct. -/
theorem Widened.members_of_obj {ms : List (String × Json)} {b : Json} (h : Widened (.obj ms) b)
    (hnames : (ms.map (·.1)).Nodup) :
    ∃ ns, b = .obj ns ∧ (ns.map (·.1)).Nodup ∧ ∀ m ∈ ms, ∃ v, (m.1, v) ∈ ns ∧ m.2.Widened v := by
  generalize ha : Json.obj ms = a at h
  induction h generalizing ms with
  | refl => exact ⟨ms, ha.symm, hnames, fun m hm => ⟨m.2, hm, .refl _⟩⟩
  | trans _ _ ihab ihbc =>
    obtain ⟨ns, rfl, hns, hmn⟩ := ihab hnames ha
    obtain ⟨os, rfl, hos, hno⟩ := ihbc hns rfl
    refine ⟨os, rfl, hos, fun m hm => ?_⟩
    obtain ⟨v, hv, hmv⟩ := hmn m hm
    obtain ⟨w, hw, hvw⟩ := hno _ hv
    exact ⟨w, hw, hmv.trans hvw⟩
  | members h =>
    cases ha
    exact ⟨_, rfl, (h.map _).nodup_iff.1 hnames, fun m hm => ⟨m.2, h.mem_iff.1 hm, .refl _⟩⟩
  | extra value hnew =>
    cases ha
    exact ⟨_, rfl, List.nodup_cons.2 ⟨hnew, hnames⟩, fun m hm => ⟨m.2, List.mem_cons_of_mem _ hm, .refl _⟩⟩
  | item => cases ha
  | member name before after h =>
    cases ha
    refine ⟨_, rfl, ?_, fun m hm => ?_⟩
    · simpa only [List.map_append, List.map_cons] using hnames
    · rcases List.mem_append.1 hm with hm | hm
      · exact ⟨m.2, by simp [hm], .refl _⟩
      · rcases List.mem_cons.1 hm with rfl | hm
        · exact ⟨_, by simp, h⟩
        · exact ⟨m.2, by simp [hm], .refl _⟩

/-! ### Reading -/

variable {α : Type}

/-- A value, and the same with more in it, is read as something. -/
def ReadAs (read : Json → Option α) (j : Json) (a : α) : Prop := ∀ k, j.Widened k → read k = some a

theorem readAs_of_atom {read : Json → Option α} {j : Json} {a : α} (hms : j.members? = none)
    (hxs : j.items? = none) (h : read j = some a) : ReadAs read j a := by
  intro k hk
  rw [hk.eq_of_atom hms hxs, h]

theorem readAs_listOf {read : Json → Option α} {write : α → Json} {as : List α}
    (h : ∀ a ∈ as, ReadAs read (write a) a) : ReadAs (listOf? read) (.arr (as.map write)) as := by
  intro k hk
  obtain ⟨ys, rfl, hys⟩ := hk.items
  have hitems : ∀ {as : List α} {ys : List Json}, (∀ a ∈ as, ReadAs read (write a) a) →
      List.Forall₂ Widened (as.map write) ys → ys.mapM read = some as := by
    intro as
    induction as with
    | nil =>
      rintro ys - hys
      cases hys
      rfl
    | cons a as ih =>
      intro ys h hys
      cases hys with
      | cons hy hrest =>
        rw [List.mapM_cons, h a (by simp) _ hy, ih (fun b hb => h b (by simp [hb])) hrest]
        rfl
  exact hitems h hys

/-- Every member is found among the fields of a record, maybe with more in it. -/
def Fields.Holds (f : Fields) (ms : List (String × Json)) : Prop :=
  ∀ name j, find name ms = some j → ∃ v, find name f.values = some v ∧ j.Widened v

namespace Fields.Holds

variable {f : Fields} {ms : List (String × Json)} {read : Json → Option α} {j : Json} {a : α}

theorem get (h : f.Holds ms) (name : String) (hj : find name ms = some j) (hread : ReadAs read j a) :
    f.get name read = some a := by
  obtain ⟨v, hv, hwide⟩ := h name j hj
  rw [Fields.get, hv, Option.bind_some, hread v hwide]

theorem getD (h : f.Holds ms) (name : String) (hj : find name ms = some j) (hread : ReadAs read j a) (default : α) :
    f.getD name read default = some a := by
  obtain ⟨v, hv, hwide⟩ := h name j hj
  rw [Fields.getD, hv]
  exact hread v hwide

theorem option {a : Option α} (h : f.Holds ms) (name : String) (hj : find name ms = some j)
    (hread : ReadAs (nullable read) j a) : f.option name read = some a := by
  obtain ⟨v, hv, hwide⟩ := h name j hj
  rw [Fields.option, hv]
  exact hread v hwide

end Fields.Holds

theorem Widened.fields {ms : List (String × Json)} {k : Json} (h : Widened (.obj ms) k)
    (hnames : (ms.map (·.1)).Nodup) : ∃ f : Fields, (∀ names, Fields.of? names k = some f) ∧ f.Holds ms := by
  obtain ⟨ns, rfl, hns, hmembers⟩ := h.members_of_obj hnames
  refine ⟨⟨ns, false⟩, fun _ => rfl, fun name j hj => ?_⟩
  obtain ⟨v, hv, hwide⟩ := hmembers _ (mem_of_find hj)
  exact ⟨v, find_of_mem hns hv, hwide⟩

/-- A tagged record tells its tag, and the fields of the rest hold its members. -/
theorem Widened.tagged {tag kind : String} {ms : List (String × Json)} {k : Json}
    (h : Widened (.obj ((tag, .str kind) :: ms)) k) (hnames : (tag :: ms.map (·.1)).Nodup) :
    ∃ body f, tagged? tag k = some (kind, body) ∧ (∀ names, Fields.of? names body = some f) ∧
      f.Holds ms := by
  obtain ⟨ns, rfl, hns, hmembers⟩ := h.members_of_obj hnames
  obtain ⟨v, hv, hwide⟩ := hmembers (tag, .str kind) List.mem_cons_self
  obtain rfl := hwide.eq_of_atom rfl rfl
  have htag : find tag ns = some (.str kind) := find_of_mem hns hv
  refine ⟨.obj (without tag ns), ⟨without tag ns, false⟩, by rw [tagged?, htag], fun _ => rfl,
    fun name j hj => ?_⟩
  have hj := mem_of_find hj
  obtain ⟨w, hw, hwide⟩ := hmembers _ (List.mem_cons_of_mem _ hj)
  have hother : name ≠ tag := fun h => (List.nodup_cons.1 hnames).1 (List.mem_map.2 ⟨_, hj, h⟩)
  refine ⟨w, ?_, hwide⟩
  rw [without, find_filter fun _ => by simp [hother]]
  exact find_of_mem hns hw

end PriceOracle.Json
