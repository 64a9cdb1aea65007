import Mathlib.Data.List.TakeDrop
import PriceOracle.Proofs.Json.Writer
/-! A text is read as the value that it was written for. The reader takes no more than the value's own text:
what follows begins with a comma or a closing bracket, or there is nothing left, so no number goes on there.
The fuel is twice the length of the text, and every item takes at least its comma or bracket from it. -/
namespace PriceOracle.Json

open Reader

/-- The value is one that the reader takes at a depth: whole numbers fit a word, unsigned or signed, no two
members of an object have one name, and no more containers than the depth stand inside one another. -/
inductive Legible : (depth : Nat) → Json → Prop where
  | null (depth : Nat) : Legible depth .null
  | bool (depth : Nat) (b : Bool) : Legible depth (.bool b)
  | int (depth : Nat) {i : Int} (hmin : -(1 <<< 63 : Nat) ≤ i) (hmax : i < (1 <<< 64 : Nat)) :
      Legible depth (.int i)
  | str (depth : Nat) (s : String) : Legible depth (.str s)
  | arr {depth : Nat} {xs : List Json} (h : ∀ x ∈ xs, Legible depth x) : Legible (depth + 1) (.arr xs)
  | obj {depth : Nat} {ms : List (String × Json)} (hnames : (ms.map (·.1)).Nodup)
      (h : ∀ m ∈ ms, Legible depth m.2) : Legible (depth + 1) (.obj ms)

theorem Legible.plain {depth : Nat} {j : Json} (h : Legible depth j) : j.Plain := by
  induction h with
  | null => exact .null
  | bool _ b => exact .bool b
  | int => exact .int _
  | str _ s => exact .str s
  | arr _ ih => exact .arr ih
  | obj hnames _ ih => exact .obj hnames ih

/-! ### Strings -/

theorem escaped_of_control {c : Char} (h : c.toNat < 0x20) : ∃ cs, escaped c = '\\' :: cs := by
  unfold escaped
  split_ifs
  all_goals exact ⟨_, rfl⟩

theorem length_le_escaped (cs : List Char) : cs.length ≤ (cs.flatMap escaped).length := by
  induction cs with
  | nil => exact Nat.le_refl 0
  | cons c cs ih =>
    have hsome : escaped c ≠ [] := by
      unfold escaped
      split_ifs
      all_goals exact List.cons_ne_nil _ _
    have hpos := List.length_pos_iff.2 hsome
    rw [List.flatMap_cons, List.length_append, List.length_cons]
    lia

theorem readString_escaped (fuel : Nat) (acc : List Char) (c : Char) (r : List Char) :
    readString true (fuel + 1) acc (escaped c ++ r) = readString true fuel (c :: acc) r := by
  have hback := unescaped?_escaped c r
  cases htext : escaped c ++ r with
  | nil =>
    rw [htext] at hback
    cases hback
  | cons d ds =>
    have hmark : d ≠ '\x22' := by
      rintro rfl
      exact escaped_append_ne_mark c r ds htext
    rw [htext, unescaped?] at hback
    rw [readString]
    by_cases hslash : d = '\\'
    · rw [if_pos hslash] at hback
      rw [if_neg hmark, if_pos hslash, hback]
    · rw [if_neg hslash] at hback
      cases hback
      have hplain : ¬ c.toNat < 0x20 := by
        intro hcontrol
        obtain ⟨cs, hcs⟩ := escaped_of_control hcontrol
        rw [hcs] at htext
        exact hslash (List.cons.inj htext).1.symm
      rw [if_neg hmark, if_neg hslash, if_neg hplain]

theorem readString_flatMap {cs : List Char} : ∀ {fuel : Nat} (acc r : List Char), cs.length < fuel →
    readString true fuel acc (cs.flatMap escaped ++ '\x22' :: r)
      = some (String.ofList (acc.reverse ++ cs), r) := by
  induction cs with
  | nil =>
    intro fuel acc r hfuel
    obtain ⟨fuel, rfl⟩ := Nat.exists_eq_add_one.2 hfuel
    simp [readString]
  | cons c cs ih =>
    intro fuel acc r hfuel
    obtain ⟨fuel, rfl⟩ := Nat.exists_eq_add_one.2 (Nat.zero_lt_of_lt hfuel)
    rw [List.flatMap_cons, List.append_assoc, readString_escaped, ih (c :: acc) r (by simpa using hfuel)]
    simp

theorem readString_quoted (k : String) (r : List Char) :
    let cs := k.toList.flatMap escaped ++ '\x22' :: r
    readString true cs.length.succ [] cs = some (k, r) := by
  intro cs
  have hfuel : k.toList.length < cs.length.succ := by
    have := length_le_escaped k.toList
    rw [List.length_append]
    lia
  rw [readString_flatMap [] r hfuel, List.reverse_nil, List.nil_append, String.ofList_toList]

theorem quoted_append (k : String) (r : List Char) :
    quoted k ++ r = '\x22' :: (k.toList.flatMap escaped ++ '\x22' :: r) := by
  rw [quoted, List.append_assoc, List.cons_append, List.singleton_append]

/-! ### Numbers -/

/-- What may follow a value: nothing, a comma or a closing bracket. -/
def Ends (r : List Char) : Prop := ∀ c ∈ r.head?, c = ',' ∨ c = ']' ∨ c = '\x7d'

theorem Ends.shape {r : List Char} (h : Ends r) :
    r = [] ∨ ∃ c cs, r = c :: cs ∧ (c = ',' ∨ c = ']' ∨ c = '\x7d') := by
  cases r with
  | nil => exact .inl rfl
  | cons c cs => exact .inr ⟨c, cs, rfl, h c rfl⟩

theorem Ends.stops {r : List Char} (h : Ends r) : Stops r := by
  intro c hc
  rcases h c hc with rfl | rfl | rfl <;> decide

theorem isDigit_iff {c : Char} : c.isDigit ↔ '0' ≤ c ∧ c ≤ '9' := by
  rw [Char.isDigit_iff_toNat, Char.le_def, Char.le_def, UInt32.le_iff_toNat_le, UInt32.le_iff_toNat_le]
  rfl

theorem isSome_digit? (c : Char) : (digit? c).isSome = c.isDigit := by
  rw [Bool.eq_iff_iff, isDigit_iff, digit?]
  split <;> simp [*]

theorem digit?_of_isDigit {c : Char} (h : c.isDigit) : digit? c = some (c.toNat - '0'.toNat) := by
  rw [digit?, if_pos (isDigit_iff.1 h)]
  rfl

theorem spanDigits_append {ds r : List Char} (hds : ∀ c ∈ ds, c.isDigit) (hr : Stops r) :
    spanDigits (ds ++ r) = (ds, r) := by
  have hsame : (fun c => (digit? c).isSome) = Char.isDigit := funext isSome_digit?
  rw [spanDigits, hsame, List.span_eq_takeWhile_dropWhile, takeWhile_append_of_stops hds hr,
    List.dropWhile_append_of_pos hds]
  cases r with
  | nil => rfl
  | cons c r => rw [List.dropWhile_cons_of_neg (hr c rfl)]

theorem le_ofDigitChars (ds : List Char) (start : Nat) : start ≤ Nat.ofDigitChars 10 ds start := by
  induction ds generalizing start with
  | nil => exact Nat.le_refl start
  | cons d ds ih =>
    rw [Nat.ofDigitChars_cons]
    exact Nat.le_trans (by lia) (ih _)

/-- While a number fits a word, all its digits count. -/
theorem significand_of_lt {ds : List Char} (hds : ∀ c ∈ ds, c.isDigit) {start : Nat}
    (h : Nat.ofDigitChars 10 ds start < 1 <<< 64) :
    significand start ds = (Nat.ofDigitChars 10 ds start, 0) := by
  induction ds generalizing start with
  | nil => rfl
  | cons d ds ih =>
    rw [Nat.ofDigitChars_cons] at h ⊢
    have hnext : start * 10 + (digit? d).getD 0 = 10 * start + (d.toNat - '0'.toNat) := by
      rw [digit?_of_isDigit (hds d (by simp)), Option.getD_some, Nat.mul_comm]
    have hfits := Nat.lt_of_le_of_lt (le_ofDigitChars ds _) h
    rw [significand, hnext]
    rw [if_pos hfits, ih (fun c hc => hds c (by simp [hc])) h]

theorem isDigit_of_mem_digits (n : Nat) : ∀ c ∈ Nat.toDigits 10 n, c.isDigit := fun _ hc =>
  Nat.isDigit_of_mem_toDigits (by decide) (by decide) hc

theorem head?_digits_ne {n : Nat} (h : 0 < n) : (Nat.toDigits 10 n).head? ≠ some '0' := by
  induction n using Nat.strongRecOn with
  | ind n ih =>
    by_cases hn : n < 10
    · rw [Nat.toDigits_of_lt_base hn]
      interval_cases n <;> decide
    · have hlarge := Nat.not_lt.1 hn
      have hfront := ih (n / 10) (by lia) (by lia)
      rw [Nat.toDigits_of_base_le (by decide) hlarge, List.head?_append]
      obtain ⟨c, cs, hdigits, -⟩ := exists_digit (n / 10)
      rw [hdigits] at hfront ⊢
      exact hfront

theorem digits_wellFormed (n : Nat) : Nat.toDigits 10 n ≠ [] ∧
    ((Nat.toDigits 10 n).head? = some '0' → (Nat.toDigits 10 n).length = 1) := by
  refine ⟨Nat.toDigits_ne_nil, fun hhead => ?_⟩
  obtain rfl : n = 0 := by
    by_contra hpos
    exact head?_digits_ne (Nat.pos_of_ne_zero hpos) hhead
  rfl

theorem significand_digits {n : Nat} (h : n < 1 <<< 64) : significand 0 (Nat.toDigits 10 n) = (n, 0) := by
  have hvalue : Nat.ofDigitChars 10 (Nat.toDigits 10 n) 0 = n := Nat.ofDigitChars_ten_toDigits
  have hread := significand_of_lt (isDigit_of_mem_digits n) (hvalue.symm ▸ h)
  rwa [hvalue] at hread

theorem readNumber_digits {n : Nat} (h : n < 1 <<< 64) {r : List Char} (hr : Ends r) :
    readNumber true (Nat.toDigits 10 n ++ r) = some (.int n, r) := by
  have hspan := spanDigits_append (isDigit_of_mem_digits n) hr.stops
  have hsig := significand_digits h
  rw [readNumber]
  case x_1 => exact fun rest heq => minus_ne_digits n rest r heq.symm
  dsimp only
  rw [hspan]
  dsimp only
  rw [guard, if_pos (digits_wellFormed n)]
  -- However the text goes on, it is with no fraction and no exponent.
  obtain rfl | ⟨c, cs, rfl, rfl | rfl | rfl⟩ := hr.shape
  all_goals simp [hsig]

theorem readNumber_minus {n : Nat} (hpos : 0 < n) (h : n ≤ 1 <<< 63) {r : List Char} (hr : Ends r) :
    readNumber true ('-' :: (Nat.toDigits 10 n ++ r)) = some (.int (-n), r) := by
  have hspan := spanDigits_append (isDigit_of_mem_digits n) hr.stops
  have hsig := significand_digits (Nat.lt_of_le_of_lt h (by decide))
  rw [readNumber]
  dsimp only
  rw [hspan]
  dsimp only
  rw [guard, if_pos (digits_wellFormed n)]
  obtain rfl | ⟨c, cs, rfl, rfl | rfl | rfl⟩ := hr.shape
  all_goals
    simp only [hsig]
    simp [hpos.ne']
    exact fun hlarge => absurd h (Nat.not_le.2 hlarge)

theorem readNumber_decimal {i : Int} (hmin : -(1 <<< 63 : Nat) ≤ i) (hmax : i < (1 <<< 64 : Nat))
    {r : List Char} (hr : Ends r) : readNumber true (decimal i ++ r) = some (.int i, r) := by
  rw [decimal]
  split
  case isTrue hneg =>
    have hvalue : -(i.natAbs : Int) = i := by lia
    have hread := readNumber_minus (by lia : 0 < i.natAbs) (by lia) hr
    rw [hvalue] at hread
    exact hread
  case isFalse hnat =>
    have hvalue : (i.natAbs : Int) = i := by lia
    have hread := readNumber_digits (by lia : i.natAbs < 1 <<< 64) hr
    rw [hvalue] at hread
    exact hread

/-! ### Values -/

theorem skipBlanks_cons {c : Char} {cs : List Char}
    (h : ¬ (c = ' ' ∨ c = '\n' ∨ c = '\t' ∨ c = '\r')) : skipBlanks (c :: cs) = c :: cs := by
  rw [skipBlanks, if_neg h]

/-- The text of a value begins with no blank. -/
theorem skipBlanks_written {x : Json} (hx : x.Plain) (r : List Char) :
    skipBlanks (x.written ++ r) = x.written ++ r := by
  obtain ⟨c, cs, htext, hmark⟩ := exists_written hx
  rw [htext, List.cons_append]
  refine skipBlanks_cons fun hblank => ?_
  rcases hblank with rfl | rfl | rfl | rfl <;> cases x <;> exact absurd hmark (by simp [markOf, mark])

/-- A value is read back from the front of a text, with fuel enough for its own part. -/
def ReadsBack (depth : Nat) (x : Json) : Prop :=
  ∀ (fuel : Nat) (r : List Char), 2 * x.written.length ≤ fuel → Ends r →
    readValue true fuel depth (x.written ++ r) = some (x, r)

theorem ends_behind {α : Type} (text : α → List Char) {close : Char} (hclose : close = ']' ∨ close = '\x7d')
    (r : List Char) (xs : List α) : Ends (behind text close r xs) := by
  cases xs with
  | nil => exact fun c hc => by cases hc; exact .inr hclose
  | cons x xs => exact fun c hc => by cases hc; exact .inl rfl

theorem readItems_separated {depth : Nat} {xs : List Json} (hxs : ∀ x ∈ xs, ReadsBack depth x)
    (hsome : xs ≠ []) (r : List Char) : ∀ (fuel : Nat) (acc : List Json),
      2 * (separated written xs).length + 1 ≤ fuel →
        readItems true fuel depth acc (separated written xs ++ ']' :: r)
          = some (.arr (acc.reverse ++ xs), r) := by
  induction xs with
  | nil => exact absurd rfl hsome
  | cons x xs ih =>
    intro fuel acc hfuel
    obtain ⟨fuel, rfl⟩ := Nat.exists_eq_add_one.2 (Nat.zero_lt_of_lt hfuel)
    have hx := hxs x (by simp)
    cases xs with
    | nil =>
      have hread := hx fuel _ (by simpa [separated] using hfuel) (ends_behind written (.inl rfl) r [])
      rw [separated_cons_append, readItems, hread, behind]
      simp [skipBlanks]
    | cons y ys =>
      rw [separated_cons_cons, List.length_append, List.length_cons] at hfuel
      have hread := hx fuel _ (by lia) (ends_behind written (.inl rfl) r (y :: ys))
      rw [separated_cons_append, readItems, hread, behind]
      have hrest := ih (fun z hz => hxs z (by simp [hz])) (by simp) fuel (x :: acc) (by lia)
      simpa [skipBlanks] using hrest

theorem readKey_quoted (k : String) (r : List Char) : readKey true (quoted k ++ ':' :: r) = some (k, r) := by
  have hname := readString_quoted k (':' :: r)
  have hcolon : skipBlanks (':' :: r) = ':' :: r := skipBlanks_cons (by decide)
  rw [quoted_append, readKey, skipBlanks_cons (by decide)]
  simp only [hname, hcolon]

theorem readMembers_separated {depth : Nat} {ms : List (String × Json)} (hms : ∀ m ∈ ms, ReadsBack depth m.2)
    (hsome : ms ≠ []) (r : List Char) : ∀ (fuel : Nat) (acc : List (String × Json)),
      2 * (separated writtenMember ms).length + 1 ≤ fuel →
        readMembers true fuel depth acc (separated writtenMember ms ++ '\x7d' :: r)
          = some (object (acc.reverse ++ ms), r) := by
  induction ms with
  | nil => exact absurd rfl hsome
  | cons m ms ih =>
    intro fuel acc hfuel
    obtain ⟨fuel, rfl⟩ := Nat.exists_eq_add_one.2 (Nat.zero_lt_of_lt hfuel)
    have hm := hms m (by simp)
    have hlength : m.2.written.length ≤ (writtenMember m).length := by
      rw [writtenMember, List.length_append, List.length_cons]
      lia
    cases ms with
    | nil =>
      rw [separated] at hfuel
      have hread := hm fuel _ (by lia) (ends_behind writtenMember (.inr rfl) r [])
      rw [separated_cons_append, writtenMember, List.append_assoc, List.cons_append, readMembers,
        readKey_quoted]
      dsimp only
      rw [hread, behind]
      simp [skipBlanks]
    | cons n ns =>
      rw [separated_cons_cons, List.length_append, List.length_cons] at hfuel
      have hread := hm fuel _ (by lia) (ends_behind writtenMember (.inr rfl) r (n :: ns))
      have hrest := ih (fun z hz => hms z (by simp [hz])) (by simp) fuel (m :: acc) (by lia)
      rw [separated_cons_append, writtenMember, List.append_assoc, List.cons_append, readMembers,
        readKey_quoted]
      dsimp only
      rw [hread, behind]
      simpa [skipBlanks] using hrest

/-! ### Objects -/

theorem set_of_notMem {key : String} {ms : List (String × Json)} (h : key ∉ ms.map (·.1)) (value : Json) :
    set key value ms = ms ++ [(key, value)] := by
  induction ms with
  | nil => rfl
  | cons m ms ih =>
    rw [List.map_cons, List.mem_cons, not_or] at h
    rw [set, if_neg (Ne.symm h.1), ih h.2, List.cons_append]

theorem object_of_nodup {ms : List (String × Json)} (h : (ms.map (·.1)).Nodup) : object ms = .obj ms := by
  have hfold : ∀ (ms acc : List (String × Json)), ((acc ++ ms).map (·.1)).Nodup →
      ms.foldl (fun acc m => set m.1 m.2 acc) acc = acc ++ ms := by
    intro ms
    induction ms with
    | nil => simp
    | cons m ms ih =>
      intro acc hnames
      have hnew : m.1 ∉ acc.map (·.1) := by
        rw [List.map_append, List.map_cons, List.nodup_append] at hnames
        exact fun hmem => hnames.2.2 _ hmem _ List.mem_cons_self rfl
      rw [List.foldl_cons, set_of_notMem hnew, ih _ (by simpa using hnames)]
      simp
  rw [object, hfold ms [] h, List.nil_append]

/-! ### Whole texts -/

theorem readValue_decimal (fuel depth : Nat) (i : Int) (r : List Char) :
    readValue true (fuel + 1) depth (decimal i ++ r) = readNumber true (decimal i ++ r) := by
  have hblanks : skipBlanks (decimal i ++ r) = decimal i ++ r := skipBlanks_written (.int i) r
  have hfirst : ∃ c cs, decimal i = c :: cs ∧ (c.isDigit ∨ c = '-') := by
    obtain ⟨c, cs, hdigits, hc⟩ := exists_digit i.natAbs
    rw [decimal, hdigits]
    split
    · exact ⟨_, _, rfl, .inr rfl⟩
    · exact ⟨c, cs, rfl, .inl hc⟩
  obtain ⟨c, cs, htext, hc⟩ := hfirst
  rw [readValue, hblanks, htext, List.cons_append]
  split
  case h_7 => rfl
  all_goals
    rename_i heq
    cases heq
    exact absurd hc (by decide)

/-- There is a first step, since no text is empty. -/
theorem readsBack_of_succ {depth : Nat} {x : Json} (hx : x.Plain)
    (h : ∀ (fuel : Nat) (r : List Char), 2 * x.written.length ≤ fuel + 1 → Ends r →
      readValue true (fuel + 1) depth (x.written ++ r) = some (x, r)) : ReadsBack depth x := by
  intro fuel r hfuel hr
  obtain ⟨c, cs, htext, -⟩ := exists_written hx
  have hpos : 0 < x.written.length := by
    rw [htext]
    exact Nat.zero_lt_succ _
  obtain ⟨fuel, rfl⟩ := Nat.exists_eq_add_one.2 (by lia : 0 < fuel)
  exact h fuel r hfuel hr

theorem Legible.readsBack {depth : Nat} {x : Json} (h : Legible depth x) : ReadsBack depth x := by
  induction h with
  | null depth =>
    refine readsBack_of_succ .null fun fuel r _ _ => ?_
    simp [written, readValue, skipBlanks, readWord]
  | bool depth b =>
    refine readsBack_of_succ (.bool b) fun fuel r _ _ => ?_
    cases b <;> simp [written, readValue, skipBlanks, readWord]
  | int depth hmin hmax =>
    refine readsBack_of_succ (.int _) fun fuel r _ hr => ?_
    rw [written, readValue_decimal, readNumber_decimal hmin hmax hr]
  | str depth s =>
    refine readsBack_of_succ (.str s) fun fuel r _ _ => ?_
    have hread := readString_quoted s r
    rw [written, quoted_append, readValue, skipBlanks_cons (by decide)]
    simp only [hread]
    rfl
  | @arr depth xs h ih =>
    refine readsBack_of_succ (Legible.arr h).plain fun fuel r hfuel _ => ?_
    rw [written, writtenItems_eq] at hfuel ⊢
    rw [List.cons_append, List.append_assoc, List.singleton_append, readValue, skipBlanks_cons (by decide)]
    cases xs with
    | nil => simp [separated, skipBlanks]
    | cons x xs =>
      have hx := (h x List.mem_cons_self).plain
      have hopen := separated_cons_append written ']' r x xs
      have hblanks := skipBlanks_written hx (behind written ']' r xs)
      have hitems := readItems_separated ih (List.cons_ne_nil x xs) r fuel []
        (by rw [List.length_cons, List.length_append] at hfuel; lia)
      rw [hopen] at hitems ⊢
      simp only [hblanks, Nat.add_one_ne_zero, and_false, if_false]
      split
      case h_1 heq => exact absurd heq (written_append_ne_close hx _ _)
      case h_2 => exact hitems
  | @obj depth ms hnames h ih =>
    refine readsBack_of_succ (Legible.obj hnames h).plain fun fuel r hfuel _ => ?_
    rw [written, writtenMembers_eq] at hfuel ⊢
    rw [List.cons_append, List.append_assoc, List.singleton_append, readValue, skipBlanks_cons (by decide)]
    cases ms with
    | nil => simp [separated, skipBlanks]
    | cons m ms =>
      have hopen : separated writtenMember (m :: ms) ++ '\x7d' :: r
          = quoted m.1 ++ ':' :: (m.2.written ++ behind writtenMember '\x7d' r ms) := by
        rw [separated_cons_append, writtenMember, List.append_assoc, List.cons_append]
      have hblanks := skipBlanks_written (.str m.1) (':' :: (m.2.written ++ behind writtenMember '\x7d' r ms))
      have hmembers := readMembers_separated ih (List.cons_ne_nil m ms) r fuel []
        (by rw [List.length_cons, List.length_append] at hfuel; lia)
      rw [List.reverse_nil, List.nil_append, object_of_nodup hnames] at hmembers
      rw [written] at hblanks
      rw [hopen] at hmembers ⊢
      simp only [hblanks, Nat.add_one_ne_zero, and_false, if_false]
      split
      case h_1 heq =>
        rw [quoted_append] at heq
        cases heq
      case h_2 => exact hmembers

/-- The text of what is legible is read as the value that it was written for. -/
theorem ofText?_written {j : Json} (h : Legible depthLimit j) : ofText? j.written = some j := by
  have hread := h.readsBack (2 * j.written.length + 2) [] (Nat.le_add_right _ 2) (fun _ hc => nomatch hc)
  rw [List.append_nil] at hread
  rw [ofText?, hread]
  rfl

end PriceOracle.Json
