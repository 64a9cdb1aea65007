import Mathlib.Tactic.IntervalCases
import PriceOracle.Json.Reader
import PriceOracle.Json.Writer
/-! The text of a value tells the value. Each text tells where it ends: a string by its closing mark, a
container by its bracket, a number by what follows, which is never a digit. So two texts with more behind
them are the same only if they are the texts of one value and the same goes on behind. Doubles are left
out, since the text of a double may be that of a whole number. -/
namespace PriceOracle.Json

/-- No number in the value is a double, and no object in it has two members of one name. -/
inductive Plain : Json → Prop where
  | null : Plain .null
  | bool (b : Bool) : Plain (.bool b)
  | int (i : Int) : Plain (.int i)
  | str (s : String) : Plain (.str s)
  | arr {xs : List Json} (h : ∀ x ∈ xs, Plain x) : Plain (.arr xs)
  | obj {ms : List (String × Json)} (hnames : (ms.map (·.1)).Nodup) (h : ∀ m ∈ ms, Plain m.2) :
      Plain (.obj ms)

/-! ### Strings -/

/-- Reads one character of a string back. -/
def unescaped? : List Char → Option (Char × List Char)
  | [] => none
  | c :: cs => if c = '\\' then Reader.readEscape true cs else some (c, cs)

theorem unescaped?_escaped (c : Char) (rest : List Char) :
    unescaped? (escaped c ++ rest) = some (c, rest) := by
  unfold escaped
  split_ifs with hmark hslash hb hf hn hr ht hcontrol
  all_goals try (subst c; rfl)
  · obtain ⟨n, hn, rfl⟩ : ∃ n < 0x20, c = Char.ofNat n := ⟨c.toNat, hcontrol, (Char.ofNat_toNat c).symm⟩
    interval_cases n <;> rfl
  · simp [unescaped?, hslash]

/-- An escaped character is told from what follows it. -/
theorem escaped_append_inj {c d : Char} {r s : List Char} (h : escaped c ++ r = escaped d ++ s) :
    c = d ∧ r = s := by
  have hread := congrArg unescaped? h
  rw [unescaped?_escaped, unescaped?_escaped] at hread
  simpa using hread

/-- No character is written so that it could close the string. -/
theorem escaped_append_ne_mark (c : Char) (r s : List Char) : escaped c ++ r ≠ '\x22' :: s := by
  intro h
  have hread := congrArg unescaped? h
  rw [unescaped?_escaped] at hread
  obtain ⟨rfl, rfl⟩ : c = '\x22' ∧ r = s := by simpa [unescaped?] using hread
  simp [escaped] at h

theorem flatMap_escaped_append_inj {cs : List Char} : ∀ {ds r s : List Char},
    cs.flatMap escaped ++ '\x22' :: r = ds.flatMap escaped ++ '\x22' :: s → cs = ds ∧ r = s := by
  induction cs with
  | nil =>
    intro ds r s h
    cases ds with
    | nil => simpa using h
    | cons d ds =>
      rw [List.flatMap_cons, List.append_assoc] at h
      exact absurd h.symm (escaped_append_ne_mark d _ r)
  | cons c cs ih =>
    intro ds r s h
    rw [List.flatMap_cons, List.append_assoc] at h
    cases ds with
    | nil => exact absurd h (escaped_append_ne_mark c _ s)
    | cons d ds =>
      rw [List.flatMap_cons, List.append_assoc] at h
      obtain ⟨rfl, hrest⟩ := escaped_append_inj h
      obtain ⟨rfl, rfl⟩ := ih hrest
      exact ⟨rfl, rfl⟩

theorem quoted_append_inj {k l : String} {r s : List Char} (h : quoted k ++ r = quoted l ++ s) :
    k = l ∧ r = s := by
  simp only [quoted, List.cons_append, List.append_assoc, List.nil_append, List.cons.injEq, true_and] at h
  obtain ⟨hchars, hrest⟩ := flatMap_escaped_append_inj h
  exact ⟨String.toList_inj.1 hchars, hrest⟩

/-! ### Numbers -/

def Stops (r : List Char) : Prop := ∀ c ∈ r.head?, ¬ c.isDigit

theorem stops_nil : Stops [] := fun _ h => nomatch h

theorem stops_cons {c : Char} {r : List Char} (h : ¬ c.isDigit) : Stops (c :: r) := by
  simpa [Stops] using h

theorem takeWhile_append_of_stops {ds r : List Char} (hds : ∀ c ∈ ds, c.isDigit) (hr : Stops r) :
    (ds ++ r).takeWhile Char.isDigit = ds := by
  rw [List.takeWhile_append_of_pos hds]
  cases r with
  | nil => rw [List.takeWhile_nil, List.append_nil]
  | cons c r => rw [List.takeWhile_cons_of_neg (hr c rfl), List.append_nil]

theorem digits_injective {m n : Nat} (h : Nat.toDigits 10 m = Nat.toDigits 10 n) : m = n := by
  rw [← Nat.ofDigitChars_ten_toDigits (n := m), h, Nat.ofDigitChars_ten_toDigits]

/-- Digits end where none follows. -/
theorem digits_append_inj {m n : Nat} {r s : List Char} (hr : Stops r) (hs : Stops s)
    (h : Nat.toDigits 10 m ++ r = Nat.toDigits 10 n ++ s) : m = n ∧ r = s := by
  have hdigits : ∀ k, ∀ c ∈ Nat.toDigits 10 k, c.isDigit := fun k c hc =>
    Nat.isDigit_of_mem_toDigits (by decide) (by decide) hc
  have hsame := congrArg (List.takeWhile Char.isDigit) h
  rw [takeWhile_append_of_stops (hdigits m) hr, takeWhile_append_of_stops (hdigits n) hs] at hsame
  rw [hsame] at h
  exact ⟨digits_injective hsame, List.append_cancel_left h⟩

theorem exists_digit (n : Nat) : ∃ c cs, Nat.toDigits 10 n = c :: cs ∧ c.isDigit := by
  cases h : Nat.toDigits 10 n with
  | nil => exact absurd h Nat.toDigits_ne_nil
  | cons c cs =>
    have hmem : c ∈ Nat.toDigits 10 n := by simp [h]
    exact ⟨c, cs, rfl, Nat.isDigit_of_mem_toDigits (by decide) (by decide) hmem⟩

theorem minus_ne_digits (n : Nat) (r s : List Char) : '-' :: r ≠ Nat.toDigits 10 n ++ s := by
  obtain ⟨c, cs, hn, hc⟩ := exists_digit n
  rw [hn]
  rintro h
  cases h
  exact absurd hc (by decide)

theorem decimal_append_inj {i j : Int} {r s : List Char} (hr : Stops r) (hs : Stops s)
    (h : decimal i ++ r = decimal j ++ s) : i = j ∧ r = s := by
  unfold decimal at h
  split at h <;> split at h
  · obtain ⟨habs, hrest⟩ := digits_append_inj hr hs (List.cons.inj h).2
    exact ⟨by lia, hrest⟩
  · exact absurd h (minus_ne_digits _ _ _)
  · exact absurd h.symm (minus_ne_digits _ _ _)
  · obtain ⟨habs, hrest⟩ := digits_append_inj hr hs h
    exact ⟨by lia, hrest⟩

/-! ### Lists -/

def separated {α : Type} (text : α → List Char) : List α → List Char
  | [] => []
  | [x] => text x
  | x :: xs => text x ++ ',' :: separated text xs

theorem separated_cons_cons {α : Type} (text : α → List Char) (x y : α) (ys : List α) :
    separated text (x :: y :: ys) = text x ++ ',' :: separated text (y :: ys) := rfl

theorem writtenItems_eq (xs : List Json) : writtenItems xs = separated written xs := by
  induction xs with
  | nil => rfl
  | cons x xs ih =>
    cases xs with
    | nil => rfl
    | cons y ys =>
      rw [separated_cons_cons, ← ih]
      rfl

def writtenMember (m : String × Json) : List Char := quoted m.1 ++ ':' :: m.2.written

theorem writtenMembers_eq (ms : List (String × Json)) : writtenMembers ms = separated writtenMember ms := by
  induction ms with
  | nil => rfl
  | cons m ms ih =>
    cases ms with
    | nil => rfl
    | cons n ns =>
      rw [separated_cons_cons, ← ih]
      rfl

/-- What stands behind the first of a list of texts, up to the closing character and what follows. -/
def behind {α : Type} (text : α → List Char) (close : Char) (r : List Char) : List α → List Char
  | [] => close :: r
  | x :: xs => ',' :: (separated text (x :: xs) ++ close :: r)

theorem separated_cons_append {α : Type} (text : α → List Char) (close : Char) (r : List Char) (x : α)
    (xs : List α) : separated text (x :: xs) ++ close :: r = text x ++ behind text close r xs := by
  cases xs with
  | nil => rfl
  | cons y ys => rw [separated_cons_cons, behind, List.append_assoc, List.cons_append]

theorem stops_behind {α : Type} (text : α → List Char) {close : Char} (hclose : ¬ close.isDigit)
    (r : List Char) (xs : List α) : Stops (behind text close r xs) := by
  cases xs with
  | nil => exact stops_cons hclose
  | cons x xs => exact stops_cons (by decide)

/-- Among the texts of good values, that of `x` is told from what follows it. -/
def Delimited {α : Type} (text : α → List Char) (good : α → Prop) (x : α) : Prop :=
  ∀ ⦃y r s⦄, good y → Stops r → Stops s → text x ++ r = text y ++ s → x = y ∧ r = s

/-- If every text in a list is told from what follows it and none begins with the closing character, then
so is the list. -/
theorem separated_append_inj {α : Type} {text : α → List Char} {close : Char} {good : α → Prop}
    (hclose : ¬ close.isDigit) (hcomma : close ≠ ',') {xs : List α}
    (htold : ∀ x ∈ xs, Delimited text good x) (hopen : ∀ x, good x → ∀ r s, text x ++ r ≠ close :: s)
    (hxs : ∀ x ∈ xs, good x) :
    ∀ {ys r s}, (∀ y ∈ ys, good y) → separated text xs ++ close :: r = separated text ys ++ close :: s →
      xs = ys ∧ r = s := by
  induction xs with
  | nil =>
    intro ys r s hys h
    cases ys with
    | nil => exact ⟨rfl, (List.cons.inj h).2⟩
    | cons y ys =>
      rw [separated_cons_append] at h
      exact absurd h.symm (hopen y (hys y (by simp)) _ r)
  | cons x xs ih =>
    intro ys r s hys h
    rw [separated_cons_append] at h
    cases ys with
    | nil => exact absurd h (hopen x (hxs x (by simp)) _ s)
    | cons y ys =>
      rw [separated_cons_append] at h
      obtain ⟨rfl, hrest⟩ := htold x (by simp) (hys y (by simp)) (stops_behind text hclose r xs)
        (stops_behind text hclose s ys) h
      cases xs with
      | nil =>
        cases ys with
        | nil => exact ⟨rfl, (List.cons.inj hrest).2⟩
        | cons z zs => exact absurd (List.cons.inj hrest).1 hcomma
      | cons w ws =>
        cases ys with
        | nil => exact absurd (List.cons.inj hrest).1.symm hcomma
        | cons z zs =>
          obtain ⟨hsame, rfl⟩ := ih (fun x hx => htold x (by simp [hx])) (fun x hx => hxs x (by simp [hx]))
            (fun y hy => hys y (by simp [hy])) (List.cons.inj hrest).2
          exact ⟨by rw [hsame], rfl⟩

/-! ### Values -/

/-- What the first character of a value's text tells: a mark of its kind. -/
def mark : Json → Char
  | .null => 'n'
  | .bool _ => 'b'
  | .int _ | .float _ => '0'
  | .str _ => '\x22'
  | .arr _ => '['
  | .obj _ => '\x7b'

def markOf (c : Char) : Char :=
  if c.isDigit ∨ c = '-' then '0' else if c = 't' ∨ c = 'f' then 'b' else c

theorem exists_written {x : Json} (hx : x.Plain) : ∃ c cs, x.written = c :: cs ∧ markOf c = x.mark := by
  cases hx with
  | null | str | arr | obj => exact ⟨_, _, rfl, rfl⟩
  | bool b => cases b <;> exact ⟨_, _, rfl, rfl⟩
  | int i =>
    obtain ⟨c, cs, hdigits, hc⟩ := exists_digit i.natAbs
    simp only [written, decimal, hdigits]
    split
    · exact ⟨_, _, rfl, rfl⟩
    · exact ⟨c, cs, rfl, by simp [markOf, hc, mark]⟩

theorem mark_eq_of_written {x y : Json} (hx : x.Plain) (hy : y.Plain) {r s : List Char}
    (h : x.written ++ r = y.written ++ s) : x.mark = y.mark := by
  obtain ⟨c, cs, hxc, hc⟩ := exists_written hx
  obtain ⟨d, ds, hyd, hd⟩ := exists_written hy
  rw [hxc, hyd] at h
  rw [← hc, ← hd, (List.cons.inj h).1]

theorem written_append_ne_close {x : Json} (hx : x.Plain) (r s : List Char) : x.written ++ r ≠ ']' :: s := by
  obtain ⟨c, cs, hxc, hc⟩ := exists_written hx
  rw [hxc]
  intro h
  rw [(List.cons.inj h).1] at hc
  cases x <;> exact absurd hc (by simp [markOf, mark])

theorem delimited_writtenMember {m : String × Json} (hm : Delimited written Plain m.2) :
    Delimited writtenMember (·.2.Plain) m := by
  intro n r s hn hr hs h
  simp only [writtenMember, List.append_assoc, List.cons_append] at h
  obtain ⟨hname, hrest⟩ := quoted_append_inj h
  obtain ⟨hvalue, rfl⟩ := hm hn hr hs (List.cons.inj hrest).2
  exact ⟨Prod.ext hname hvalue, rfl⟩

theorem writtenMember_append_ne_close (m : String × Json) (r s : List Char) :
    writtenMember m ++ r ≠ '\x7d' :: s := fun h => by
  cases h

theorem delimited_written {x : Json} (hx : x.Plain) : Delimited written Plain x := by
  induction hx with
  | null =>
    intro y r s hy hr hs h
    have hmark := mark_eq_of_written .null hy h
    cases hy with
    | null => exact ⟨rfl, List.append_cancel_left h⟩
    | _ => cases hmark
  | bool b =>
    intro y r s hy hr hs h
    have hmark := mark_eq_of_written (.bool b) hy h
    cases hy with
    | bool c =>
      cases b <;> cases c <;> simp_all [written]
    | _ => cases hmark
  | int i =>
    intro y r s hy hr hs h
    have hmark := mark_eq_of_written (.int i) hy h
    cases hy with
    | int j =>
      obtain ⟨rfl, rfl⟩ := decimal_append_inj hr hs h
      exact ⟨rfl, rfl⟩
    | _ => cases hmark
  | str k =>
    intro y r s hy hr hs h
    have hmark := mark_eq_of_written (.str k) hy h
    cases hy with
    | str l =>
      obtain ⟨rfl, rfl⟩ := quoted_append_inj h
      exact ⟨rfl, rfl⟩
    | _ => cases hmark
  | @arr xs hxs ih =>
    intro y r s hy hr hs h
    have hmark := mark_eq_of_written (.arr hxs) hy h
    cases hy with
    | @arr ys hys =>
      simp only [written, writtenItems_eq, List.cons_append, List.append_assoc, List.nil_append,
        List.cons.injEq, true_and] at h
      obtain ⟨rfl, rfl⟩ := separated_append_inj (by decide) (by decide) ih
        (fun x hx => written_append_ne_close hx) hxs hys h
      exact ⟨rfl, rfl⟩
    | _ => cases hmark
  | @obj ms hnames hms ih =>
    intro y r s hy hr hs h
    have hmark := mark_eq_of_written (.obj hnames hms) hy h
    cases hy with
    | @obj ns hnames' hns =>
      simp only [written, writtenMembers_eq, List.cons_append, List.append_assoc, List.nil_append,
        List.cons.injEq, true_and] at h
      obtain ⟨rfl, rfl⟩ := separated_append_inj (by decide) (by decide)
        (fun m hm => delimited_writtenMember (ih m hm))
        (fun m _ => writtenMember_append_ne_close m) hms hns h
      exact ⟨rfl, rfl⟩
    | _ => cases hmark

end PriceOracle.Json
