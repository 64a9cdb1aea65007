/-! Dates and times in TOML text: a date, a time of day, or both with or without an offset from universal
time. They are checked and passed over, since no setting is a date. -/
namespace PriceOracle.Toml

/-- Reads a number of `width` decimal digits. -/
def digitsOf? : (width : Nat) → (n : Nat) → List Char → Option (Nat × List Char)
  | 0, n, cs => some (n, cs)
  | width + 1, n, c :: cs => if c.isDigit then digitsOf? width (n * 10 + (c.toNat - 48)) cs else none
  | _ + 1, _, [] => none

/-- Reads two digits that spell a number from `lo` to `hi`. -/
def twoDigits? (lo hi : Nat) (cs : List Char) : Option (Nat × List Char) :=
  (digitsOf? 2 0 cs).filter fun r => lo ≤ r.1 && r.1 ≤ hi

def past (c : Char) : List Char → Option (List Char)
  | d :: cs => if d = c then some cs else none
  | [] => none

def monthLength (year month : Nat) : Nat :=
  if month = 2 then if year % 4 = 0 ∧ (year % 100 ≠ 0 ∨ year % 400 = 0) then 29 else 28
  else if month ∈ [4, 6, 9, 11] then 30
  else 31

def pastDate (cs : List Char) : Option (List Char) := do
  let (year, cs) ← digitsOf? 4 0 cs
  let (month, cs) ← twoDigits? 1 12 (← past '-' cs)
  let (_, cs) ← twoDigits? 1 (monthLength year month) (← past '-' cs)
  return cs

/-- Passes over a time of day. A minute may have a leap second, and a second any number of places. -/
def pastTime (cs : List Char) : Option (List Char) := do
  let (_, cs) ← twoDigits? 0 23 cs
  let (_, cs) ← twoDigits? 0 59 (← past ':' cs)
  let (_, cs) ← twoDigits? 0 60 (← past ':' cs)
  match cs with
  | '.' :: c :: rest => if c.isDigit then return rest.dropWhile Char.isDigit else return cs
  | _ => return cs

/-- Passes over an offset, if there is one here. -/
def pastOffset (cs : List Char) : List Char :=
  match cs with
  | 'Z' :: cs | 'z' :: cs => cs
  | '+' :: rest | '-' :: rest =>
    (do
      let (_, rest) ← twoDigits? 0 23 rest
      let (_, rest) ← twoDigits? 0 59 (← past ':' rest)
      return rest).getD cs
  | _ => cs

def pastMoment (cs : List Char) : Option (List Char) :=
  match pastDate cs with
  | none => pastTime cs
  | some cs =>
    match cs with
    | 'T' :: rest | 't' :: rest | ' ' :: rest =>
      match pastTime rest with
      | some rest => some (pastOffset rest)
      | none => some cs
    | _ => some cs

end PriceOracle.Toml
