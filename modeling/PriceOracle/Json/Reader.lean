import PriceOracle.Json.Basic
import PriceOracle.Text.Hex
/-! Reading JSON text. A value is read strictly: numbers must be in range, escapes of surrogates must
come in pairs, and containers nest to a limited depth. A value that nobody looks at is only passed
over: it must be well formed, and the other conditions do not apply. -/
namespace PriceOracle.Json.Reader

/-- What was read, and the text after it. -/
abbrev Read (α : Type) := Option (α × List Char)

/-- How many containers may stand inside one another. -/
def depthLimit : Nat := 127

def skipBlanks : List Char → List Char
  | c :: cs => if c = ' ' ∨ c = '\n' ∨ c = '\t' ∨ c = '\r' then skipBlanks cs else c :: cs
  | [] => []

/-! ### Numbers -/

def digit? (c : Char) : Option Nat := if '0' ≤ c ∧ c ≤ '9' then some (c.toNat - 48) else none

/-- Splits off the leading digits. -/
def spanDigits (cs : List Char) : List Char × List Char := cs.span (fun c => (digit? c).isSome)

/-- Appends digits to a significand while it fits a word; also how many were left over. -/
def significand (start : Nat) : List Char → Nat × Nat
  | [] => (start, 0)
  | c :: cs =>
    let next := start * 10 + (digit? c).getD 0
    if next < 1 <<< 64 then significand next cs else (start, cs.length + 1)

/-- The value of an exponent's digits, and whether it is too large to be told from any other. -/
def exponentValue (ds : List Char) : Nat × Bool :=
  let n := ds.foldl (fun n c => min (n * 10 + (digit? c).getD 0) (1 <<< 31)) 0
  (n, 1 <<< 31 ≤ n)

/-- Reads a number. Of the digits only those that fit a word count; the others scale. Without fraction
and exponent a number that fits is whole. -/
def readNumber (strict : Bool) (cs : List Char) : Option (Json × List Char) := do
  let (negative, cs) := match cs with
    | '-' :: rest => (true, rest)
    | _ => (false, cs)
  let (whole, cs) := spanDigits cs
  guard (whole ≠ [] ∧ (whole.head? = some '0' → whole.length = 1))
  let (fraction, cs) ← match cs with
    | '.' :: rest =>
      let (ds, rest) := spanDigits rest
      if ds = [] then none else some (some ds, rest)
    | _ => some (none, cs)
  let (exponent, cs) ← match cs with
    | e :: rest =>
      if e = 'e' ∨ e = 'E' then
        let (down, rest) := match rest with
          | '+' :: r => (false, r)
          | '-' :: r => (true, r)
          | _ => (false, rest)
        let (ds, rest) := spanDigits rest
        if ds = [] then none else some (some (down, ds), rest)
      else some (none, cs)
    | [] => some (none, cs)
  let (wholePart, scaleUp) := significand 0 whole
  match fraction, exponent with
  | none, none =>
    if scaleUp = 0 ∧ ¬ (negative ∧ (wholePart = 0 ∨ 1 <<< 63 < wholePart)) then
      return (.int (if negative then -wholePart else wholePart), cs)
    else
      float negative wholePart scaleUp none cs
  | _, _ =>
    let ds := fraction.getD []
    let (all, cut) := significand wholePart ds
    float negative all (scaleUp - (ds.length - cut : Nat)) exponent cs
where
  float (negative : Bool) (digits : Nat) (scale : Int) (exponent : Option (Bool × List Char))
      (cs : List Char) : Option (Json × List Char) := do
    let (down, ds) := exponent.getD (false, [])
    let (n, huge) := exponentValue ds
    if !strict then return (.float ⟨0⟩, cs)
    if huge then
      guard (digits = 0 ∨ down)
      return (.float (.ofMagnitude negative 0), cs)
    let mag ← Binary64.ofDecimal? digits (if down then scale - n else scale + n)
    return (.float (.ofMagnitude negative mag), cs)

/-! ### Strings -/

/-- Reads four hexadecimal digits. -/
def readCode : List Char → Read Nat
  | a :: b :: c :: d :: rest => (Hex.number? [a, b, c, d]).map (·, rest)
  | _ => none

def readEscape (strict : Bool) : List Char → Option (Char × List Char)
  | '\x22' :: cs => some ('\x22', cs)
  | '\\' :: cs => some ('\\', cs)
  | '/' :: cs => some ('/', cs)
  | 'b' :: cs => some ('\x08', cs)
  | 'f' :: cs => some ('\x0c', cs)
  | 'n' :: cs => some ('\n', cs)
  | 'r' :: cs => some ('\r', cs)
  | 't' :: cs => some ('\t', cs)
  | 'u' :: cs => do
    let (n, cs) ← readCode cs
    if n < 0xd800 ∨ 0xe000 ≤ n then return (Char.ofNat n, cs)
    if !strict then return (Char.ofNat 0xfffd, cs)
    guard (n < 0xdc00)
    match cs with
    | '\\' :: 'u' :: cs =>
      let (low, cs) ← readCode cs
      guard (0xdc00 ≤ low ∧ low < 0xe000)
      return (Char.ofNat (0x10000 + (n - 0xd800) * 0x400 + (low - 0xdc00)), cs)
    | _ => none
  | _ => none

/-- Reads the rest of a string after its first quotation mark. -/
def readString (strict : Bool) : (fuel : Nat) → (acc : List Char) → List Char → Read String
  | 0, _, _ => none
  | fuel + 1, acc, cs =>
    match cs with
    | [] => none
    | c :: cs =>
      if c = '\x22' then some (String.ofList acc.reverse, cs)
      else if c = '\\' then
        match readEscape strict cs with
        | some (c, cs) => readString strict fuel (c :: acc) cs
        | none => none
      else if c.toNat < 0x20 then none
      else readString strict fuel (c :: acc) cs

/-! ### Values -/

def readWord : List Char → List Char → Json → Read Json
  | [], cs, j => some (j, cs)
  | w :: ws, c :: cs, j => if w = c then readWord ws cs j else none
  | _ :: _, [], _ => none

mutual

/-- Reads a value, after blanks. -/
def readValue (strict : Bool) : (fuel : Nat) → (depth : Nat) → List Char → Read Json
  | 0, _, _ => none
  | fuel + 1, depth, cs =>
    match skipBlanks cs with
    | '\x22' :: cs => (readString strict cs.length.succ [] cs).map (fun r => (.str r.1, r.2))
    | '[' :: cs =>
      if strict ∧ depth = 0 then none else
      match skipBlanks cs with
      | ']' :: cs => some (.arr [], cs)
      | cs => readItems strict fuel (depth - 1) [] cs
    | '\x7b' :: cs =>
      if strict ∧ depth = 0 then none else
      match skipBlanks cs with
      | '\x7d' :: cs => some (.obj [], cs)
      | cs => readMembers strict fuel (depth - 1) [] cs
    | 'n' :: cs => readWord ['u', 'l', 'l'] cs .null
    | 't' :: cs => readWord ['r', 'u', 'e'] cs (.bool true)
    | 'f' :: cs => readWord ['a', 'l', 's', 'e'] cs (.bool false)
    | cs => readNumber strict cs

/-- Reads the items of an array, from the next one to the closing bracket. -/
def readItems (strict : Bool) : (fuel : Nat) → (depth : Nat) → (acc : List Json) → List Char → Read Json
  | 0, _, _, _ => none
  | fuel + 1, depth, acc, cs =>
    match readValue strict fuel depth cs with
    | none => none
    | some (x, cs) =>
      match skipBlanks cs with
      | ',' :: cs => readItems strict fuel depth (x :: acc) cs
      | ']' :: cs => some (.arr (x :: acc).reverse, cs)
      | _ => none

/-- Reads the members of an object, from the next one to the closing brace. -/
def readMembers (strict : Bool) :
    (fuel : Nat) → (depth : Nat) → (acc : List (String × Json)) → List Char → Read Json
  | 0, _, _, _ => none
  | fuel + 1, depth, acc, cs =>
    match readKey strict cs with
    | none => none
    | some (k, cs) =>
      match readValue strict fuel depth cs with
      | none => none
      | some (v, cs) =>
        match skipBlanks cs with
        | ',' :: cs => readMembers strict fuel depth ((k, v) :: acc) cs
        | '\x7d' :: cs => some (object ((k, v) :: acc).reverse, cs)
        | _ => none

/-- Reads a member's name and the colon after it. -/
def readKey (strict : Bool) (cs : List Char) : Read String :=
  match skipBlanks cs with
  | '\x22' :: cs =>
    match readString strict cs.length.succ [] cs with
    | some (k, cs) =>
      match skipBlanks cs with
      | ':' :: cs => some (k, cs)
      | _ => none
    | none => none
  | _ => none

end

end Reader

def ofText? (cs : List Char) : Option Json :=
  match Reader.readValue true (2 * cs.length + 2) Reader.depthLimit cs with
  | some (j, rest) => if Reader.skipBlanks rest = [] then some j else none
  | none => none

def ofString? (s : String) : Option Json := ofText? s.toList

end PriceOracle.Json
