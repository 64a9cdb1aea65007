import PriceOracle.Text.Hex
import PriceOracle.Toml.Moment
import PriceOracle.Toml.Tree
/-! Reading TOML text. Whole numbers fit a signed 64-bit word; a number with a fraction or an exponent is
told from a whole one, and its size is not kept, but it may not exceed every double. A date is read as
an object whose only member no record has. -/
namespace PriceOracle.Toml

/-- What was read, and the text after it. -/
abbrev Read (α : Type) := Option (α × List Char)

/-- How many arrays and tables in one line may stand inside one another, and how many names a key may
have. -/
def depthLimit : Nat := 79

/-! ### Blanks, comments and line ends -/

/-- Skips blanks within a line. -/
def skipSpace : List Char → List Char := List.dropWhile (fun c => c = ' ' ∨ c = '\t')

/-- Whether a character may stand as it is in comments and strings. -/
def isPlain (c : Char) : Bool := c = '\t' || (0x20 ≤ c.toNat && c.toNat ≠ 0x7f)

/-- Skips one line end. -/
def newline? : List Char → Option (List Char)
  | '\n' :: cs => some cs
  | '\r' :: '\n' :: cs => some cs
  | _ => none

/-- Skips a comment up to its line's end, if there is one here. -/
def skipComment : List Char → List Char
  | '#' :: cs => cs.dropWhile isPlain
  | cs => cs

/-- Skips the rest of a line that holds nothing more. -/
def endLine (cs : List Char) : Option (List Char) :=
  match skipComment (skipSpace cs) with
  | [] => some []
  | cs => newline? cs

/-- Skips blanks, comments and line ends. -/
def skipLines : (fuel : Nat) → List Char → List Char
  | 0, cs => cs
  | fuel + 1, cs =>
    let cs := skipComment (skipSpace cs)
    match newline? cs with
    | some cs => skipLines fuel cs
    | none => cs

/-! ### Strings and keys -/

def readEscape : List Char → Read Char
  | 'b' :: cs => some ('\x08', cs)
  | 't' :: cs => some ('\t', cs)
  | 'n' :: cs => some ('\n', cs)
  | 'f' :: cs => some ('\x0c', cs)
  | 'r' :: cs => some ('\r', cs)
  | '\x22' :: cs => some ('\x22', cs)
  | '\\' :: cs => some ('\\', cs)
  | 'u' :: cs => code 4 cs
  | 'U' :: cs => code 8 cs
  | _ => none
where
  code (width : Nat) (cs : List Char) : Option (Char × List Char) := do
    guard (width ≤ cs.length)
    let n ← Hex.number? (cs.take width)
    guard n.isValidChar
    return (Char.ofNat n, cs.drop width)

/-- Reads the rest of a string in one line, where a backslash may escape. -/
def readBasic : (fuel : Nat) → (acc : List Char) → List Char → Read String
  | fuel + 1, acc, c :: cs =>
    if c = '\x22' then some (String.ofList acc.reverse, cs)
    else if c = '\\' then
      match readEscape cs with
      | some (c, cs) => readBasic fuel (c :: acc) cs
      | none => none
    else if isPlain c then readBasic fuel (c :: acc) cs
    else none
  | _, _, _ => none

/-- Reads the rest of a string in one line, where nothing escapes. -/
def readLiteral (cs : List Char) : Read String :=
  match cs.span (fun c => isPlain c && c ≠ '\x27') with
  | (text, '\x27' :: cs) => some (String.ofList text, cs)
  | _ => none

def skipBlankLines : (fuel : Nat) → List Char → List Char
  | 0, cs => cs
  | fuel + 1, cs =>
    match newline? (skipSpace cs) with
    | some cs => skipBlankLines fuel cs
    | none => skipSpace cs

/-- The blanks and line ends that a backslash before a line end swallows. -/
def skipFold (cs : List Char) : Option (List Char) :=
  (newline? (skipSpace cs)).map fun cs => skipBlankLines cs.length cs

/-- Reads the rest of a string over several lines between three marks. One or two marks may stand before
the closing ones. -/
def readLong (mark : Char) (escapes : Bool) : (fuel : Nat) → (acc : List Char) → List Char → Read String
  | fuel + 1, acc, c :: cs =>
    if c = mark ∧ cs.take 2 = [mark, mark] then
      let more := ((cs.drop 2).takeWhile (· = mark)).length
      if more ≤ 2 then some (String.ofList (acc.reverse ++ List.replicate more mark), cs.drop (2 + more))
      else none
    else if c = '\\' ∧ escapes then
      match skipFold cs with
      | some cs => readLong mark escapes fuel acc cs
      | none =>
        match readEscape cs with
        | some (c, cs) => readLong mark escapes fuel (c :: acc) cs
        | none => none
    else if isPlain c then readLong mark escapes fuel (c :: acc) cs
    else
      match newline? (c :: cs) with
      | some cs => readLong mark escapes fuel ('\n' :: acc) cs
      | none => none
  | _, _, _ => none

def readString (cs : List Char) : Read String :=
  match cs with
  | '\x22' :: '\x22' :: '\x22' :: cs => readLong '\x22' true cs.length [] ((newline? cs).getD cs)
  | '\x27' :: '\x27' :: '\x27' :: cs => readLong '\x27' false cs.length [] ((newline? cs).getD cs)
  | '\x22' :: cs => readBasic cs.length [] cs
  | '\x27' :: cs => readLiteral cs
  | _ => none

/-- Whether a character may stand in a name without quotation marks. -/
def isNameChar (c : Char) : Bool := c.isAlphanum || c = '_' || c = '-'

/-- Reads one name of a key. -/
def readName : List Char → Read String
  | '\x22' :: cs => readBasic cs.length [] cs
  | '\x27' :: cs => readLiteral cs
  | cs =>
    match cs.span isNameChar with
    | ([], _) => none
    | (name, cs) => some (String.ofList name, cs)

/-- Reads a key of at most `names` names with dots between them. -/
def readNames : (names : Nat) → List Char → Read (List String)
  | 0, _ => none
  | names + 1, cs =>
    match readName (skipSpace cs) with
    | none => none
    | some (name, cs) =>
      match skipSpace cs with
      | '.' :: cs => (readNames names cs).map fun (key, cs) => (name :: key, cs)
      | cs => some ([name], cs)

def readKey (cs : List Char) : Read (List String) := readNames depthLimit cs

/-! ### Values -/

/-- The value of a digit in a base of at most 16. -/
def digit? (base : Nat) (c : Char) : Option Nat := (Hex.digit? c).filter (· < base)

/-- The number that digits spell, with single underscores between them allowed. -/
def digits? (base : Nat) : List Char → Option Nat
  | [] => none
  | c :: cs => do go (← digit? base c) cs
where
  go (n : Nat) : List Char → Option Nat
    | [] => some n
    | '_' :: c :: cs => do go (n * base + (← digit? base c)) cs
    | c :: cs => do go (n * base + (← digit? base c)) cs

/-- The whole number that a word spells, if it fits. -/
def int? (word : List Char) : Option Json := do
  let i : Int ← match word with
    | '0' :: 'x' :: cs => (digits? 16 cs).map Int.ofNat
    | '0' :: 'o' :: cs => (digits? 8 cs).map Int.ofNat
    | '0' :: 'b' :: cs => (digits? 2 cs).map Int.ofNat
    | '-' :: cs => (decimal? cs).map fun n => -(Int.ofNat n)
    | '+' :: cs => (decimal? cs).map Int.ofNat
    | cs => (decimal? cs).map Int.ofNat
  guard (-0x8000000000000000 ≤ i ∧ i ≤ 0x7fffffffffffffff)
  return .int i
where
  decimal? (cs : List Char) : Option Nat := do
    guard (cs.head? = some '0' → cs.length = 1)
    digits? 10 cs

/-- The exponent that follows a number, if the text after it is one. -/
def exponent? : List Char → Option Int
  | [] => some 0
  | e :: cs => do
    guard (e = 'e' ∨ e = 'E')
    match cs with
    | '+' :: cs => (digits? 10 cs).map Int.ofNat
    | '-' :: cs => (digits? 10 cs).map fun n => -(Int.ofNat n)
    | cs => (digits? 10 cs).map Int.ofNat

/-- The digits and the power of ten of the number with a fraction or an exponent that an unsigned word
spells. -/
def scientific? (word : List Char) : Option (Nat × Int) := do
  let (whole, rest) := word.span (fun c => c.isDigit || c = '_')
  guard (whole.head? ≠ some '0' ∨ whole.length = 1)
  let n ← digits? 10 whole
  match rest with
  | [] => none
  | '.' :: rest =>
    let (fraction, rest) := rest.span (fun c => c.isDigit || c = '_')
    let m ← digits? 10 fraction
    let places := (fraction.filter Char.isDigit).length
    return (n * Nat.pow 10 places + m, (← exponent? rest) - places)
  | rest => return (n, ← exponent? rest)

/-- Whether `digits · 10 ^ scale` rounds to infinity. -/
def exceeds (digits : Nat) (scale : Int) : Bool :=
  let top := (Nat.toDigits 10 digits).length + scale
  digits ≠ 0 && 309 ≤ top && (310 ≤ top || Binary64.infinity ≤ (if 0 ≤ scale then
      Binary64.nearest (digits * Nat.pow 10 scale.toNat) 1
    else Binary64.nearest digits (Nat.pow 10 (-scale).toNat)))

/-- Whether a word spells a number with a fraction or an exponent, or one that is not finite. Written in
digits, a positive number may not exceed every double. -/
def isFloat (word : List Char) : Bool :=
  let (negative, word) := match word with
    | '+' :: cs => (false, cs)
    | '-' :: cs => (true, cs)
    | cs => (false, cs)
  word = ['i', 'n', 'f'] || word = ['n', 'a', 'n']
    || (scientific? word).any fun (digits, scale) => negative || !exceeds digits scale

/-- The value of a word that is no string. -/
def word? (word : List Char) : Option Json :=
  if word = ['t', 'r', 'u', 'e'] then some (.bool true)
  else if word = ['f', 'a', 'l', 's', 'e'] then some (.bool false)
  else if isFloat word then some (.float ⟨0⟩)
  else int? word

/-- Reads a value that is neither a string nor made of others. -/
def readPlain (cs : List Char) : Read Json :=
  match pastMoment cs with
  | some cs => some (.obj [("$date", .null)], cs)
  | none =>
    let (word, rest) := cs.span (fun c => isNameChar c || c = '+' || c = '.')
    (word? word).map (·, rest)

mutual

/-- Reads a value, in which arrays and tables may nest to a depth. -/
def readValue : (fuel : Nat) → (depth : Nat) → List Char → Read Json
  | 0, _, _ => none
  | fuel + 1, depth, cs =>
    match cs with
    | '[' :: cs => if depth = 0 then none else readItems fuel (depth - 1) [] cs
    | '\x7b' :: cs =>
      if depth = 0 then none else
      match skipSpace cs with
      | '\x7d' :: cs => some (.obj [], cs)
      | cs => readMembers fuel (depth - 1) [] cs
    | '\x22' :: _ | '\x27' :: _ => (readString cs).map fun (s, cs) => (.str s, cs)
    | cs => readPlain cs

/-- Reads the items of an array, from the next one to the closing bracket. -/
def readItems : (fuel : Nat) → (depth : Nat) → (acc : List Json) → List Char → Read Json
  | 0, _, _, _ => none
  | fuel + 1, depth, acc, cs =>
    match skipLines cs.length cs with
    | ']' :: cs => some (.arr acc.reverse, cs)
    | cs =>
      match readValue fuel depth cs with
      | none => none
      | some (j, cs) =>
        match skipLines cs.length cs with
        | ',' :: cs => readItems fuel depth (j :: acc) cs
        | ']' :: cs => some (.arr (j :: acc).reverse, cs)
        | _ => none

/-- Reads the members of a table in one line, from the next one to the closing brace. -/
def readMembers : (fuel : Nat) → (depth : Nat) → Members → List Char → Read Json
  | 0, _, _, _ => none
  | fuel + 1, depth, ms, cs =>
    match readKey cs with
    | some (key, '=' :: cs) =>
      match readValue fuel depth (skipSpace cs) with
      | none => none
      | some (j, cs) =>
        match ms.write j key, skipSpace cs with
        | some ms, ',' :: cs => readMembers fuel depth ms cs
        | some ms, '\x7d' :: cs => some (.obj (membersToJson ms), cs)
        | _, _ => none
    | _ => none

end

/-! ### Documents -/

/-- Reads a header's key up to its closing brackets. -/
def readHeader (close : List Char) (cs : List Char) : Option (List String × List Char) := do
  let (key, cs) ← readKey cs
  guard (close.isPrefixOf cs)
  return (key, cs.drop close.length)

/-- Reads lines into the tables of a document, the current one of which is at a path. -/
def readLines : (fuel : Nat) → (current : List String) → Members → List Char → Option Members
  | 0, _, _, _ => none
  | fuel + 1, current, root, cs =>
    match skipLines cs.length cs with
    | [] => some root
    | '[' :: '[' :: cs => do
      let (key, cs) ← readHeader [']', ']'] cs
      let root ← root.within (·.openNext (key.getLastD "")) key.dropLast
      readLines fuel key root (← endLine cs)
    | '[' :: cs => do
      let (key, cs) ← readHeader [']'] cs
      let root ← root.within (·.openTable (key.getLastD "")) key.dropLast
      readLines fuel key root (← endLine cs)
    | cs => do
      let (key, cs) ← readKey cs
      guard (cs.head? = some '=')
      let (j, cs) ← readValue cs.length depthLimit (skipSpace cs.tail)
      let root ← root.within (·.write j key) current
      readLines fuel current root (← endLine cs)

/-- Drops the byte order mark that a text may begin with. -/
def unmarked : List Char → List Char
  | '\ufeff' :: cs => cs
  | cs => cs

/-- Reads a document as one object. -/
def ofString? (s : String) : Option Json :=
  let cs := unmarked s.toList
  (readLines (cs.length + 1) [] [] cs).map fun root => .obj (membersToJson root)

end PriceOracle.Toml
