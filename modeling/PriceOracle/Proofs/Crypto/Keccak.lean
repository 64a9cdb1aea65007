import Mathlib.Tactic.IntervalCases
import PriceOracle.Crypto.Keccak
/-! The hash on plain numbers. The permutation is written out lane by lane, for whatever stands for a lane.
For machine words it is the permutation of the hash; and reading words as numbers turns it into the same
permutation on numbers below `2 ^ 64`, which the kernel computes at once. The hash of a given message is found
in this way. -/
namespace PriceOracle.Keccak

/-! ### Lanes of any kind -/

/-- What a round does to lanes. -/
structure LaneOps (α : Type) where
  xor : α → α → α
  /-- The second where the first has no bit. -/
  without : α → α → α
  rotate : α → Nat → α

/-- Five lanes side by side. -/
structure Row (α : Type) where
  (a b c d e : α)

/-- All lanes, in five rows. -/
structure Sheet (α : Type) where
  (p q r s t : Row α)

section Round

variable {α β : Type} (o : LaneOps α) (o' : LaneOps β)

def Row.map (f : α → β) (r : Row α) : Row β := ⟨f r.a, f r.b, f r.c, f r.d, f r.e⟩

def Row.xor (r r' : Row α) : Row α :=
  ⟨o.xor r.a r'.a, o.xor r.b r'.b, o.xor r.c r'.c, o.xor r.d r'.d, o.xor r.e r'.e⟩

/-- What a column is mixed with, for each place in a row: the parities of its two neighbours. -/
def Row.spread (r : Row α) : Row α :=
  ⟨o.xor r.e (o.rotate r.b 1), o.xor r.a (o.rotate r.c 1), o.xor r.b (o.rotate r.d 1),
    o.xor r.c (o.rotate r.e 1), o.xor r.d (o.rotate r.a 1)⟩

def Row.chi (r : Row α) : Row α :=
  ⟨o.xor r.a (o.without r.b r.c), o.xor r.b (o.without r.c r.d), o.xor r.c (o.without r.d r.e),
    o.xor r.d (o.without r.e r.a), o.xor r.e (o.without r.a r.b)⟩

def Sheet.map (f : α → β) (x : Sheet α) : Sheet β := ⟨x.p.map f, x.q.map f, x.r.map f, x.s.map f, x.t.map f⟩

def Sheet.theta (x : Sheet α) : Sheet α :=
  let mix := ((((x.p.xor o x.q).xor o x.r).xor o x.s).xor o x.t).spread o
  ⟨x.p.xor o mix, x.q.xor o mix, x.r.xor o mix, x.s.xor o mix, x.t.xor o mix⟩

def Sheet.rhoPi (x : Sheet α) : Sheet α where
  p := ⟨o.rotate x.p.a 0, o.rotate x.q.b 44, o.rotate x.r.c 43, o.rotate x.s.d 21, o.rotate x.t.e 14⟩
  q := ⟨o.rotate x.p.d 28, o.rotate x.q.e 20, o.rotate x.r.a 3, o.rotate x.s.b 45, o.rotate x.t.c 61⟩
  r := ⟨o.rotate x.p.b 1, o.rotate x.q.c 6, o.rotate x.r.d 25, o.rotate x.s.e 8, o.rotate x.t.a 18⟩
  s := ⟨o.rotate x.p.e 27, o.rotate x.q.a 36, o.rotate x.r.b 10, o.rotate x.s.c 15, o.rotate x.t.d 56⟩
  t := ⟨o.rotate x.p.c 62, o.rotate x.q.d 55, o.rotate x.r.e 39, o.rotate x.s.a 41, o.rotate x.t.b 2⟩

def Sheet.round (x : Sheet α) (constant : α) : Sheet α :=
  let y := (x.theta o).rhoPi o
  let p := y.p.chi o
  ⟨{ p with a := o.xor p.a constant }, y.q.chi o, y.r.chi o, y.s.chi o, y.t.chi o⟩

def Sheet.permute (x : Sheet α) (constants : List α) : Sheet α := constants.foldl (Sheet.round o) x

/-- Adds the words of a block, given by their places, to the lanes. -/
def Sheet.add (x : Sheet α) (block : Nat → α) : Sheet α where
  p := x.p.xor o ⟨block 0, block 1, block 2, block 3, block 4⟩
  q := x.q.xor o ⟨block 5, block 6, block 7, block 8, block 9⟩
  r := x.r.xor o ⟨block 10, block 11, block 12, block 13, block 14⟩
  s := x.s.xor o ⟨block 15, block 16, block 17, block 18, block 19⟩
  t := x.t.xor o ⟨block 20, block 21, block 22, block 23, block 24⟩

/-- The same in every lane. -/
def Row.fill (v : α) : Row α := ⟨v, v, v, v, v⟩

def Sheet.fill (v : α) : Sheet α := ⟨.fill v, .fill v, .fill v, .fill v, .fill v⟩

/-- A reading of lanes that keeps what a round does to them. -/
structure Reading (f : α → β) : Prop where
  xor : ∀ a b, f (o.xor a b) = o'.xor (f a) (f b)
  without : ∀ a b, f (o.without a b) = o'.without (f a) (f b)
  rotate : ∀ a n, n < 64 → f (o.rotate a n) = o'.rotate (f a) n

variable {o o'}

theorem Reading.round {f : α → β} (h : Reading o o' f) (x : Sheet α) (constant : α) :
    (x.round o constant).map f = (x.map f).round o' (f constant) := by
  have hr : ∀ a n, n < 64 → f (o.rotate a n) = o'.rotate (f a) n := h.rotate
  simp (disch := decide) only [Sheet.round, Sheet.rhoPi, Sheet.theta, Sheet.map, Row.map, Row.xor, Row.spread,
    Row.chi, h.xor, h.without, hr]

theorem Reading.permute {f : α → β} (h : Reading o o' f) (constants : List α) (x : Sheet α) :
    (x.permute o constants).map f = (x.map f).permute o' (constants.map f) := by
  induction constants generalizing x with
  | nil => rfl
  | cons constant constants ih =>
    rw [Sheet.permute, List.foldl_cons, List.map_cons, Sheet.permute, List.foldl_cons, ← h.round]
    exact ih _

theorem Reading.add {f : α → β} (h : Reading o o' f) (x : Sheet α) (block : Nat → α) :
    (x.add o block).map f = (x.map f).add o' (f <| block ·) := by
  simp only [Sheet.add, Sheet.map, Row.map, Row.xor, h.xor]

end Round

/-! ### Words -/

/-- The lanes of the hash. -/
def words : LaneOps UInt64 := ⟨(· ^^^ ·), fun a b => ~~~ a &&& b, rotate⟩

def Sheet.lanes (x : Sheet UInt64) : Lanes := #v[
  x.p.a, x.p.b, x.p.c, x.p.d, x.p.e,
  x.q.a, x.q.b, x.q.c, x.q.d, x.q.e,
  x.r.a, x.r.b, x.r.c, x.r.d, x.r.e,
  x.s.a, x.s.b, x.s.c, x.s.d, x.s.e,
  x.t.a, x.t.b, x.t.c, x.t.d, x.t.e]

theorem tabulate_eq (f : Nat → Nat → UInt64) : tabulate f = #v[
    f 0 0, f 1 0, f 2 0, f 3 0, f 4 0,
    f 0 1, f 1 1, f 2 1, f 3 1, f 4 1,
    f 0 2, f 1 2, f 2 2, f 3 2, f 4 2,
    f 0 3, f 1 3, f 2 3, f 3 3, f 4 3,
    f 0 4, f 1 4, f 2 4, f 3 4, f 4 4] := by
  refine Vector.ext fun i hi => ?_
  rw [tabulate, Vector.getElem_ofFn]
  interval_cases i <;> simp

theorem theta_lanes (x : Sheet UInt64) : theta x.lanes = (x.theta words).lanes := by
  rw [theta, tabulate_eq]
  rfl

theorem rhoPi_lanes (x : Sheet UInt64) : rhoPi x.lanes = (x.rhoPi words).lanes := by
  rw [rhoPi, tabulate_eq]
  rfl

theorem chi_lanes (x : Sheet UInt64) : chi x.lanes = (Sheet.mk (x.p.chi words) (x.q.chi words)
    (x.r.chi words) (x.s.chi words) (x.t.chi words)).lanes := by
  rw [chi, tabulate_eq]
  rfl

theorem round_lanes (x : Sheet UInt64) (constant : UInt64) :
    round x.lanes constant = (x.round words constant).lanes := by
  rw [round, theta_lanes, rhoPi_lanes, chi_lanes]
  rfl

theorem permute_lanes (x : Sheet UInt64) : permute x.lanes = (x.permute words roundConstants).lanes := by
  unfold permute Sheet.permute
  induction roundConstants generalizing x with
  | nil => rfl
  | cons constant constants ih => rw [List.foldl_cons, List.foldl_cons, round_lanes, ih]

def blockWord (block : Bytes) (i : Nat) : UInt64 := littleEndian ((block.drop (8 * i)).take 8)

theorem absorb_lanes (x : Sheet UInt64) (block : Bytes) :
    absorb x.lanes block = ((x.add words (blockWord block)).permute words roundConstants).lanes := by
  have hadd : Vector.ofFn (fun i : Fin 25 => x.lanes[i] ^^^ littleEndian ((block.drop (8 * i.val)).take 8))
      = (x.add words (blockWord block)).lanes := by
    refine Vector.ext fun i hi => ?_
    rw [Vector.getElem_ofFn]
    simp only [Fin.getElem_fin]
    interval_cases i <;> simp [Sheet.lanes, Sheet.add, Row.xor, words, blockWord]
  rw [absorb, hadd, permute_lanes]

/-! ### Numbers -/

def numbers : LaneOps Nat where
  xor := (· ^^^ ·)
  without a b := (2 ^ 64 - 1 - a) &&& b
  rotate w n := (w <<< n ||| w >>> (64 - n)) % 2 ^ 64

theorem reading_toNat : Reading words numbers UInt64.toNat where
  xor := UInt64.toNat_xor
  without a b := by
    show (~~~ a &&& b).toNat = _
    rw [UInt64.toNat_and, UInt64.toNat_not]
    rfl
  rotate w n hn := by
    have hcount : ∀ k, k < 64 → (UInt64.ofNat k).toNat % 64 = k := fun k hk => by
      rw [UInt64.toNat_ofNat', Nat.mod_mod_of_dvd k (by decide), Nat.mod_eq_of_lt hk]
    simp only [words, numbers, Keccak.rotate]
    split
    · subst n
      have hw : w.toNat >>> 64 = 0 := by
        rw [Nat.shiftRight_eq_div_pow]
        exact Nat.div_eq_of_lt w.toNat_lt
      rw [Nat.shiftLeft_zero, Nat.sub_zero, hw, Nat.or_zero]
      exact (Nat.mod_eq_of_lt w.toNat_lt).symm
    · have hright : w.toNat >>> (64 - n) < 2 ^ 64 := by
        rw [Nat.shiftRight_eq_div_pow]
        exact Nat.lt_of_le_of_lt (Nat.div_le_self _ _) w.toNat_lt
      rw [UInt64.toNat_or, UInt64.toNat_shiftLeft, UInt64.toNat_shiftRight, hcount n hn,
        hcount (64 - n) (by omega), Nat.or_mod_two_pow, Nat.mod_eq_of_lt hright]

def blockNumber (block : Bytes) (i : Nat) : Nat := Bytes.toNat ((block.drop (8 * i)).take 8).reverse

def Sheet.absorbAll (x : Sheet Nat) : (blocks : Nat) → Bytes → Sheet Nat
  | 0, _ => x
  | blocks + 1, bs =>
    ((x.add numbers (blockNumber (bs.take rate))).permute numbers (roundConstants.map UInt64.toNat)).absorbAll
      blocks (bs.drop rate)

theorem toNat_blockWord (block : Bytes) (i : Nat) : (blockWord block i).toNat = blockNumber block i := by
  unfold blockWord blockNumber littleEndian
  rw [UInt64.toNat_ofNat']
  refine Nat.mod_eq_of_lt (Nat.lt_of_lt_of_le (Bytes.toNat_lt _) ?_)
  have hlength : ((block.drop (8 * i)).take 8).reverse.length ≤ 8 := by
    rw [List.length_reverse, List.length_take]
    exact Nat.min_le_left _ _
  exact Nat.pow_le_pow_right (by decide : 0 < 256) hlength

theorem absorbAll_lanes (blocks : Nat) (x : Sheet UInt64) (bs : Bytes) :
    ∃ y : Sheet UInt64, absorbAll x.lanes blocks bs = y.lanes ∧
      y.map UInt64.toNat = (x.map UInt64.toNat).absorbAll blocks bs := by
  induction blocks generalizing x bs with
  | zero => exact ⟨x, rfl, rfl⟩
  | succ blocks ih =>
    rw [absorbAll, absorb_lanes, Sheet.absorbAll]
    obtain ⟨y, hy, hnumbers⟩ :=
      ih ((x.add words (blockWord (bs.take rate))).permute words roundConstants) (bs.drop rate)
    refine ⟨y, hy, ?_⟩
    rw [hnumbers, reading_toNat.permute, reading_toNat.add]
    simp only [toNat_blockWord]

/-- The digest of a message, computed on numbers. -/
def numberDigest (message : Bytes) : Bytes :=
  let text := padded message
  let p := ((Sheet.fill 0).absorbAll (text.length / rate) text).p
  [p.a, p.b, p.c, p.d].flatMap fun n => (Bytes.ofNat 8 n).reverse

theorem digest_eq (message : Bytes) : digest message = numberDigest message := by
  obtain ⟨y, hy, hnumbers⟩ := absorbAll_lanes ((padded message).length / rate) (.fill 0) (padded message)
  have hzero : (Sheet.fill (0 : UInt64)).lanes = Vector.replicate 25 0 := rfl
  have hfill : (Sheet.fill (0 : UInt64)).map UInt64.toNat = .fill 0 := rfl
  rw [hfill] at hnumbers
  unfold digest numberDigest
  simp only [← hzero, hy, ← hnumbers]
  rfl

end PriceOracle.Keccak

namespace PriceOracle

/-- The hash of a message, computed on numbers. -/
theorem keccak256_eq (message : Bytes) :
    keccak256 message = Hash.ofNat (Keccak.numberDigest message).toNat := by
  rw [keccak256, Keccak.digest_eq]

/-- The hash of three letters. -/
example : keccak256 (Bytes.ofString "abc")
    = .ofNat 0x4e03657aea45a94fc7d47ba826c8d667c0d1e6e33a64a036ec44f58fa12d6c45 := by
  rw [keccak256_eq]
  decide +kernel

end PriceOracle
