/-! Byte strings: numbers in big-endian order, text in UTF-8. -/
namespace PriceOracle

abbrev Bytes := List UInt8

namespace Bytes

/-- The last `width` bytes of `n`, most significant first. -/
def ofNat : (width : Nat) → (n : Nat) → Bytes
  | 0, _ => []
  | width + 1, n => ofNat width (n / 256) ++ [UInt8.ofNat n]

/-- The number that a byte string spells, most significant byte first. -/
def toNat : Bytes → Nat
  | [] => 0
  | b :: bs => b.toNat * Nat.pow 256 bs.length + toNat bs

/-- The UTF-8 form of a text. -/
def ofText (cs : List Char) : Bytes := cs.flatMap String.utf8EncodeChar

def ofString (s : String) : Bytes := ofText s.toList

@[simp]
theorem length_ofNat (width n : Nat) : (ofNat width n).length = width := by
  induction width generalizing n with
  | zero => rfl
  | succ width ih => simp [ofNat, ih]

theorem toNat_lt (bs : Bytes) : bs.toNat < Nat.pow 256 bs.length := by
  induction bs with
  | nil => exact Nat.zero_lt_one
  | cons b bs ih =>
    have hb : b.toNat + 1 ≤ 256 := b.toNat_lt
    have hmul := Nat.mul_le_mul_right (Nat.pow 256 bs.length) hb
    have hpow : Nat.pow 256 (b :: bs).length = Nat.pow 256 bs.length * 256 := rfl
    rw [Nat.add_mul] at hmul
    rw [hpow, toNat]
    omega

theorem toNat_injective {as bs : Bytes} (hl : as.length = bs.length) (h : as.toNat = bs.toNat) :
    as = bs := by
  induction as generalizing bs with
  | nil => exact (List.length_eq_zero_iff.1 hl.symm).symm
  | cons a as ih =>
    cases bs with
    | nil => simp at hl
    | cons b bs =>
      have hl' : as.length = bs.length := by simpa using hl
      have ha := toNat_lt as
      have hb := toNat_lt bs
      simp only [toNat, hl'] at h ha
      have hab : a.toNat = b.toNat := by
        have hpos : 0 < Nat.pow 256 bs.length := Nat.zero_lt_of_lt hb
        have hq := congrArg (· / Nat.pow 256 bs.length) h
        simp only [Nat.mul_comm _ (Nat.pow 256 bs.length)] at hq
        rwa [Nat.mul_add_div hpos, Nat.mul_add_div hpos, Nat.div_eq_of_lt ha, Nat.div_eq_of_lt hb] at hq
      obtain rfl := UInt8.toNat_inj.1 hab
      rw [ih hl' (by omega)]

end Bytes

end PriceOracle
