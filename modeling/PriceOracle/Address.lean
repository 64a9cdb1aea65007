import PriceOracle.Table
import PriceOracle.Text.Hex
/-! Account addresses of 20 bytes and digests of 32 bytes. Both are ordered as the big-endian numbers
their bytes spell, and written as `0x` and all their digits. -/
namespace PriceOracle

/-- An account, or the address an oracle reports from. -/
structure Address where
  toNat : Nat
  isLt : toNat < 1 <<< 160
deriving DecidableEq

namespace Address

/-- The address that the last 20 bytes of a number spell. -/
def ofNat (n : Nat) : Address := ⟨n % (1 <<< 160), Nat.mod_lt _ (by decide)⟩

/-- The address with no bit set, which nobody controls. -/
def zero : Address := ⟨0, by decide⟩

instance : Inhabited Address := ⟨zero⟩

def isZero (a : Address) : Bool := a.toNat == 0

def bytes (a : Address) : Bytes := Bytes.ofNat 20 a.toNat

/-- The written form: `0x` and 40 digits. -/
def text (a : Address) : List Char := '0' :: 'x' :: Hex.padded 40 a.toNat

instance : ToString Address := ⟨fun a => String.ofList a.text⟩

/-- Reads 40 digits or blanks, with or without the marker. -/
def ofText? (cs : List Char) : Option Address := (Hex.fixedNumber? 40 (Hex.unmarked cs)).map ofNat

theorem ext {a b : Address} (h : a.toNat = b.toNat) : a = b := by
  cases a; cases b; cases h; rfl

theorem ofNat_toNat (a : Address) : ofNat a.toNat = a := ext (Nat.mod_eq_of_lt a.isLt)

instance : Ranked Address := ⟨toNat, ext⟩

/-- Pairs of addresses are ranked by the first, then by the second. -/
instance : Ranked (Address × Address) where
  rank p := p.1.toNat * (1 <<< 160) + p.2.toNat
  rank_injective {a b} h := by
    have := a.1.isLt
    have := a.2.isLt
    have := b.1.isLt
    have := b.2.isLt
    exact Prod.ext (ext (by omega)) (ext (by omega))

end Address

structure Hash where
  toNat : Nat
  isLt : toNat < 1 <<< 256
deriving DecidableEq

namespace Hash

/-- The digest that the last 32 bytes of a number spell. -/
def ofNat (n : Nat) : Hash := ⟨n % (1 <<< 256), Nat.mod_lt _ (by decide)⟩

instance : Inhabited Hash := ⟨ofNat 0⟩

def bytes (h : Hash) : Bytes := Bytes.ofNat 32 h.toNat

/-- The written form: `0x` and 64 digits. -/
def text (h : Hash) : List Char := '0' :: 'x' :: Hex.padded 64 h.toNat

/-- Reads 64 digits or blanks, with or without the marker. -/
def ofText? (cs : List Char) : Option Hash := (Hex.fixedNumber? 64 (Hex.unmarked cs)).map ofNat

/-- The account named by the last 20 bytes. -/
def account (h : Hash) : Address := Address.ofNat h.toNat

end Hash

end PriceOracle
