import PriceOracle.Proofs.Json.Reader
import PriceOracle.Proofs.Json.Widened
import PriceOracle.Proofs.Pair
import PriceOracle.Proofs.Text.Hex
import PriceOracle.Wire.Scalar
/-! Texts, numbers, amounts, addresses and pairs are read as they were written. -/
namespace PriceOracle

open Json

theorem readAs_str (s : String) : ReadAs str? (.str s) s := readAs_of_atom rfl rfl rfl

theorem Word.readAs_nat {n : Nat} (h : n < limit) : ReadAs ofJson? (.nat n) n := by
  refine readAs_of_atom rfl rfl ?_
  have hfits : 0 ≤ (n : Int) ∧ (n : Int).toNat < limit := ⟨Int.natCast_nonneg n, h⟩
  rw [ofJson?, Json.nat, nat?, if_pos hfits]
  rfl

theorem Word.readAs_ofOption {o : Option Nat} (h : ∀ n ∈ o, n < limit) :
    ReadAs (Fields.nullable ofJson?) (.ofOption .nat o) o := by
  cases o with
  | none => exact readAs_of_atom rfl rfl rfl
  | some n =>
    have hn : ofJson? (.nat n) = some n := readAs_nat (h n rfl) _ (.refl _)
    have hread : (ofJson? (.nat n)).map some = some (some n) := congrArg (Option.map some) hn
    exact readAs_of_atom rfl rfl hread

theorem Amount.ofText?_text {a : Amount} (h : a < limit) : ofText? a.text = some a := by
  have hfits : a < 16 ^ 64 := h.trans_le (by decide)
  have hpos := Hex.width_pos a
  have hwidth := Hex.width_le (by decide) hfits
  have hdigits : Hex.minimal a ≠ [] ∧ (Hex.minimal a).length ≤ 64 := by
    rw [← List.length_pos_iff, Hex.minimal, Hex.length_padded]
    exact ⟨hpos, hwidth⟩
  rw [ofText?, text, Hex.unmarked, if_pos hdigits, Hex.spacedNumber?_minimal]

theorem Amount.readAs_toJson {a : Amount} (h : a < limit) : ReadAs ofJson? a.toJson a := by
  refine readAs_of_atom rfl rfl ?_
  rw [ofJson?, toJson, str?, Option.bind_some, String.toList_ofList, ofText?_text h]

theorem Address.ofText?_text (a : Address) : ofText? a.text = some a := by
  have hdigits : a.toNat % 16 ^ 40 = a.toNat := Nat.mod_eq_of_lt (a.isLt.trans_le (by decide))
  rw [ofText?, text, Hex.unmarked, Hex.fixedNumber?_padded, Option.map_some, hdigits, ofNat_toNat]

theorem Address.readAs_toJson (a : Address) : ReadAs ofJson? a.toJson a := by
  refine readAs_of_atom rfl rfl ?_
  have htext : (toString a).toList = a.text := String.toList_ofList
  rw [ofJson?, toJson, str?, Option.bind_some, htext, ofText?_text]

theorem Address.readAs_listToJson (as : List Address) : ReadAs listOfJson? (listToJson as) as :=
  readAs_listOf fun a _ => readAs_toJson a

theorem CoinPair.readAs_toJson {p : CoinPair} (h : p.Named) : ReadAs ofJson? p.toJson p := by
  refine readAs_of_atom rfl rfl ?_
  rw [ofJson?, toJson, str?, Option.bind_some, h.ofName?_name]

/-! ### Legible forms -/

@[simp]
theorem Word.legible_nat_iff {depth n : Nat} : Legible depth (.nat n) ↔ n < limit := by
  constructor
  · intro h
    cases h with
    | int _ _ hmax => exact Int.ofNat_lt.1 hmax
  · intro h
    exact .int depth (by lia) (Int.ofNat_lt.2 h)

@[simp]
theorem Word.legible_ofOption_iff {depth : Nat} {o : Option Nat} :
    Legible depth (.ofOption .nat o) ↔ ∀ n ∈ o, n < limit := by
  cases o with
  | none => simp [Json.ofOption, Legible.null]
  | some n => simp [Json.ofOption]

@[simp]
theorem legible_str (depth : Nat) (s : String) : Legible depth (.str s) := .str depth s

@[simp]
theorem Amount.legible_toJson (depth : Nat) (a : Amount) : Legible depth a.toJson := .str depth _

@[simp]
theorem Address.legible_toJson (depth : Nat) (a : Address) : Legible depth a.toJson := .str depth _

@[simp]
theorem CoinPair.legible_toJson (depth : Nat) (p : CoinPair) : Legible depth p.toJson := .str depth _

@[simp]
theorem Address.legible_listToJson (depth : Nat) (as : List Address) :
    Legible (depth + 1) (listToJson as) := by
  refine .arr fun x hx => ?_
  obtain ⟨a, -, rfl⟩ := List.mem_map.1 hx
  exact a.legible_toJson depth

/-! ### Ranges -/

/-- The numbers of a record are in their ranges, and its pair, if it tells one, was made from a name. -/
structure InRange (amounts : List Amount) (words : List Nat) (pair : Option CoinPair) : Prop where
  amount_lt : ∀ a ∈ amounts, a < Amount.limit
  word_lt : ∀ n ∈ words, n < Word.limit
  named : ∀ p ∈ pair, p.Named

namespace InRange

variable {amounts : List Amount} {words : List Nat} {pair : Option CoinPair}

theorem readAs_amount (h : InRange amounts words pair) {a : Amount} (ha : a ∈ amounts) :
    ReadAs Amount.ofJson? (Amount.toJson a) a :=
  Amount.readAs_toJson (h.amount_lt a ha)

theorem readAs_word (h : InRange amounts words pair) {n : Nat} (hn : n ∈ words) :
    ReadAs Word.ofJson? (.nat n) n :=
  Word.readAs_nat (h.word_lt n hn)

theorem readAs_pair (h : InRange amounts words pair) {p : CoinPair} (hp : pair = some p) :
    ReadAs CoinPair.ofJson? p.toJson p :=
  CoinPair.readAs_toJson (h.named p hp)

end InRange

end PriceOracle
