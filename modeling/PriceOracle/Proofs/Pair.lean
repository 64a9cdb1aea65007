import PriceOracle.Pair
/-! Names of pairs. The bytes of a name are its characters, and zeros stand only behind it, so the name is
read off a pair as it was given, and pairs stand in the order of their names. -/
namespace PriceOracle

theorem Utf8.lossy_map_ofNat {cs : List Char} (h : ∀ c ∈ cs, c.toNat < 128) :
    lossy (cs.map fun c => UInt8.ofNat c.toNat) = cs := by
  induction cs with
  | nil => rfl
  | cons c cs ih =>
    have hc := h c (by simp)
    have hbyte : (UInt8.ofNat c.toNat).toNat = c.toNat := UInt8.toNat_ofNat_of_lt' (Nat.lt_trans hc (by decide))
    have hlead : followers (UInt8.ofNat c.toNat) = some (0, 0x80, 0xbf) := by
      have hsmall : UInt8.ofNat c.toNat < 0x80 := by
        rw [UInt8.lt_iff_toNat_lt, hbyte]
        exact hc
      rw [followers, if_pos hsmall]
    have hrest : read 0 0 0x80 0xbf (cs.map fun c => UInt8.ofNat c.toNat) = cs :=
      ih fun d hd => h d (by simp [hd])
    simp [lossy, read, hlead, hbyte, hrest]

namespace CoinPair

theorem nonzero_of_isName {cs : List Char} (h : IsName cs) :
    ∀ b ∈ cs.map (fun c => UInt8.ofNat c.toNat), b ≠ 0 := by
  intro b hb hzero
  obtain ⟨c, hc, rfl⟩ := List.mem_map.1 hb
  obtain ⟨hascii, hnul⟩ := h.2.2 c hc
  refine hnul (Char.toNat_inj.1 ?_)
  have hbyte := congrArg UInt8.toNat hzero
  rwa [UInt8.toNat_ofNat_of_lt' (Nat.lt_trans hascii (by decide))] at hbyte

/-- The bytes of a name, as far as the zeros behind it. -/
theorem takeWhile_bytes_of_isName {cs : List Char} (h : IsName cs) (zeros : Nat) :
    (cs.map (fun c : Char => UInt8.ofNat c.toNat) ++ List.replicate zeros 0).takeWhile (· != 0)
      = cs.map fun c => UInt8.ofNat c.toNat := by
  rw [List.takeWhile_append_of_pos fun b hb => bne_iff_ne.2 (nonzero_of_isName h b hb)]
  cases zeros <;> simp [List.replicate_succ]

theorem name_of_ofName? {s : String} {p : CoinPair} (h : ofName? s = some p) : p.name = s := by
  rw [ofName?] at h
  split at h
  case isFalse => cases h
  case isTrue hname =>
    cases h
    rw [name, takeWhile_bytes_of_isName hname, Utf8.lossy_map_ofNat fun c hc => (hname.2.2 c hc).1,
      String.ofList_toList]

/-- A pair was made from a name. -/
def Named (p : CoinPair) : Prop := ∃ s, ofName? s = some p

theorem Named.ofName?_name {p : CoinPair} (h : p.Named) : ofName? p.name = some p := by
  obtain ⟨s, hs⟩ := h
  rw [name_of_ofName? hs, hs]

end CoinPair

/-! ### Order -/

namespace Bytes

/-- Two numbers are compared by their first digit, and by what follows it if that is the same. -/
theorem digit_lt_iff {a b x y base : Nat} (hx : x < base) (hy : y < base) :
    a * base + x < b * base + y ↔ a < b ∨ a = b ∧ x < y := by
  rcases Nat.lt_trichotomy a b with hlt | rfl | hlt
  · have hmul := Nat.mul_le_mul_right base hlt
    rw [Nat.succ_mul] at hmul
    omega
  · omega
  · have hmul := Nat.mul_le_mul_right base hlt
    rw [Nat.succ_mul] at hmul
    omega

/-- Byte strings of one length stand in the order of the numbers they spell. -/
theorem toNat_lt_toNat {as bs : Bytes} (hlength : as.length = bs.length) : as.toNat < bs.toNat ↔ as < bs := by
  induction as generalizing bs with
  | nil =>
    obtain rfl := List.length_eq_zero_iff.1 hlength.symm
    simp
  | cons a as ih =>
    cases bs with
    | nil => cases hlength
    | cons b bs =>
      have hrest : as.length = bs.length := Nat.succ.inj hlength
      have ha := toNat_lt as
      rw [hrest] at ha
      rw [toNat, toNat, hrest, digit_lt_iff ha (toNat_lt bs), List.cons_lt_cons_iff, ih hrest,
        ← UInt8.lt_iff_toNat_lt, UInt8.toNat_inj]

/-- Zeros behind strings without zeros do not change their order. -/
theorem padded_lt_padded {as bs : Bytes} (ha : ∀ a ∈ as, a ≠ 0) (hb : ∀ b ∈ bs, b ≠ 0) {width : Nat}
    (has : as.length ≤ width) (hbs : bs.length ≤ width) :
    as ++ List.replicate (width - as.length) 0 < bs ++ List.replicate (width - bs.length) 0 ↔ as < bs := by
  induction as generalizing bs width with
  | nil =>
    cases bs with
    | nil => simp
    | cons b bs =>
      -- a zero stands against the first byte of the longer string
      obtain ⟨width, rfl⟩ : ∃ w, width = w + 1 := ⟨width - 1, by simp at hbs; omega⟩
      have hpos : 0 < b := UInt8.pos_iff_ne_zero.2 (hb b (by simp))
      simp [List.replicate_succ, List.cons_lt_cons_iff, hpos]
  | cons a as ih =>
    obtain ⟨width, rfl⟩ : ∃ w, width = w + 1 := ⟨width - 1, by simp at has; omega⟩
    cases bs with
    | nil => simp [List.replicate_succ, List.cons_lt_cons_iff, ha a (by simp)]
    | cons b bs =>
      have hrest := ih (fun c hc => ha c (List.mem_cons_of_mem _ hc)) (fun c hc => hb c (List.mem_cons_of_mem _ hc))
        (Nat.le_of_succ_le_succ has) (Nat.le_of_succ_le_succ hbs)
      rw [List.length_cons, List.length_cons, Nat.succ_sub_succ, Nat.succ_sub_succ, List.cons_append,
        List.cons_append, List.cons_lt_cons_iff, List.cons_lt_cons_iff, hrest]

/-- Text of ASCII characters has a byte for each of them. -/
theorem ofText_of_ascii {cs : List Char} (h : ∀ c ∈ cs, c.toNat < 128) :
    ofText cs = cs.map fun c => UInt8.ofNat c.toNat := by
  induction cs with
  | nil => rfl
  | cons c cs ih =>
    obtain ⟨hc, hcs⟩ := List.forall_mem_cons.1 h
    have hle : c.val.toNat ≤ 127 := Nat.le_of_lt_succ hc
    have hbyte : String.utf8EncodeChar c = [UInt8.ofNat c.toNat] := by
      rw [String.utf8EncodeChar]
      exact if_pos hle
    rw [List.map_cons, ← ih hcs, ofText, List.flatMap_cons, hbyte]
    rfl

end Bytes

namespace CoinPair

theorem ofName_eq_ok {s : String} {p : CoinPair} : ofName s = .ok p ↔ ofName? s = some p := by
  rw [ofName]
  cases ofName? s <;> simp

theorem isName_iff {s : String} :
    IsName s.toList ↔ s ≠ "" ∧ (∀ c ∈ s.toList, c.toNat < 128 ∧ c ≠ '\x00') ∧ (Bytes.ofString s).length ≤ 32 := by
  have hlength (h : ∀ c ∈ s.toList, c.toNat < 128 ∧ c ≠ '\x00') :
      (Bytes.ofString s).length = s.toList.length := by
    rw [Bytes.ofString, Bytes.ofText_of_ascii fun c hc => (h c hc).1, List.length_map]
  constructor
  · rintro ⟨hne, hle, hchars⟩
    exact ⟨fun h => hne (String.toList_eq_nil_iff.2 h), hchars, hlength hchars ▸ hle⟩
  · rintro ⟨hne, hchars, hle⟩
    exact ⟨fun h => hne (String.toList_eq_nil_iff.1 h), hlength hchars ▸ hle, hchars⟩

theorem exists_ofName?_iff {s : String} : (∃ p, ofName? s = some p) ↔ IsName s.toList := by
  rw [← Option.isSome_iff_exists, ofName?]
  split <;> simpa

theorem bytes_of_ofName? {s : String} {p : CoinPair} (h : ofName? s = some p) :
    p.bytes = Bytes.ofString s ++ List.replicate (32 - (Bytes.ofString s).length) 0 ∧
      (Bytes.ofString s).length ≤ 32 ∧ ∀ b ∈ Bytes.ofString s, b ≠ 0 := by
  have hname := exists_ofName?_iff.1 ⟨p, h⟩
  have hbytes : Bytes.ofString s = s.toList.map fun c => UInt8.ofNat c.toNat :=
    Bytes.ofText_of_ascii fun c hc => (hname.2.2 c hc).1
  rw [ofName?, dif_pos hname] at h
  cases h
  rw [hbytes, List.length_map]
  exact ⟨rfl, hname.2.1, nonzero_of_isName hname⟩

theorem rank_lt_rank {s t : String} {p q : CoinPair} (hp : ofName? s = some p) (hq : ofName? t = some q) :
    rank p < rank q ↔ Bytes.ofString s < Bytes.ofString t := by
  obtain ⟨hpbytes, hplength, hpzero⟩ := bytes_of_ofName? hp
  obtain ⟨hqbytes, hqlength, hqzero⟩ := bytes_of_ofName? hq
  calc rank p < rank q
    _ ↔ p.bytes < q.bytes := Bytes.toNat_lt_toNat (p.length_eq.trans q.length_eq.symm)
    _ ↔ Bytes.ofString s < Bytes.ofString t := by
      rw [hpbytes, hqbytes]
      exact Bytes.padded_lt_padded hpzero hqzero hplength hqlength

/-- The names of a table's pairs ascend, as far as these have names. -/
theorem pairwise_names {α : Type} (t : Table CoinPair α) (h : ∀ p ∈ t.keys, p.Named) :
    (t.keys.map fun p => Bytes.ofString p.name).Pairwise (· < ·) := by
  have hsorted : t.keys.Pairwise (rank · < rank ·) := List.pairwise_map.2 t.sorted
  refine List.pairwise_map.2 (hsorted.imp_of_mem fun hp hq hlt => ?_)
  exact (rank_lt_rank (h _ hp).ofName?_name (h _ hq).ofName?_name).1 hlt

/-- Names and pairs. A text names a pair just if it is not empty, all its characters are ASCII and none NUL, and it has
at most 32 bytes. Different texts name different pairs, and a pair tells the text that named it; so of all pairs,
whatever their bytes, just those that have a name come back from the name they tell. They stand in the order in
which their names do as byte strings, and so do the keys of a table of such pairs. -/
theorem ofName_faithful :
    (∀ s, (∃ p, ofName s = .ok p) ↔
      s ≠ "" ∧ (∀ c ∈ s.toList, c.toNat < 128 ∧ c ≠ '\x00') ∧ (Bytes.ofString s).length ≤ 32) ∧
    (∀ s t p, ofName s = .ok p → ofName t = .ok p → s = t) ∧
    (∀ s p, ofName s = .ok p → p.name = s) ∧
    (∀ p, ofName p.name = .ok p ↔ ∃ s, ofName s = .ok p) ∧
    (∀ s t p q, ofName s = .ok p → ofName t = .ok q →
      (rank p < rank q ↔ Bytes.ofString s < Bytes.ofString t)) ∧
    ∀ (α : Type) (t : Table CoinPair α), (∀ p ∈ t.keys, ∃ s, ofName s = .ok p) →
      (t.keys.map fun p => Bytes.ofString p.name).Pairwise (· < ·) := by
  simp only [ofName_eq_ok]
  refine ⟨fun s => exists_ofName?_iff.trans isName_iff, fun s t p hs ht => ?_, fun s p => name_of_ofName?,
    fun p => ⟨fun h => ⟨p.name, h⟩, Named.ofName?_name⟩, fun s t p q => rank_lt_rank, fun α => pairwise_names⟩
  rw [← name_of_ofName? hs, name_of_ofName? ht]

/-- A name of two characters stands before one that it begins and that leaves no room for zeros. A pair whose bytes go
on behind a zero tells the short name, which names another pair. -/
theorem ofName_faithful_of_full_width :
    let short := "AB"
    let full := "ABCDEFGHIJKLMNOPQRSTUVWXYZ012345"
    let raw : CoinPair := ⟨65 :: 66 :: 0 :: 67 :: List.replicate 28 0, rfl⟩
    ∃ p q, ofName short = .ok p ∧ ofName full = .ok q ∧ p.name = short ∧ q.name = full ∧ rank p < rank q ∧
      raw.name = short ∧ ¬ ∃ s, ofName s = .ok raw := by
  intro short full raw
  obtain ⟨haccepts, -, hname, himage, horder, -⟩ := ofName_faithful
  obtain ⟨p, hp⟩ := (haccepts short).2 (isName_iff.1 (by decide +kernel))
  obtain ⟨q, hq⟩ := (haccepts full).2 (isName_iff.1 (by decide +kernel))
  have hraw : raw.name = short := by decide +kernel
  refine ⟨p, q, hp, hq, hname _ _ hp, hname _ _ hq, (horder _ _ _ _ hp hq).2 (by decide +kernel), hraw, fun h => ?_⟩
  have hback := (himage raw).2 h
  have hother : ofName? short ≠ some raw := by decide +kernel
  exact hother (ofName_eq_ok.1 (hraw ▸ hback))

end CoinPair

end PriceOracle
