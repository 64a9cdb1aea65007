import PriceOracle.Proofs.Service.RequestText
/-! What an oracle signs for a price. The fields of a message have fixed places, so the bytes tell the
message. They begin with the highest byte of the version, which is zero, and no request's text does, so a
signature for a price is none for a request. -/
namespace PriceOracle

/-! ### Numbers in bytes -/

namespace Bytes

theorem ofNat_succ (width n : Nat) :
    ofNat (width + 1) n = UInt8.ofNat (n / 256 ^ width) :: ofNat width n := by
  induction width generalizing n with
  | zero => simp [ofNat]
  | succ width ih =>
    have hfront := ih (n / 256)
    rw [Nat.div_div_eq_div_mul, ← Nat.pow_succ'] at hfront
    calc ofNat (width + 2) n
        = ofNat (width + 1) (n / 256) ++ [UInt8.ofNat n] := rfl
      _ = UInt8.ofNat (n / 256 ^ (width + 1)) :: ofNat (width + 1) n := by
          rw [hfront, List.cons_append, ofNat]

/-- Bytes tell a number up to what they are too few for. -/
theorem toNat_ofNat (width n : Nat) : (ofNat width n).toNat = n % 256 ^ width := by
  induction width with
  | zero => simp [ofNat, toNat, Nat.mod_one]
  | succ width ih =>
    have hbyte : (UInt8.ofNat (n / 256 ^ width)).toNat = n / 256 ^ width % 256 := UInt8.toNat_ofNat'
    rw [ofNat_succ, toNat, ih, length_ofNat, hbyte, Nat.pow_succ, Nat.mod_mul, Nat.pow_eq]
    lia

theorem toNat_ofNat_of_lt {width n : Nat} (h : n < 256 ^ width) : (ofNat width n).toNat = n := by
  rw [toNat_ofNat, Nat.mod_eq_of_lt h]

theorem ofNat_toNat {bs : Bytes} {width : Nat} (h : bs.length = width) : ofNat width bs.toNat = bs := by
  have hfits : bs.toNat < 256 ^ width := h ▸ toNat_lt bs
  exact toNat_injective ((length_ofNat width _).trans h.symm) (toNat_ofNat_of_lt hfits)

/-! ### Fields in bytes -/

/-- The field of a given width that begins at an offset. -/
def field (offset width : Nat) (bs : Bytes) : Bytes := (bs.drop offset).take width

theorem length_field {offset width : Nat} {bs : Bytes} (h : offset + width ≤ bs.length) :
    (field offset width bs).length = width := by
  rw [field, List.length_take, List.length_drop]
  lia

theorem field_append_field (offset width width' : Nat) (bs : Bytes) :
    field offset width bs ++ field (offset + width) width' bs = field offset (width + width') bs := by
  rw [field, field, field, List.take_add, List.drop_drop]

end Bytes

theorem Address.limit_eq : 1 <<< 160 = 256 ^ 20 := by decide

theorem Address.ofNat_toNat_bytes (a : Address) : ofNat a.bytes.toNat = a := by
  have hfits : a.toNat < 256 ^ 20 := limit_eq ▸ a.isLt
  rw [bytes, Bytes.toNat_ofNat_of_lt hfits, ofNat_toNat]

theorem Address.bytes_ofNat_toNat {bs : Bytes} (h : bs.length = 20) : (ofNat bs.toNat).bytes = bs := by
  have hfits : bs.toNat < 256 ^ 20 := h ▸ Bytes.toNat_lt bs
  have hnumber : (ofNat bs.toNat).toNat = bs.toNat := Nat.mod_eq_of_lt (limit_eq ▸ hfits)
  rw [bytes, hnumber, Bytes.ofNat_toNat h]

namespace PriceMessage

/-- The numbers of a message are in their ranges. -/
structure Fits (m : PriceMessage) : Prop where
  version : m.version < Word.limit
  price : m.price < Amount.limit
  lastPublicationBlock : m.lastPublicationBlock < Word.limit

instance (m : PriceMessage) : Decidable m.Fits :=
  decidable_of_iff (m.version < Word.limit ∧ m.price < Amount.limit ∧ m.lastPublicationBlock < Word.limit)
    ⟨fun ⟨hversion, hprice, hblock⟩ => ⟨hversion, hprice, hblock⟩,
      fun h => ⟨h.version, h.price, h.lastPublicationBlock⟩⟩

/-- The message whose fields stand at their places in 148 bytes. -/
def read (bs : Bytes) (h : bs.length = 148) : PriceMessage where
  version := (bs.field 0 32).toNat
  pair := ⟨bs.field 32 32, Bytes.length_field (by lia)⟩
  price := (bs.field 64 32).toNat
  votedOracle := .ofNat (bs.field 96 20).toNat
  lastPublicationBlock := (bs.field 116 32).toNat

/-- The message that some bytes are for; none if there are more or fewer than 148, or if a number is out of
its range. -/
def decode? (bs : Bytes) : Option PriceMessage :=
  if h : bs.length = 148 then
    if (read bs h).Fits then some (read bs h) else none
  else none

theorem fields_eq {bs : Bytes} (h : bs.length = 148) :
    bs.field 0 32 ++ bs.field 32 32 ++ bs.field 64 32 ++ bs.field 96 20 ++ bs.field 116 32 = bs := by
  have hwhole : bs.field 0 148 = bs := List.take_of_length_le h.le
  rw [Bytes.field_append_field 0 32, Bytes.field_append_field 0 64, Bytes.field_append_field 0 96,
    Bytes.field_append_field 0 116, hwhole]

theorem encode_read {bs : Bytes} (h : bs.length = 148) : (read bs h).encode = bs := by
  have hlength {offset width : Nat} (hend : offset + width ≤ 148) := Bytes.length_field (h ▸ hend)
  calc (read bs h).encode
      = bs.field 0 32 ++ bs.field 32 32 ++ bs.field 64 32 ++ bs.field 96 20 ++ bs.field 116 32 := by
        simp only [encode, read]
        rw [Address.bytes_ofNat_toNat (hlength (by decide)), Bytes.ofNat_toNat (hlength (by decide)),
          Bytes.ofNat_toNat (hlength (by decide)), Bytes.ofNat_toNat (hlength (by decide))]
    _ = bs := fields_eq h

theorem read_encode {m : PriceMessage} (hfits : m.Fits) : read m.encode m.length_encode = m := by
  have hlength {offset width : Nat} (hend : offset + width ≤ 148) :=
    Bytes.length_field (m.length_encode ▸ hend)
  have hparts := fields_eq m.length_encode
  conv at hparts => rhs; rw [encode]
  -- The parts are as long as the fields, so they are split off from behind.
  obtain ⟨hrest, hblock⟩ := List.append_inj' hparts
    ((hlength (by decide)).trans (Bytes.length_ofNat 32 _).symm)
  obtain ⟨hrest, hvoted⟩ := List.append_inj' hrest
    ((hlength (by decide)).trans (Bytes.length_ofNat 20 _).symm)
  obtain ⟨hrest, hprice⟩ := List.append_inj' hrest
    ((hlength (by decide)).trans (Bytes.length_ofNat 32 _).symm)
  obtain ⟨hversion, hpair⟩ := List.append_inj' hrest
    ((hlength (by decide)).trans m.pair.length_eq.symm)
  have hword : Word.limit ≤ 256 ^ 32 := by decide
  have hamount : Amount.limit ≤ 256 ^ 32 := by decide
  simp only [read, hversion, hpair, hprice, hvoted, hblock]
  rw [Bytes.toNat_ofNat_of_lt (hfits.version.trans_le hword),
    Bytes.toNat_ofNat_of_lt (hfits.price.trans_le hamount),
    Bytes.toNat_ofNat_of_lt (hfits.lastPublicationBlock.trans_le hword), Address.ofNat_toNat_bytes]

/-- A message's bytes are read as the message, and no others are. -/
theorem decode?_eq_some_iff {bs : Bytes} {m : PriceMessage} :
    decode? bs = some m ↔ m.Fits ∧ m.encode = bs := by
  constructor
  · intro h
    rw [decode?] at h
    split at h
    case isFalse => cases h
    case isTrue hlength =>
      obtain ⟨hfits, hsome⟩ := Option.ite_none_right_eq_some.1 h
      cases hsome
      exact ⟨hfits, encode_read hlength⟩
  · rintro ⟨hfits, rfl⟩
    rw [decode?, dif_pos m.length_encode, read_encode hfits, if_pos hfits]

/-- Every message's bytes begin with a zero. -/
theorem encode_eq_zero_cons {m : PriceMessage} (hfits : m.Fits) : ∃ rest, m.encode = 0 :: rest := by
  have hsmall : m.version / 256 ^ 31 = 0 :=
    Nat.div_eq_of_lt (hfits.version.trans_le (by decide))
  simp only [encode, Bytes.ofNat_succ 31 m.version, hsmall, List.cons_append]
  exact ⟨_, rfl⟩

end PriceMessage

/-- The bytes of a character begin with a zero only if it is NUL. -/
theorem Bytes.ofText_cons_ne_zero_cons {c : Char} (h : c ≠ '\x00') (cs : List Char) (bs : Bytes) :
    ofText (c :: cs) ≠ 0 :: bs := by
  have hfirst {n : Nat} (hpos : 0 < n) (hlt : n < 256) : UInt8.ofNat n ≠ 0 := by
    intro hzero
    have := congrArg UInt8.toNat hzero
    rw [UInt8.toNat_ofNat_of_lt' hlt] at this
    exact absurd this hpos.ne'
  have hpos : 0 < c.val.toNat := Nat.pos_of_ne_zero fun hzero => h (Char.toNat_inj.1 hzero)
  intro hbytes
  simp only [ofText, List.flatMap_cons, String.utf8EncodeChar] at hbytes
  -- One case for each number of bytes that a character may take.
  split at hbytes
  · exact hfirst hpos (by lia) (List.cons.inj hbytes).1
  · split at hbytes
    · exact hfirst (by lia) (by lia) (List.cons.inj hbytes).1
    · split at hbytes
      · exact hfirst (by lia) (by lia) (List.cons.inj hbytes).1
      · exact hfirst (by lia) (by lia) (List.cons.inj hbytes).1

/-- Bytes of a message for a price are none of a request whose method begins with a character other than
NUL. -/
theorem PriceMessage.signedText_ne_requestBytes {m : PriceMessage} (hfits : m.Fits) {method : String}
    {c : Char} {cs : List Char} (hmethod : method.toList = c :: cs) (hc : c ≠ '\x00') (nonce : Nat)
    (params : Json) : signedText m.encode ≠ requestBytes method nonce params := by
  intro h
  obtain ⟨rest, hzero⟩ := encode_eq_zero_cons hfits
  have hsame : m.encode = Bytes.ofText (requestText method nonce params) := signedText_injective h
  have htext : ∃ ds, requestText method nonce params = c :: ds := by
    rw [requestText, hmethod]
    exact ⟨_, rfl⟩
  obtain ⟨ds, hds⟩ := htext
  rw [hds, hzero] at hsame
  exact Bytes.ofText_cons_ne_zero_cons hc ds rest hsame.symm

/-- No method is empty or begins with NUL. -/
theorem Task.ofMethod_of_head {method : String} (h : ∀ c, method.toList.head? = some c → c = '\x00')
    (params : Json) : ofMethod method params = .error (.unknownMethod method) := by
  refine ofMethod_of_notMem (fun hmem => ?_) params
  obtain ⟨hsome, hletters⟩ := spelling_of_mem_methods method hmem
  obtain ⟨c, cs, htext⟩ := List.exists_cons_of_ne_nil hsome
  rw [htext] at h hletters
  obtain rfl := h c rfl
  exact absurd (List.all_eq_true.1 hletters _ List.mem_cons_self) (by decide)

def Collision (x y : Bytes) : Prop := x ≠ y ∧ keccak256 x = keccak256 y

/-- Nothing that is signed for a price passes for something else. With numbers in their ranges, the bytes tell
the message, and each field is read from its place; no other bytes are read as the message. What is hashed
tells what was to be signed, whatever bytes these are. So one signature for two messages, or for a message and
a request, is a collision. This holds of requests whose method begins with a character other than NUL, as all
that are known do. -/
theorem PriceMessage.encoding_unambiguous {m m' : PriceMessage} (hm : m.Fits) (hm' : m'.Fits) :
    (m.encode = m'.encode → m = m') ∧
      decode? m.encode = some m ∧
      (∀ bs, decode? bs = some m → bs = m.encode) ∧
      (∀ x y : Bytes, signedText x = signedText y → x = y) ∧
      (m ≠ m' → m.signingHash = m'.signingHash →
        Collision (signedText m.encode) (signedText m'.encode)) ∧
      (∀ (method : String) (c : Char) (cs : List Char), method.toList = c :: cs → c ≠ '\x00' →
        ∀ (nonce : Nat) (params : Json),
          signedText m.encode ≠ requestBytes method nonce params ∧
            (m.signingHash = requestHash method nonce params →
              Collision (signedText m.encode) (requestBytes method nonce params))) ∧
      ∀ method : String, (∀ c, method.toList.head? = some c → c = '\x00') → ∀ params,
        Task.ofMethod method params = .error (.unknownMethod method) := by
  have hread : decode? m.encode = some m := decode?_eq_some_iff.2 ⟨hm, rfl⟩
  have hread' : decode? m'.encode = some m' := decode?_eq_some_iff.2 ⟨hm', rfl⟩
  have hinjective : m.encode = m'.encode → m = m' := fun h =>
    Option.some.inj (hread.symm.trans ((congrArg decode? h).trans hread'))
  refine ⟨hinjective, hread, fun bs h => (decode?_eq_some_iff.1 h).2.symm,
    fun x y => signedText_injective, fun hother hhash => ⟨fun htext => ?_, hhash⟩,
    fun method c cs hmethod hc nonce params => ?_, fun method h => Task.ofMethod_of_head h⟩
  · exact hother (hinjective (signedText_injective htext))
  · have hapart := signedText_ne_requestBytes hm hmethod hc nonce params
    exact ⟨hapart, fun hhash => ⟨hapart, hhash⟩⟩

/-- The messages for one price after two publications, and a request with one of them. -/
theorem PriceMessage.encoding_unambiguous_of_next_block :
    let m : PriceMessage := {
      version := PriceMessage.currentVersion
      pair := (CoinPair.ofName? "BTCUSD").getD default
      price := 10 ^ 18
      votedOracle := .ofNat 0xab
      lastPublicationBlock := 258 }
    let m' := { m with lastPublicationBlock := 259 }
    m.Fits ∧ m'.Fits ∧ m.encode ≠ m'.encode ∧ decode? m.encode = some m ∧ decode? m'.encode = some m' ∧
      signedText m.encode ≠ signedText m'.encode ∧
      ∀ params, signedText m.encode ≠ requestBytes "publish_price" 258 params := by
  intro m m'
  have hm : m.Fits := by decide
  have hm' : m'.Fits := by decide
  have hother : m ≠ m' := fun h => absurd (congrArg lastPublicationBlock h) (by decide)
  obtain ⟨hinjective, hread, -, htext, -, hrequest, -⟩ := encoding_unambiguous hm hm'
  obtain ⟨-, hread', -⟩ := encoding_unambiguous hm' hm
  have hbytes : m.encode ≠ m'.encode := fun h => hother (hinjective h)
  exact ⟨hm, hm', hbytes, hread, hread', fun h => hbytes (htext _ _ h),
    fun params => (hrequest "publish_price" 'p' _ rfl (by decide) 258 params).1⟩

end PriceOracle
