import PriceOracle.Proofs.Json.Canonical
import PriceOracle.Service.Basic
/-! What a caller signs. The method, the nonce and the canonical text of the parameters stand with colons
between them, so a method without one and the digits of a nonce are told from what follows, and the text
tells all three, the parameters up to the order of members. The bytes that are hashed tell the text: their
total length tells how much of them is the length that stands in front. -/
namespace PriceOracle

/-! ### Bytes -/

/-- A text is told by its UTF-8 form. -/
theorem Bytes.ofText_injective {cs ds : List Char} (h : ofText cs = ofText ds) : cs = ds := by
  have hbytes : cs.utf8Encode = ds.utf8Encode := congrArg List.toByteArray h
  have hread := congrArg ByteArray.utf8Decode? hbytes
  rw [List.utf8Decode?_utf8Encode, List.utf8Decode?_utf8Encode] at hread
  simpa using hread

theorem Bytes.ofText_append (cs ds : List Char) : ofText (cs ++ ds) = ofText cs ++ ofText ds :=
  List.flatMap_append

theorem Bytes.length_ofText_digit {d : Nat} (h : d < 10) : (ofText [d.digitChar]).length = 1 := by
  interval_cases d <;> rfl

theorem Bytes.length_ofText_digits_pos (n : Nat) : 0 < (ofText (Nat.toDigits 10 n)).length := by
  by_cases hn : n < 10
  · rw [Nat.toDigits_of_lt_base hn, length_ofText_digit hn]
    exact Nat.one_pos
  · rw [Nat.toDigits_of_base_le (by decide) (Nat.not_lt.1 hn), ofText_append, List.length_append,
      length_ofText_digit (Nat.mod_lt n (by decide))]
    lia

theorem Bytes.length_ofText_digits_mono {m n : Nat} (h : m ≤ n) :
    (ofText (Nat.toDigits 10 m)).length ≤ (ofText (Nat.toDigits 10 n)).length := by
  induction n using Nat.strongRecOn generalizing m with
  | ind n ih =>
    by_cases hm : m < 10
    · rw [Nat.toDigits_of_lt_base hm, length_ofText_digit hm]
      exact length_ofText_digits_pos n
    · have hm := Nat.not_lt.1 hm
      have hrest := ih (n / 10) (by lia) (Nat.div_le_div_right h)
      rw [Nat.toDigits_of_base_le (by decide) hm, Nat.toDigits_of_base_le (by decide) (hm.trans h),
        ofText_append, ofText_append, List.length_append, List.length_append,
        length_ofText_digit (Nat.mod_lt m (by decide)), length_ofText_digit (Nat.mod_lt n (by decide))]
      exact Nat.add_le_add_right hrest 1

theorem signedText_injective {x y : Bytes} (h : signedText x = signedText y) : x = y := by
  have hopening : ∀ z : Bytes, signedText z = (0x19 :: Bytes.ofString "Ethereum Signed Message:\n")
      ++ (Bytes.ofText (Nat.toDigits 10 z.length) ++ z) := fun z => List.append_assoc _ _ _
  rw [hopening x, hopening y] at h
  have hbehind := List.append_cancel_left h
  have htotal := congrArg List.length hbehind
  rw [List.length_append, List.length_append] at htotal
  have hlength : x.length = y.length := by
    rcases Nat.lt_trichotomy x.length y.length with hlt | heq | hlt
    · have := Bytes.length_ofText_digits_mono hlt.le
      lia
    · exact heq
    · have := Bytes.length_ofText_digits_mono hlt.le
      lia
  rw [hlength] at hbehind
  exact List.append_cancel_left hbehind

/-! ### Texts -/

/-- Texts without a character are told from what stands behind its first occurrence. -/
theorem append_cons_inj {c : Char} {as bs r s : List Char} (ha : c ∉ as) (hb : c ∉ bs)
    (h : as ++ c :: r = bs ++ c :: s) : as = bs ∧ r = s := by
  have hcut : ∀ {ds rest : List Char}, c ∉ ds → (ds ++ c :: rest).takeWhile (· != c) = ds := by
    intro ds rest hds
    have hkept : ∀ d ∈ ds, (d != c) = true := fun d hd => bne_iff_ne.2 fun heq => hds (heq ▸ hd)
    rw [List.takeWhile_append_of_pos hkept, List.takeWhile_cons_of_neg (by simp), List.append_nil]
  have hsame := congrArg (List.takeWhile (· != c)) h
  rw [hcut ha, hcut hb] at hsame
  subst hsame
  exact ⟨rfl, (List.cons.inj (List.append_cancel_left h)).2⟩

theorem toList_toString (n : Nat) : (toString n).toList = Nat.toDigits 10 n := by
  rw [Nat.toString_eq_ofList_toDigits, String.toList_ofList]

theorem colon_notMem_digits (n : Nat) : ':' ∉ Nat.toDigits 10 n := by
  intro hmem
  have hdigit := Nat.isDigit_of_mem_toDigits (by decide) (by decide) hmem
  exact absurd hdigit (by decide)

def Task.methods : List String := [
  "list_oracles", "get_status", "shutdown", "encode_price_message",
  "register_oracle", "set_oracle_name", "remove_oracle", "subscribe", "unsubscribe",
  "approve", "deposit", "stake_at", "withdraw", "withdraw_from", "withdraw_shares", "distribute",
  "lock_stake", "withdraw_delayed", "publish_price", "emergency_publish", "switch_round", "peek",
  "get_price", "execute_change",
  "get_oracle_registration_info", "get_oracle_owner", "is_subscribed", "can_remove_oracle",
  "get_balance", "pending_withdrawals", "get_round_info", "get_oracle_round_info", "get_pair_config"]

theorem Task.ofMethod_of_notMem {method : String} (h : method ∉ methods) (params : Json) :
    ofMethod method params = .error (.unknownMethod method) := by
  have hact : Action.reader? method = none := by
    unfold Action.reader?
    split
    all_goals first | rfl | exact absurd (by decide) h
  have hask : Question.reader? method = none := by
    unfold Question.reader?
    split
    all_goals first | rfl | exact absurd (by decide) h
  unfold ofMethod
  split
  · exact absurd (by decide) h
  · exact absurd (by decide) h
  · exact absurd (by decide) h
  · exact absurd (by decide) h
  · rw [Command.reader?, hact, hask]
    rfl

/-- Methods are named with small letters and underscores. -/
theorem Task.spelling_of_mem_methods : ∀ method ∈ methods,
    method.toList ≠ [] ∧ method.toList.all (fun c => c.isLower || c == '_') := by
  decide +kernel

/-- No method has a colon in its name. -/
theorem unknownMethod_of_colon {method : String} (h : ':' ∈ method.toList) (params : Json) :
    Task.ofMethod method params = .error (.unknownMethod method) := by
  refine Task.ofMethod_of_notMem (fun hmem => ?_) params
  have hletters := (Task.spelling_of_mem_methods method hmem).2
  exact absurd (List.all_eq_true.1 hletters ':' h) (by decide)

/-- A text tells its method, its nonce and its parameters up to the order of members. -/
theorem requestText_eq_iff {m m' : String} (hm : ':' ∉ m.toList) (hm' : ':' ∉ m'.toList) (n n' : Nat)
    {p p' : Json} (hp : p.Plain) (hp' : p'.Plain) :
    requestText m n p = requestText m' n' p' ↔ m = m' ∧ n = n' ∧ p.Reordered p' := by
  rw [← Json.canonical_eq_iff hp hp']
  constructor
  · intro h
    simp only [requestText, toList_toString, List.append_assoc, List.cons_append] at h
    obtain ⟨hmethod, hrest⟩ := append_cons_inj hm hm' h
    obtain ⟨hnonce, htext⟩ := append_cons_inj (colon_notMem_digits n) (colon_notMem_digits n') hrest
    have hplain := (Json.reordered_canonical hp).plain_iff.1 hp
    have hplain' := (Json.reordered_canonical hp').plain_iff.1 hp'
    have hsame : p.canonical.written ++ [] = p'.canonical.written ++ [] := by rw [htext]
    refine ⟨String.toList_inj.1 hmethod, Json.digits_injective hnonce, ?_⟩
    exact (Json.delimited_written hplain hplain' Json.stops_nil Json.stops_nil hsame).1
  · rintro ⟨rfl, rfl, hcanonical⟩
    rw [requestText, requestText, hcanonical]

def requestBytes (method : String) (nonce : Nat) (params : Json) : Bytes :=
  signedText (Bytes.ofText (requestText method nonce params))

/-- A caller's signature binds the method, the nonce and the parameters. With methods that have no colon in
their names, as all that are known, and with parameters without doubles and repeated names, the text that is
signed is the same exactly if the method and the nonce are and the parameters are up to the order of members.
Then the hash is the same, and it is the same for nothing else, unless the bytes hashed for the two are a
collision. -/
theorem requestText_binding {m m' : String} (hm : ':' ∉ m.toList) (hm' : ':' ∉ m'.toList) (n n' : Nat)
    {p p' : Json} (hp : p.Plain) (hp' : p'.Plain) :
    (requestText m n p = requestText m' n' p' ↔ m = m' ∧ n = n' ∧ p.Reordered p') ∧
      (m = m' ∧ n = n' ∧ p.Reordered p' → requestHash m n p = requestHash m' n' p') ∧
      (requestHash m n p = requestHash m' n' p' → ¬ (m = m' ∧ n = n' ∧ p.Reordered p') →
        requestBytes m n p ≠ requestBytes m' n' p' ∧
          keccak256 (requestBytes m n p) = keccak256 (requestBytes m' n' p')) ∧
      ∀ method, ':' ∈ method.toList → ∀ params,
        Task.ofMethod method params = .error (.unknownMethod method) := by
  have htext := requestText_eq_iff hm hm' n n' hp hp'
  refine ⟨htext, fun hsame => ?_, fun hhash hother => ⟨fun hbytes => ?_, hhash⟩,
    fun method h params => unknownMethod_of_colon h params⟩
  · rw [requestHash, requestHash, htext.2 hsame]
  · exact hother (htext.1 (Bytes.ofText_injective (signedText_injective hbytes)))

/-- A change signed with its members in one order passes in another, but not with the next nonce. -/
theorem requestText_binding_of_change :
    let method := "execute_change"
    let limits : Json := .arr [.int 5, .int (-7)]
    let signed : Json := .obj [
      ("change", .obj [("limits", limits), ("name", .str "a\"b:")]),
      ("caller", .str "0x01")]
    let sent : Json := .obj [
      ("caller", .str "0x01"),
      ("change", .obj [("name", .str "a\"b:"), ("limits", limits)])]
    ':' ∉ method.toList ∧ signed.Plain ∧ sent.Plain ∧ signed.Reordered sent ∧
      requestHash method 3 signed = requestHash method 3 sent ∧
      requestText method 3 signed = requestText method 3 sent ∧
      requestText method 3 signed ≠ requestText method 4 sent := by
  intro method limits signed sent
  have hmethod : ':' ∉ method.toList := by decide
  have hsigned : signed.Plain := by
    simp [signed, limits, Json.plain_obj, Json.plain_arr, Json.Plain.int, Json.Plain.str]
  have hreordered : signed.Reordered sent :=
    .trans (.members (.swap ..)) (.member "change" [("caller", .str "0x01")] [] (.members (.swap ..)))
  have hsent : sent.Plain := hreordered.plain_iff.1 hsigned
  obtain ⟨htext, hhash, -⟩ := requestText_binding hmethod hmethod 3 3 hsigned hsent
  have hother := (requestText_binding hmethod hmethod 3 4 hsigned hsent).1
  refine ⟨hmethod, hsigned, hsent, hreordered, hhash ⟨rfl, rfl, hreordered⟩,
    htext.2 ⟨rfl, rfl, hreordered⟩, fun h => ?_⟩
  cases (hother.1 h).2.1

end PriceOracle
