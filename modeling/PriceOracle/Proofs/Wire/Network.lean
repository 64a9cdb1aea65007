import PriceOracle.Proofs.Wire.Scalar
import PriceOracle.Wire.Network
/-! Events and protocol changes are read as they were written. -/
namespace PriceOracle

open Json Json.Reader

/-! ### Events -/

namespace Event

def amounts : Event → List Amount
  | stakeDeposited _ _ amount shares | stakeWithdrawn _ _ amount shares _ => [amount, shares]
  | payEarnings earnings _ _ => [earnings]
  | stakeLocked _ amount _ | delayedPaymentReleased _ _ amount | oracleRewardTransfer _ _ _ _ amount => [amount]
  | pricePublished _ _ _ price _ | emergencyPricePublished _ _ price _ => [price]
  | _ => []

/-- The counts, heights and times that an event tells. -/
def words : Event → List Nat
  | oracleJoinedRound _ _ round | oracleLeftRound _ _ round | oracleRewardTransfer _ round _ _ _ => [round]
  | stakeWithdrawn _ _ _ _ delayId => delayId.toList
  | payEarnings _ start finish => [start, finish]
  | stakeLocked _ _ expiry => [expiry]
  | delayedPaymentReleased id _ _ => [id]
  | pricePublished _ _ _ _ block | emergencyPricePublished _ _ _ block => [block]
  | newRound _ _ number lockUntil _ => [number, lockUntil]
  | _ => []

/-- The numbers of an event are in their ranges, and its pair was made from a name. -/
def Fits (e : Event) : Prop := InRange e.amounts e.words e.pair?

theorem tag_eq_name (e : Event) : e.tag = e.name := by
  cases e <;> rfl

theorem nodup_names (e : Event) : ("type" :: e.members.map (·.1)).Nodup := by
  cases e <;> simp [members]

theorem legible_toJson (e : Event) (h : e.Fits) : Legible depthLimit e.toJson := by
  have hwords := h.word_lt
  have hmembers : ∀ m ∈ e.members, Legible (125 + 1) m.2 := by
    cases e <;> simp_all [members, words]
  exact .obj e.nodup_names (List.forall_mem_cons.2 ⟨legible_str _ _, hmembers⟩)

/-- An event is read from its record, also with more in it. -/
theorem readAs_toJson (e : Event) (h : e.Fits) : ReadAs ofJson? e.toJson e := by
  intro k hk
  obtain ⟨body, f, htag, hbody, hf⟩ := hk.tagged e.nodup_names
  rw [ofJson?, htag, Option.bind_eq_bind, Option.bind_some]
  cases e <;> simp only [tag, hbody, Option.bind_eq_bind, Option.bind_some]
  case oracleRegistered owner address name =>
    rw [hf.get "owner" rfl owner.readAs_toJson, hf.get "address" rfl address.readAs_toJson,
      hf.get "name" rfl (readAs_str name)]
    rfl
  case oracleRemoved owner address =>
    rw [hf.get "owner" rfl owner.readAs_toJson, hf.get "address" rfl address.readAs_toJson]
    rfl
  case oracleNameChanged owner name =>
    rw [hf.get "owner" rfl owner.readAs_toJson, hf.get "name" rfl (readAs_str name)]
    rfl
  case oracleSubscribed owner pair =>
    rw [hf.get "owner" rfl owner.readAs_toJson, hf.get "pair" rfl (h.readAs_pair rfl)]
    rfl
  case oracleUnsubscribed owner pair =>
    rw [hf.get "owner" rfl owner.readAs_toJson, hf.get "pair" rfl (h.readAs_pair rfl)]
    rfl
  case oracleJoinedRound owner pair round =>
    rw [hf.get "owner" rfl owner.readAs_toJson, hf.get "pair" rfl (h.readAs_pair rfl),
      hf.get "round" rfl (h.readAs_word (by simp [words]))]
    rfl
  case oracleLeftRound owner pair round =>
    rw [hf.get "owner" rfl owner.readAs_toJson, hf.get "pair" rfl (h.readAs_pair rfl),
      hf.get "round" rfl (h.readAs_word (by simp [words]))]
    rfl
  case stakeDeposited owner subaccount amount shares =>
    rw [hf.get "owner" rfl owner.readAs_toJson, hf.get "subaccount" rfl subaccount.readAs_toJson,
      hf.get "amount" rfl (h.readAs_amount (by simp [amounts])),
      hf.get "shares" rfl (h.readAs_amount (by simp [amounts]))]
    rfl
  case stakeWithdrawn owner subaccount amount shares delayId =>
    rw [hf.get "owner" rfl owner.readAs_toJson, hf.get "subaccount" rfl subaccount.readAs_toJson,
      hf.get "amount" rfl (h.readAs_amount (by simp [amounts])),
      hf.get "shares" rfl (h.readAs_amount (by simp [amounts])),
      hf.option "delay_id" rfl (Word.readAs_ofOption fun n hn => h.word_lt n (by simpa [words] using hn))]
    rfl
  case payEarnings earnings start finish =>
    rw [hf.get "earnings" rfl (h.readAs_amount (by simp [amounts])),
      hf.get "start" rfl (h.readAs_word (by simp [words])),
      hf.get "end" rfl (h.readAs_word (by simp [words]))]
    rfl
  case stakeLocked owner amount expiry =>
    rw [hf.get "owner" rfl owner.readAs_toJson,
      hf.get "amount" rfl (h.readAs_amount (by simp [amounts])),
      hf.get "until" rfl (h.readAs_word (by simp [words]))]
    rfl
  case delayedPaymentReleased id beneficiary amount =>
    rw [hf.get "id" rfl (h.readAs_word (by simp [words])),
      hf.get "beneficiary" rfl beneficiary.readAs_toJson,
      hf.get "amount" rfl (h.readAs_amount (by simp [amounts]))]
    rfl
  case pricePublished pair sender votedOracle price block =>
    rw [hf.get "pair" rfl (h.readAs_pair rfl), hf.get "sender" rfl sender.readAs_toJson,
      hf.get "voted_oracle" rfl votedOracle.readAs_toJson,
      hf.get "price" rfl (h.readAs_amount (by simp [amounts])),
      hf.get "block" rfl (h.readAs_word (by simp [words]))]
    rfl
  case emergencyPricePublished pair sender price block =>
    rw [hf.get "pair" rfl (h.readAs_pair rfl), hf.get "sender" rfl sender.readAs_toJson,
      hf.get "price" rfl (h.readAs_amount (by simp [amounts])),
      hf.get "block" rfl (h.readAs_word (by simp [words]))]
    rfl
  case oracleRewardTransfer pair round owner address amount =>
    rw [hf.get "pair" rfl (h.readAs_pair rfl),
      hf.get "round" rfl (h.readAs_word (by simp [words])),
      hf.get "owner" rfl owner.readAs_toJson, hf.get "address" rfl address.readAs_toJson,
      hf.get "amount" rfl (h.readAs_amount (by simp [amounts]))]
    rfl
  case newRound pair caller number lockUntil selected =>
    rw [hf.get "pair" rfl (h.readAs_pair rfl), hf.get "caller" rfl caller.readAs_toJson,
      hf.get "number" rfl (h.readAs_word (by simp [words])),
      hf.get "lock_until" rfl (h.readAs_word (by simp [words])),
      hf.get "selected" rfl (Address.readAs_listToJson selected)]
    rfl
  case protocolChangeExecuted caller change =>
    rw [hf.get "caller" rfl caller.readAs_toJson, hf.get "change" rfl (readAs_str change)]
    rfl

end Event

/-! ### Parameters of a pair -/

namespace RoundParams

def Fits (p : RoundParams) : Prop :=
  InRange [p.bootstrapPrice]
    [p.minOracles, p.maxOracles, p.maxSubscribed, p.lockPeriod, p.validPeriod, p.emergencyPeriod] none

theorem nodup_names (p : RoundParams) : (p.members.map (·.1)).Nodup := by simp [members]

theorem legible_toJson (p : RoundParams) (h : p.Fits) (depth : Nat) : Legible (depth + 2) p.toJson := by
  have hwords := h.word_lt
  have hmembers : ∀ m ∈ p.members, Legible (depth + 1) m.2 := by
    simp_all [members]
  exact .obj p.nodup_names hmembers

theorem readAs_toJson (p : RoundParams) (h : p.Fits) : ReadAs ofJson? p.toJson p := by
  intro k hk
  obtain ⟨f, hbody, hf⟩ := hk.fields p.nodup_names
  simp only [ofJson?, ofFields?, Fields.addresses, hbody, Option.bind_eq_bind, Option.bind_some]
  rw [hf.getD "min_oracles_per_round" rfl (h.readAs_word (by simp)),
    hf.getD "max_oracles_per_round" rfl (h.readAs_word (by simp)),
    hf.getD "max_subscribed_oracles" rfl (h.readAs_word (by simp)),
    hf.getD "round_lock_period_secs" rfl (h.readAs_word (by simp)),
    hf.getD "valid_price_period_in_blocks" rfl (h.readAs_word (by simp)),
    hf.getD "emergency_publishing_period_in_blocks" rfl (h.readAs_word (by simp)),
    hf.getD "bootstrap_price" rfl (h.readAs_amount (by simp)),
    hf.getD "read_whitelist" rfl (Address.readAs_listToJson p.readers),
    hf.getD "emergency_whitelist" rfl (Address.readAs_listToJson p.emergencyPublishers)]
  rfl

end RoundParams

/-! ### Protocol changes -/

/-- The counts and times that a change of a pair's parameters tells. -/
def PairChange.words : PairChange → List Nat
  | setMinOracles value | setMaxOracles value | setMaxSubscribed value => [value]
  | setLockPeriod secs => [secs]
  | setValidPeriod blocks | setEmergencyPeriod blocks => [blocks]
  | _ => []

namespace ProtocolChange

/-- The amounts that a change tells, besides those of a pair's parameters. -/
def amounts : ProtocolChange → List Amount
  | setMinSubscriptionStake amount => [amount]
  | _ => []

/-- The counts and times that a change tells, besides those of a pair's parameters. -/
def words : ProtocolChange → List Nat
  | onPair _ change => change.words
  | setNumIdleRounds rounds => [rounds]
  | setVestingPeriod blocks => [blocks]
  | setWithdrawLockTime secs => [secs]
  | _ => []

/-- The parameters that a change brings with it. -/
def params? : ProtocolChange → Option RoundParams
  | registerPair _ params => some params
  | _ => none

/-- The numbers of a change are in their ranges, and its pair was made from a name. -/
structure Fits (c : ProtocolChange) : Prop where
  inRange : InRange c.amounts c.words c.pair?
  params : ∀ p ∈ c.params?, p.Fits

theorem tag_eq_name (c : ProtocolChange) : c.tag = c.name := by
  cases c
  case onPair change => cases change <;> rfl
  all_goals rfl

theorem nodup_names (c : ProtocolChange) : ("change" :: c.members.map (·.1)).Nodup := by
  cases c
  case onPair change => cases change <;> simp [members, PairChange.members]
  all_goals simp [members]

theorem legible_toJson (c : ProtocolChange) (h : c.Fits) : Legible depthLimit c.toJson := by
  have hwords := h.inRange.word_lt
  have hmembers : ∀ m ∈ c.members, Legible (124 + 2) m.2 := by
    cases c
    case registerPair pair params => simp [members, params.legible_toJson (h.params _ rfl) 124]
    case onPair pair change => cases change <;> simp_all [members, words, PairChange.members, PairChange.words]
    all_goals simp_all [members, words]
  exact .obj c.nodup_names (List.forall_mem_cons.2 ⟨legible_str _ _, hmembers⟩)

theorem readAs_toJson (c : ProtocolChange) (h : c.Fits) : ReadAs ofJson? c.toJson c := by
  intro k hk
  obtain ⟨body, f, htag, hbody, hf⟩ := hk.tagged c.nodup_names
  obtain ⟨h, hparams⟩ := h
  rw [ofJson?, htag, Option.bind_eq_bind, Option.bind_some]
  cases c
  case registerPair pair params =>
    simp only [tag, hbody, Option.bind_eq_bind, Option.bind_some]
    rw [hf.get "pair" rfl (h.readAs_pair rfl), hf.get "config" rfl (params.readAs_toJson (hparams _ rfl))]
    rfl
  case onPair pair change =>
    cases change <;>
      simp only [tag, PairChange.tag, hbody, Option.bind_eq_bind, Option.bind_some] <;>
      rw [hf.get "pair" rfl (h.readAs_pair rfl)]
    case setMinOracles value | setMaxOracles value | setMaxSubscribed value =>
      rw [hf.get "value" rfl (h.readAs_word (by simp [words, PairChange.words]))]
      rfl
    case setLockPeriod secs =>
      rw [hf.get "secs" rfl (h.readAs_word (by simp [words, PairChange.words]))]
      rfl
    case setValidPeriod blocks | setEmergencyPeriod blocks =>
      rw [hf.get "blocks" rfl (h.readAs_word (by simp [words, PairChange.words]))]
      rfl
    case addReader account | removeReader account | addEmergencyPublisher account
        | removeEmergencyPublisher account =>
      rw [hf.get "account" rfl account.readAs_toJson]
      rfl
  all_goals simp only [tag, hbody, Option.bind_eq_bind, Option.bind_some]
  case setMinSubscriptionStake amount =>
    rw [hf.get "amount" rfl (h.readAs_amount (by simp [amounts]))]
    rfl
  case setNumIdleRounds rounds =>
    rw [hf.get "rounds" rfl (h.readAs_word (by simp [words]))]
    rfl
  case setVestingPeriod blocks =>
    rw [hf.get "blocks" rfl (h.readAs_word (by simp [words]))]
    rfl
  case setWithdrawLockTime secs =>
    rw [hf.get "secs" rfl (h.readAs_word (by simp [words]))]
    rfl
  case addToStakingWhitelist account | removeFromStakingWhitelist account | addLocker account
      | removeLocker account =>
    rw [hf.get "account" rfl account.readAs_toJson]
    rfl

end ProtocolChange

/-! ### Round trips -/

/-- A record names its kind under a tag and is read back: from its text, from the same with its members in
another order and with members that nobody asked for, and from the text of that. -/
structure RoundTrips {α : Type} (read : Json → Option α) (tag kind : String) (j : Json) (a : α) : Prop where
  text : (ofText? j.written).bind read = some a
  tag_eq : ∀ k, j.Widened k → k.get? tag = some (.str kind)
  widened : ∀ k, j.Widened k → read k = some a
  widened_text : ∀ k, j.Widened k → Legible depthLimit k → (ofText? k.written).bind read = some a

theorem RoundTrips.of_readAs {α : Type} {read : Json → Option α} {tag kind : String}
    {ms : List (String × Json)} {a : α} (hnames : (tag :: ms.map (·.1)).Nodup)
    (hlegible : Legible depthLimit (.obj ((tag, .str kind) :: ms)))
    (hread : ReadAs read (.obj ((tag, .str kind) :: ms)) a) :
    RoundTrips read tag kind (.obj ((tag, .str kind) :: ms)) a := by
  have htext : ∀ k, Widened (.obj ((tag, .str kind) :: ms)) k → Legible depthLimit k →
      (ofText? k.written).bind read = some a := by
    intro k hk hlegible
    rw [ofText?_written hlegible, Option.bind_some, hread k hk]
  refine ⟨htext _ (.refl _) hlegible, fun k hk => ?_, hread, htext⟩
  obtain ⟨ns, rfl, hns, hmembers⟩ := hk.members_of_obj hnames
  obtain ⟨v, hv, hwide⟩ := hmembers (tag, .str kind) List.mem_cons_self
  obtain rfl := hwide.eq_of_atom rfl rfl
  exact find_of_mem hns hv

/-- Nothing is lost between a writer and a reader of events and protocol changes. Every event and every change
with numbers in their ranges and a pair made from a name, whatever its texts, addresses and lists, is told by
its record: the tag is the name of its kind, and the record is read as what was written, as text and as a
value, also with its members in another order and with members of other names, at any depth. -/
theorem wire_round_trip {e : Event} (he : e.Fits) {c : ProtocolChange} (hc : c.Fits) :
    RoundTrips Event.ofJson? "type" e.name e.toJson e ∧
      RoundTrips ProtocolChange.ofJson? "change" c.name c.toJson c := by
  rw [← e.tag_eq_name, ← c.tag_eq_name]
  exact ⟨.of_readAs e.nodup_names (e.legible_toJson he) (e.readAs_toJson he),
    .of_readAs c.nodup_names (c.legible_toJson hc) (c.readAs_toJson hc)⟩

/-- A withdrawal that waits under no number, read from a record in another order and with a note, and the
registration of a pair whose parameters got a note. -/
theorem wire_round_trip_of_notes :
    let owner : Address := .ofNat 0xa1
    let e : Event := .stakeWithdrawn owner owner (10 ^ 20) 5 none
    let noted : Json := .obj (("note", .str "by hand") :: (("type", .str "StakeWithdrawn") :: e.members).reverse)
    let params : RoundParams := { readers := [owner] }
    let pair : CoinPair := (CoinPair.ofName? "BTCUSD").getD default
    let c : ProtocolChange := .registerPair pair params
    let change : Json := .obj [("change", .str "register_pair"), ("pair", pair.toJson),
      ("config", .obj (("note", .float ⟨0⟩) :: params.members))]
    e.Fits ∧ c.Fits ∧ e.toJson.Widened noted ∧ c.toJson.Widened change ∧
      e.toJson.get? "note" = none ∧ noted.get? "note" = some (.str "by hand") ∧
      Event.ofJson? noted = some e ∧ ProtocolChange.ofJson? change = some c ∧
      (ofText? c.toJson.written).bind ProtocolChange.ofJson? = some c := by
  intro owner e noted params pair c change
  have he : e.Fits := ⟨by decide, by decide, by rintro p ⟨⟩⟩
  have hletters : "BTCUSD".toList = ['B', 'T', 'C', 'U', 'S', 'D'] := rfl
  have hname : CoinPair.IsName "BTCUSD".toList := by simp [CoinPair.IsName, hletters]
  have hnamed : pair.Named := ⟨"BTCUSD", by simp only [pair, CoinPair.ofName?, dif_pos hname, Option.getD_some]⟩
  have hparams : params.Fits := ⟨by decide, by decide, by rintro p ⟨⟩⟩
  have hc : c.Fits :=
    ⟨⟨by decide, by decide, fun p hp => Option.some.inj hp ▸ hnamed⟩, fun p hp => Option.some.inj hp ▸ hparams⟩
  have hnoted : e.toJson.Widened noted :=
    .trans (.extra (.str "by hand") (by decide)) (.members (.cons _ (List.reverse_perm _).symm))
  have hchange : c.toJson.Widened change :=
    .member "config" [("change", .str "register_pair"), ("pair", pair.toJson)] []
      (.extra (.float ⟨0⟩) (by decide))
  obtain ⟨hevent, hread⟩ := wire_round_trip he hc
  exact ⟨he, hc, hnoted, hchange, rfl, rfl, hevent.widened _ hnoted, hread.widened _ hchange, hread.text⟩

end PriceOracle
