import Mathlib.Data.List.Perm.Basic
import PriceOracle.Proofs.Network.Governance
import PriceOracle.Proofs.Staking.Calls
import PriceOracle.Proofs.Staking.Supply
import PriceOracle.Service.Genesis
/-! How a network starts from its settings. The first balances are minted one after the other, which succeeds just if
they sum to an amount; then the governor registers the pairs one after the other. A document that names a pair twice is
no settings, so that only its parameters can keep a pair out. -/
namespace PriceOracle

/-! ### Settings -/

namespace Settings

theorem repeated?_eq_none {before pairs : List CoinPair} :
    repeated? before pairs = none ↔ pairs.Nodup ∧ ∀ pair ∈ pairs, pair ∉ before := by
  induction pairs generalizing before with
  | nil => simp [repeated?]
  | cons pair pairs ih =>
    rw [repeated?]
    split
    · rename_i hmem
      simp [hmem]
    · rename_i hmem
      rw [ih, List.nodup_cons]
      constructor
      · rintro ⟨hnodup, hnot⟩
        refine ⟨⟨fun hin => hnot pair hin (by simp), hnodup⟩, fun p hp => ?_⟩
        rcases List.mem_cons.1 hp with rfl | hp
        · exact hmem
        · exact fun hbefore => hnot p hp (List.mem_cons_of_mem _ hbefore)
      · rintro ⟨⟨hnot, hnodup⟩, hbefore⟩
        refine ⟨hnodup, fun p hp hin => ?_⟩
        rcases List.mem_cons.1 hin with rfl | hin
        · exact hnot hp
        · exact hbefore p (List.mem_cons_of_mem _ hp) hin

theorem nodup_of_ofToml {text : String} {s : Settings} (h : ofToml text = .ok s) :
    (s.pairs.map (·.pair)).Nodup := by
  rw [ofToml] at h
  split at h
  · cases h
  · obtain ⟨u, hvalid, rfl⟩ := exists_of_map_eq_ok h
    rw [validate] at hvalid
    split at hvalid
    · cases hvalid
    · split at hvalid
      · cases hvalid
      · rename_i hnone
        exact (repeated?_eq_none.1 hnone).1

end Settings

/-! ### First balances -/

namespace GenesisBalance

/-- How much is minted in all. -/
def total (bs : List GenesisBalance) : Nat := (bs.map (·.amount)).sum

/-- How much is minted for an account. -/
def totalOf (bs : List GenesisBalance) (a : Address) : Nat := ((bs.filter (·.account = a)).map (·.amount)).sum

theorem totalOf_cons (b : GenesisBalance) (bs : List GenesisBalance) (a : Address) :
    totalOf (b :: bs) a = (if a = b.account then b.amount else 0) + totalOf bs a := by
  rw [totalOf, List.filter_cons]
  by_cases h : b.account = a
  · simp [totalOf, h]
  · simp [totalOf, h, Ne.symm h]

end GenesisBalance

namespace Ledger

variable {l l' : Ledger} {bs : List GenesisBalance}

theorem fund_cons {b : GenesisBalance} :
    l.fund (b :: bs) = .ok l' ↔ ∃ m, l.mint b.account b.amount = .ok m ∧ m.fund bs = .ok l' := by
  rw [fund]
  cases l.mint b.account b.amount <;> simp

/-- All balances are minted just if the supply stays an amount. -/
theorem Balanced.isOk_fund_iff (h : l.Balanced) :
    (∃ l', l.fund bs = .ok l') ↔ l.totalSupply + GenesisBalance.total bs < Amount.limit := by
  induction bs generalizing l with
  | nil => simpa [fund, GenesisBalance.total] using h.2
  | cons b bs ih =>
    have htotal : GenesisBalance.total (b :: bs) = b.amount + GenesisBalance.total bs := by
      simp [GenesisBalance.total]
    simp only [fund_cons]
    rw [htotal, ← Nat.add_assoc]
    constructor
    · rintro ⟨l', m, hm, hl'⟩
      have hfit := (ih (h.mint hm)).1 ⟨l', hl'⟩
      obtain ⟨-, -, rfl⟩ := mint_eq_ok.1 hm
      exact hfit
    · intro hfit
      obtain ⟨m, hm⟩ := h.mint_ok_iff.2 (Nat.lt_of_le_of_lt (Nat.le_add_right _ _) hfit)
      have hsupply : m.totalSupply = l.totalSupply + b.amount := by
        obtain ⟨-, -, rfl⟩ := mint_eq_ok.1 hm
        rfl
      obtain ⟨l', hl'⟩ := (ih (h.mint hm)).2 (by rwa [hsupply])
      exact ⟨l', m, hm, hl'⟩

/-- Each balance adds to its account and to the supply. -/
theorem fund_eq_ok (h : l.fund bs = .ok l') :
    (∀ a, l'.balanceOf a = l.balanceOf a + GenesisBalance.totalOf bs a) ∧
      l'.totalSupply = l.totalSupply + GenesisBalance.total bs := by
  induction bs generalizing l with
  | nil =>
    cases h
    exact ⟨fun _ => rfl, rfl⟩
  | cons b bs ih =>
    obtain ⟨m, hm, hl'⟩ := fund_cons.1 h
    obtain ⟨hbalances, hsupply⟩ := ih hl'
    have hmint := balanceOf_mint hm
    obtain ⟨-, -, rfl⟩ := mint_eq_ok.1 hm
    refine ⟨fun a => ?_, ?_⟩
    · rw [hbalances, hmint, GenesisBalance.totalOf_cons, Nat.add_assoc]
    · rw [hsupply, GenesisBalance.total, GenesisBalance.total, List.map_cons, List.sum_cons, ← Nat.add_assoc]

end Ledger

/-! ### First pairs -/

/-- A feed is as it starts with its parameters in a block: in its first round, with nobody seated or subscribed, and
with its bootstrap price as if it was published there. -/
structure PriceFeed.Fresh (f : PriceFeed) (params : RoundParams) (ctx : BlockContext) : Prop where
  parameters : f.params = params
  number : f.round.number = 1
  seats : f.round.seats = []
  subscribed : f.subscribed = .empty
  price : f.currentPrice = params.bootstrapPrice
  block : f.lastPublicationBlock = ctx.number
  timestamp : f.publicationTimestamp = ctx.timestamp

theorem PriceFeed.isOk_start_iff {pair : CoinPair} {params : RoundParams} {ctx : BlockContext} :
    (∃ f, start pair params ctx = .ok f) ↔ params.validate = .ok () := by
  rw [start]
  cases params.validate <;> simp

theorem PriceFeed.fresh_of_start {pair : CoinPair} {params : RoundParams} {ctx : BlockContext} {f : PriceFeed}
    (h : start pair params ctx = .ok f) : f.pair = pair ∧ f.Fresh params ctx := by
  rw [start] at h
  split at h
  · cases h
  · cases h
    exact ⟨rfl, rfl, rfl, rfl, rfl, rfl, rfl, rfl⟩

namespace Network

variable {n n' : Network} {caller : Address} {ctx : BlockContext} {ps : List PairSettings}

/-- What the registration of a pair by an account that may do so takes, and what it leaves. -/
theorem executeChange_registerPair {pair : CoinPair} {params : RoundParams}
    (hauth : n.authorizer caller (.registerPair pair params)) :
    n.executeChange caller (.registerPair pair params) ctx = .ok n' () ↔
      ¬ n.feeds.contains pair ∧ ∃ f, PriceFeed.start pair params ctx = .ok f ∧
        n' = (n.withFeed f).record [.protocolChangeExecuted caller "register_pair"] := by
  unfold executeChange applyChange registerPair
  rw [if_pos hauth]
  by_cases hknown : n.feeds.contains pair
  · simp [hknown, Attempt.fail, Attempt.ok]
  · cases hstart : PriceFeed.start pair params ctx with
    | error e => simp [hknown, hstart, Attempt.fail, Attempt.ok]
    | ok f => simp [hknown, hstart, Attempt.ok, ProtocolChange.name, eq_comm]

theorem registerPairs_cons {s : PairSettings} :
    n.registerPairs caller ctx (s :: ps) = .ok n' ↔
      ∃ m, n.executeChange caller (.registerPair s.pair s.params) ctx = .ok m () ∧
        m.registerPairs caller ctx ps = .ok n' := by
  rw [registerPairs]
  rcases n.executeChange caller (.registerPair s.pair s.params) ctx with ⟨e | u, m⟩ <;> simp [Attempt.ok]

/-- All pairs are registered just if none is tracked or stands twice among them, and the parameters of each fit
together. -/
theorem isOk_registerPairs_iff (hauth : ∀ change, n.authorizer caller change) :
    (∃ n', n.registerPairs caller ctx ps = .ok n') ↔
      (ps.map (·.pair)).Nodup ∧ ∀ s ∈ ps, ¬ n.feeds.contains s.pair ∧ s.params.validate = .ok () := by
  induction ps generalizing n with
  | nil => simp [registerPairs]
  | cons s ps ih =>
    have htracked {f : PriceFeed} (hf : PriceFeed.start s.pair s.params ctx = .ok f) (pair : CoinPair) :
        (n.withFeed f).feeds.contains pair ↔ pair = s.pair ∨ n.feeds.contains pair := by
      rw [withFeed, (PriceFeed.fresh_of_start hf).1, Table.contains_insert]
    simp only [registerPairs_cons, executeChange_registerPair (hauth _), List.map_cons, List.nodup_cons,
      List.forall_mem_cons]
    constructor
    · rintro ⟨n', m, ⟨hnew, f, hf, rfl⟩, hrest⟩
      obtain ⟨hnodup, hall⟩ := (ih (n := (n.withFeed f).record _) hauth).1 ⟨n', hrest⟩
      refine ⟨⟨fun hmem => ?_, hnodup⟩, ⟨hnew, PriceFeed.isOk_start_iff.1 ⟨f, hf⟩⟩, fun s' hs' => ?_⟩
      · obtain ⟨s', hs', heq⟩ := List.mem_map.1 hmem
        exact (hall s' hs').1 ((htracked hf _).2 (.inl heq))
      · exact ⟨fun hknown => (hall s' hs').1 ((htracked hf _).2 (.inr hknown)), (hall s' hs').2⟩
    · rintro ⟨⟨hnot, hnodup⟩, ⟨hnew, hvalid⟩, hall⟩
      obtain ⟨f, hf⟩ := PriceFeed.isOk_start_iff.2 hvalid
      have hrest : ∀ s' ∈ ps, ¬ (n.withFeed f).feeds.contains s'.pair ∧ s'.params.validate = .ok () := by
        refine fun s' hs' => ⟨fun hknown => ?_, (hall s' hs').2⟩
        rcases (htracked hf _).1 hknown with heq | hknown
        · exact hnot (heq ▸ List.mem_map_of_mem hs')
        · exact (hall s' hs').1 hknown
      obtain ⟨n', hn'⟩ := (ih (n := (n.withFeed f).record _) hauth).2 ⟨hnodup, hrest⟩
      exact ⟨n', _, ⟨hnew, f, hf, rfl⟩, hn'⟩

/-- What registered pairs leave: each has a feed as it starts, all else is as it was, and each is told by an event. -/
structure Registered (n : Network) (caller : Address) (ctx : BlockContext) (ps : List PairSettings) (n' : Network) :
    Prop where
  staking : n'.staking = n.staking
  fresh : ∀ s ∈ ps, ∃ f, n'.feeds.get? s.pair = some f ∧ f.Fresh s.params ctx
  others : ∀ pair, (∀ s ∈ ps, s.pair ≠ pair) → n'.feeds.get? pair = n.feeds.get? pair
  events : n'.events = n.events ++ ps.map fun _ => .protocolChangeExecuted caller "register_pair"

theorem registered_of_registerPairs (hauth : ∀ change, n.authorizer caller change)
    (h : n.registerPairs caller ctx ps = .ok n') : n.Registered caller ctx ps n' := by
  induction ps generalizing n with
  | nil =>
    cases h
    exact ⟨rfl, by simp, fun _ _ => rfl, by simp⟩
  | cons s ps ih =>
    obtain ⟨hnodup, -⟩ := (isOk_registerPairs_iff hauth).1 ⟨n', h⟩
    rw [List.map_cons, List.nodup_cons] at hnodup
    obtain ⟨m, hm, hrest⟩ := registerPairs_cons.1 h
    obtain ⟨-, f, hf, rfl⟩ := (executeChange_registerPair (hauth _)).1 hm
    obtain ⟨hpair, hfresh⟩ := PriceFeed.fresh_of_start hf
    have hr := ih (n := (n.withFeed f).record _) hauth hrest
    have hget (pair : CoinPair) :
        (n.withFeed f).feeds.get? pair = if pair = s.pair then some f else n.feeds.get? pair := by
      rw [withFeed, hpair, Table.get?_insert]
    refine ⟨hr.staking, List.forall_mem_cons.2 ⟨⟨f, ?_, hfresh⟩, hr.fresh⟩, fun pair hne => ?_, ?_⟩
    · -- the pair does not stand among the others, so its feed stays
      have hlater : ∀ s' ∈ ps, s'.pair ≠ s.pair := fun s' hs' heq => hnodup.1 (heq ▸ List.mem_map_of_mem hs')
      exact (hr.others s.pair hlater).trans ((hget s.pair).trans (if_pos rfl))
    · obtain ⟨hne, hlater⟩ := List.forall_mem_cons.1 hne
      exact (hr.others pair hlater).trans ((hget pair).trans (if_neg (Ne.symm hne)))
    · rw [hr.events, List.map_cons]
      exact List.append_assoc n.events [_] _

/-- Of pairs without repetition, where none was tracked before, just these are tracked. -/
theorem Registered.perm_keys (h : n.Registered caller ctx ps n') (hempty : n.feeds = .empty)
    (hnodup : (ps.map (·.pair)).Nodup) : n'.feeds.keys.Perm (ps.map (·.pair)) := by
  refine (List.perm_ext_iff_of_nodup n'.feeds.nodup_keys hnodup).2 fun pair => ?_
  rw [Table.mem_keys]
  constructor
  · intro hknown
    by_contra hnot
    have hnone := h.others pair fun s hs heq => hnot (heq ▸ List.mem_map_of_mem hs)
    rw [hempty, Table.get?_empty] at hnone
    simp [Table.contains, hnone] at hknown
  · intro hpair
    obtain ⟨s, hs, rfl⟩ := List.mem_map.1 hpair
    obtain ⟨f, hf, -⟩ := h.fresh s hs
    simp [Table.contains, hf]

end Network

/-! ### The network -/

theorem Address.isZero_iff {a : Address} : a.isZero ↔ a = .zero :=
  beq_iff_eq.trans ⟨fun h => Address.ext h, fun h => congrArg Address.toNat h⟩

theorem NetworkParams.validate_eq_ok {p : NetworkParams} :
    p.validate = .ok () ↔ p.governor ≠ .zero ∧ p.staking.vestingPeriodBlocks ≠ 0 := by
  simp only [validate, Address.isZero_iff]
  split
  · simp [*]
  · split <;> simp [*]

namespace Network

variable {n : Network}

/-- A network starts just if its governor is somebody and its rewards vest over some blocks. -/
theorem isOk_new_iff {params : NetworkParams} {ledger : Ledger} :
    (∃ n, Network.new params ledger = .ok n) ↔
      params.governor ≠ .zero ∧ params.staking.vestingPeriodBlocks ≠ 0 := by
  rw [← NetworkParams.validate_eq_ok]
  constructor
  · rintro ⟨n, h⟩
    unfold Network.new at h
    cases hp : params.validate with
    | error e =>
      rw [hp] at h
      cases h
    | ok u => rfl
  · intro hp
    have hperiod := (NetworkParams.validate_eq_ok.1 hp).2
    obtain ⟨staking, hs⟩ : ∃ staking,
        Staking.new stakingAccount params.staking ledger (.new vaultAccount) = .ok staking := by
      unfold Staking.new SharePool.new
      rw [isZero_stakingAccount, if_neg hperiod]
      exact ⟨_, rfl⟩
    exact ⟨_, new_of_ok hp hs⟩

theorem blank_of_new {params : NetworkParams} {ledger : Ledger} (h : Network.new params ledger = .ok n) :
    n.ledger = ledger ∧ n.feeds = .empty ∧ n.events = [] ∧ ∀ change, n.authorizer params.governor change := by
  obtain ⟨hgovernor, hauthorizer⟩ := authorizer_new h
  obtain ⟨staking, hs, rfl⟩ := new_eq_ok h
  obtain ⟨pool, -, rfl⟩ := Staking.new_eq_ok hs
  refine ⟨rfl, rfl, rfl, fun change => ?_⟩
  rw [hauthorizer, Authorizer.governor, hgovernor]
  simp

end Network

namespace Settings

variable {s : Settings} {ctx : BlockContext} {n : Network}

theorem bootstrap_eq_ok : s.bootstrap ctx = .ok n ↔
    ∃ ledger, Ledger.empty.fund s.chain.genesis = .ok ledger ∧ ∃ m, Network.new s.network ledger = .ok m ∧
      m.registerPairs s.network.governor ctx s.pairs = .ok n := by
  rw [bootstrap]
  cases Ledger.empty.fund s.chain.genesis with
  | error e => simp
  | ok ledger =>
    cases hnew : Network.new s.network ledger <;> simp [hnew]

theorem isOk_bootstrap_iff (hnodup : (s.pairs.map (·.pair)).Nodup) :
    (∃ n, s.bootstrap ctx = .ok n) ↔
      GenesisBalance.total s.chain.genesis < Amount.limit ∧ s.network.governor ≠ .zero ∧
        s.network.staking.vestingPeriodBlocks ≠ 0 ∧ ∀ p ∈ s.pairs, p.params.validate = .ok () := by
  have hfund : (∃ ledger, Ledger.empty.fund s.chain.genesis = .ok ledger) ↔
      GenesisBalance.total s.chain.genesis < Amount.limit := by
    rw [Ledger.balanced_empty.isOk_fund_iff]
    exact iff_of_eq (congrArg (· < Amount.limit) (Nat.zero_add _))
  have hpairs {ledger : Ledger} {m : Network} (hm : Network.new s.network ledger = .ok m) :
      (∃ n, m.registerPairs s.network.governor ctx s.pairs = .ok n) ↔ ∀ p ∈ s.pairs, p.params.validate = .ok () := by
    obtain ⟨-, hfeeds, -, hauth⟩ := Network.blank_of_new hm
    rw [Network.isOk_registerPairs_iff hauth, hfeeds]
    simp [hnodup, Table.contains]
  simp only [bootstrap_eq_ok]
  constructor
  · rintro ⟨n, ledger, hledger, m, hm, hn⟩
    obtain ⟨hgovernor, hperiod⟩ := Network.isOk_new_iff.1 ⟨m, hm⟩
    exact ⟨hfund.1 ⟨ledger, hledger⟩, hgovernor, hperiod, (hpairs hm).1 ⟨n, hn⟩⟩
  · rintro ⟨hsum, hgovernor, hperiod, hvalid⟩
    obtain ⟨ledger, hledger⟩ := hfund.2 hsum
    obtain ⟨m, hm⟩ := Network.isOk_new_iff.2 ⟨hgovernor, hperiod⟩
    obtain ⟨n, hn⟩ := (hpairs hm).2 hvalid
    exact ⟨n, ledger, hledger, m, hm, hn⟩

/-- For all settings that were read from a document, in every block: the network starts just if the first balances sum
to an amount, the governor is somebody, rewards vest over some blocks and the parameters of each pair fit together. Then
every account has just what was minted for it, and the supply is all that was minted; just the pairs of the settings are
tracked, each by a feed as it starts in that block; and there is one event for each pair, of the change that
registered it. -/
theorem starts_as_configured {text : String} {s : Settings} (h : ofToml text = .ok s) (ctx : BlockContext) :
    ((∃ n, s.bootstrap ctx = .ok n) ↔
      GenesisBalance.total s.chain.genesis < Amount.limit ∧ s.network.governor ≠ .zero ∧
        s.network.staking.vestingPeriodBlocks ≠ 0 ∧ ∀ p ∈ s.pairs, p.params.validate = .ok ()) ∧
    ∀ n, s.bootstrap ctx = .ok n →
      (∀ a, n.ledger.balanceOf a = GenesisBalance.totalOf s.chain.genesis a) ∧
      n.ledger.totalSupply = GenesisBalance.total s.chain.genesis ∧
      n.feeds.keys.Perm (s.pairs.map (·.pair)) ∧
      (∀ p ∈ s.pairs, ∃ f, n.feeds.get? p.pair = some f ∧ f.Fresh p.params ctx) ∧
      n.events = s.pairs.map fun _ => .protocolChangeExecuted s.network.governor "register_pair" := by
  have hnodup := nodup_of_ofToml h
  refine ⟨isOk_bootstrap_iff hnodup, fun n hn => ?_⟩
  obtain ⟨ledger, hledger, m, hm, hn⟩ := bootstrap_eq_ok.1 hn
  obtain ⟨hsame, hfeeds, hevents, hauth⟩ := Network.blank_of_new hm
  obtain ⟨hbalances, hsupply⟩ := Ledger.fund_eq_ok hledger
  have hr := Network.registered_of_registerPairs hauth hn
  have hkept : n.ledger = ledger := (congrArg Staking.ledger hr.staking).trans hsame
  refine ⟨fun a => ?_, ?_, hr.perm_keys hfeeds hnodup, hr.fresh, ?_⟩
  · rw [hkept, hbalances, Ledger.balanceOf_empty, Nat.zero_add]
  · rw [hkept, hsupply]
    exact Nat.zero_add _
  · rw [hr.events, hevents, List.nil_append]

set_option maxRecDepth 4000 in
/-- A document with two pairs and three balances, two of them for one account. -/
theorem starts_as_configured_of_document :
    let text := "
      [network]
      governor = \"0x00000000000000000000000000000000000000aa\"
      [[pairs]]
      name = \"BTCUSD\"
      [[pairs]]
      name = \"ETHUSD\"
      bootstrap_price = \"0x7\"
      [[chain.genesis]]
      account = \"0x0000000000000000000000000000000000000003\"
      amount = \"0x64\"
      [[chain.genesis]]
      account = \"0x0000000000000000000000000000000000000004\"
      amount = \"0x5\"
      [[chain.genesis]]
      account = \"0x0000000000000000000000000000000000000003\"
      amount = \"0x1\"
    "
    let btc : CoinPair := ⟨[66, 84, 67, 85, 83, 68] ++ List.replicate 26 0, rfl⟩
    let eth : CoinPair := ⟨[69, 84, 72, 85, 83, 68] ++ List.replicate 26 0, rfl⟩
    let s : Settings := {
      network := { governor := .ofNat 0xaa }
      pairs := [⟨btc, {}⟩, ⟨eth, { bootstrapPrice := 7 }⟩]
      chain := { genesis := [⟨.ofNat 3, 100⟩, ⟨.ofNat 4, 5⟩, ⟨.ofNat 3, 1⟩] } }
    ofToml text = .ok s ∧ ∃ n, s.bootstrap ⟨9, 90⟩ = .ok n ∧ n.ledger.balanceOf (.ofNat 3) = 101 ∧
      n.ledger.totalSupply = 106 ∧ n.feeds.keys.Perm [btc, eth] ∧
      (∃ f, n.feeds.get? eth = some f ∧ f.Fresh { bootstrapPrice := 7 } ⟨9, 90⟩) ∧
      n.events = List.replicate 2 (.protocolChangeExecuted (.ofNat 0xaa) "register_pair") := by
  intro text btc eth s
  have hdocument : ofToml text = .ok s := by
    -- the characters are those of the literal, which need not be decoded
    have hchars : text.toList = _ := String.toList_ofList
    rw [ofToml, Toml.ofString?, hchars]
    decide +kernel
  obtain ⟨hstarts, hstarted⟩ := starts_as_configured hdocument ⟨9, 90⟩
  obtain ⟨n, hn⟩ := hstarts.2 (by decide +kernel)
  obtain ⟨hbalances, hsupply, hpairs, hfresh, hevents⟩ := hstarted n hn
  exact ⟨hdocument, n, hn, hbalances _, hsupply, hpairs, hfresh ⟨eth, { bootstrapPrice := 7 }⟩ (by simp [s]), hevents⟩

end Settings

end PriceOracle
