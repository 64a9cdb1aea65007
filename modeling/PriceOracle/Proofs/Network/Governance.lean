import PriceOracle.Proofs.Network.Terms
/-! Who may change the terms. What is set for the network, its pairs and staking changes by accepted protocol
changes alone, each of which sets the one thing it names. Beside that, a new pair gets its feed, and a cap
trims the list it is for. All other calls leave the terms as they are, and refused changes do so too. -/
namespace PriceOracle.Network

variable {n n' : Network} {pair : CoinPair} {f : PriceFeed} {caller : Address} {change : ProtocolChange}
  {ctx : BlockContext}

/-! ### What comes beside a change -/

/-- The network with the owners struck off a pair's list that a cap leaves no room for. -/
def trim (n : Network) (pair : CoinPair) (cap : Nat) : Network :=
  match n.feeds.get? pair with
  | none => n
  | some f =>
    let surplus := f.surplus n.registry cap
    let registry := surplus.foldl (fun registry owner => registry.delist owner pair) n.registry
    ({ n with registry }.withFeed (surplus.foldl PriceFeed.drop f)).record
      (surplus.map (.oracleUnsubscribed · pair))

theorem get?_trim (hf : n.feeds.get? pair = some f) (cap : Nat) :
    (n.trim pair cap).feeds.get? ((f.surplus n.registry cap).foldl PriceFeed.drop f).pair
      = some ((f.surplus n.registry cap).foldl PriceFeed.drop f) := by
  rw [trim, hf]
  exact Table.get?_insert_self ..

/-- A trimmed network whose feed is then set to other terms: it is as if it was stored with these. -/
theorem withFeed_trim (hf : n.feeds.get? pair = some f) (cap : Nat) (t : PairTerms) :
    let surplus := f.surplus n.registry cap
    let registry := surplus.foldl (fun registry owner => registry.delist owner pair) n.registry
    (n.trim pair cap).withFeed ((surplus.foldl PriceFeed.drop f).withTerms t)
      = ({ n with registry }.withFeed ((surplus.foldl PriceFeed.drop f).withTerms t)).record
          (surplus.map (.oracleUnsubscribed · pair)) := by
  intro surplus registry
  rw [trim, hf]
  simp only [withFeed, record]
  exact congrArg (fun feeds : Feeds => ({ n with
    registry, feeds, events := n.events ++ surplus.map (.oracleUnsubscribed · pair) } : Network))
    (Table.insert_insert n.feeds _ (surplus.foldl PriceFeed.drop f) _)

/-- What a change does beside what it sets: a new pair gets its feed, and a cap trims the list by today's
stakes. -/
def aside (n : Network) (change : ProtocolChange) (ctx : BlockContext) : Network :=
  match change with
  | .registerPair pair params => (PriceFeed.start pair params ctx).toOption.elim n n.withFeed
  | .onPair pair (.setMaxSubscribed value) => (n.refreshStakes ctx).trim pair value
  | _ => n

/-- A change sets what it names and does nothing else but what comes beside that. -/
structure Amends (n : Network) (change : ProtocolChange) (ctx : BlockContext) (n' : Network) : Prop where
  terms : n'.terms = n.terms.amend change
  aside : n' = (n.aside change ctx).withTerms n'.terms
  authorizer : n'.authorizer = n.authorizer

/-! ### Changes -/

theorem amends_registerPair {params : RoundParams} (hs : PriceFeed.start pair params ctx = .ok f) :
    n.Amends (.registerPair pair params) ctx (n.withFeed f) := by
  obtain ⟨hpair, hterms⟩ := PriceFeed.start_eq_ok hs
  refine ⟨?_, ?_, rfl⟩
  · rw [terms_withFeed, hpair, hterms]
    rfl
  · rw [Network.aside, hs]
    exact eq_withTerms_of_feeds rfl rfl rfl

/-- The list is trimmed and the cap is set, as if one after the other. -/
theorem amends_setMaxSubscribed (hm : Mirrored n.registry n.feeds) {value : Nat} {f' : PriceFeed}
    {dropped : List Address} (hf : (n.refreshStakes ctx).feeds.get? pair = some f)
    (hs : f.setMaxSubscribed value (n.refreshStakes ctx).registry = .ok (dropped, f')) :
    n.Amends (.onPair pair (.setMaxSubscribed value)) ctx
      (({ n.refreshStakes ctx with
          registry := dropped.foldl (fun registry owner => registry.delist owner pair)
            (n.refreshStakes ctx).registry }.withFeed f').record (dropped.map (.oracleUnsubscribed · pair))) := by
  have hstakes := n.onSameTerms_refreshStakes ctx
  have hpair : f.pair = pair := (mirrored_refreshStakes hm ctx).pair_eq pair f hf
  obtain ⟨rfl, rfl⟩ := PriceFeed.setMaxSubscribed_eq_withTerms hs
  have hdrop := PriceFeed.onSameTerms_foldl_drop (f.surplus (n.refreshStakes ctx).registry value) f
  refine ⟨?_, ?_, hstakes.authorizer⟩
  · have hterms : n.terms.pairs.get? pair = some f.terms := by
      rw [← hstakes.terms, get?_terms, hf]
      rfl
    rw [Terms.amend_onPair hterms, ← hstakes.terms, ← hpair, ← hdrop.pair]
    exact terms_withFeed _ _
  · rw [← withFeed_trim hf]
    exact withFeed_eq_withTerms (get?_trim hf value) rfl

theorem amends_withFeed (hm : Mirrored n.registry n.feeds) {change : PairChange}
    (hf : n.feeds.get? pair = some f) (haside : n.aside (.onPair pair change) ctx = n) :
    n.Amends (.onPair pair change) ctx (n.withFeed (f.withTerms (f.terms.amend change))) := by
  obtain rfl : f.pair = pair := hm.pair_eq pair f hf
  refine ⟨?_, ?_, rfl⟩
  · have hterms : n.terms.pairs.get? f.pair = some f.terms := by rw [get?_terms, hf]; rfl
    rw [terms_withFeed, Terms.amend_onPair hterms]
    rfl
  · rw [haside]
    exact withFeed_eq_withTerms hf rfl

theorem amends_adjust {setting : StakingSetting} {staking : Staking} (hsetting : change.setting? = some setting)
    (hs : n.staking.adjust setting = .ok staking) : n.Amends change ctx { n with staking } := by
  obtain rfl := Staking.adjust_eq_ok hs
  have hamend : n.terms.amend change = { n.terms with staking := n.staking.terms.amend setting } := by
    cases change <;> cases hsetting <;> rfl
  have haside : n.aside change ctx = n := by
    cases change <;> cases hsetting <;> rfl
  refine ⟨hamend.symm, ?_, rfl⟩
  rw [haside]
  exact eq_withTerms_of_feeds rfl rfl rfl

theorem Changed.amends (hm : Mirrored n.registry n.feeds) (h : n.Changed ctx change n') :
    n.Amends change ctx n' := by
  cases h with
  | tracked hnew hs => exact amends_registerPair hs
  | capped htracked hf hs => exact amends_setMaxSubscribed hm hf hs
  | @set pair change call f f' hcall hf hafter hterms =>
    rw [hterms]
    exact amends_withFeed hm hf (by cases change <;> cases hcall <;> rfl)
  | minStake amount | idleRounds rounds => exact ⟨rfl, eq_withTerms_of_feeds rfl rfl rfl, rfl⟩
  | adjusted hsetting hs => exact amends_adjust hsetting hs

/-- An accepted change is one that the authorizer lets its caller make. It sets what it names. -/
theorem executeChange_eq_ok (hm : Mirrored n.registry n.feeds)
    (h : (n.executeChange caller change ctx).result = .ok ()) :
    let n' := (n.executeChange caller change ctx).state
    n.authorizer caller change ∧ n'.terms = n.terms.amend change ∧
      n' = ((n.aside change ctx).withTerms n'.terms).record [.protocolChangeExecuted caller change.name] ∧
      n'.authorizer = n.authorizer := by
  have hout := n.outcome_executeChange caller change ctx
  rw [h] at hout
  obtain ⟨hauthorized, m, hchanged, heq⟩ := hout.changed_of_executeChange
  have hamends := hchanged.amends hm
  rw [heq]
  exact ⟨hauthorized, hamends.terms, congrArg (record · [.protocolChangeExecuted caller change.name])
    hamends.aside, hamends.authorizer⟩

/-! ### Runs -/

def Step.Changes (n : Network) (step : Step) : Prop :=
  ∃ caller change ctx, step = .command (.act caller (.executeChange change)) ctx ∧
    n.authorizer caller change ∧ (n.executeChange caller change ctx).result = .ok ()

theorem onSameTerms_after {j : Journal} (hm : Mirrored j.network.registry j.network.feeds) {step : Step}
    (hstep : ¬ step.Changes j.network) (hkeep : ∀ authorizer, step ≠ .authorize authorizer) :
    j.network.OnSameTerms (j.after step).network := by
  cases step with
  | command command ctx =>
    refine (j.network.outcome_run command ctx).onSameTerms hm fun caller change heq => ?_
    subst heq
    cases hr : (j.network.executeChange caller change ctx).result with
    | error e =>
      show ((j.network.executeChange caller change ctx).result.map _).isOk = false
      rw [hr]
      rfl
    | ok _ => exact absurd ⟨caller, change, ctx, rfl, (executeChange_eq_ok hm hr).1, hr⟩ hstep
  | refreshStakes ctx => exact j.network.onSameTerms_refreshStakes ctx
  | authorize authorizer => exact absurd rfl (hkeep authorizer)
  | outside ledger | drain => exact .aside rfl rfl rfl rfl

/-- A step that is no accepted change leaves the terms as they are. -/
theorem terms_after {j : Journal} (hm : Mirrored j.network.registry j.network.feeds) {step : Step}
    (hstep : ¬ step.Changes j.network) : (j.after step).network.terms = j.network.terms := by
  cases step with
  | authorize authorizer => rfl
  | _ => exact (onSameTerms_after hm hstep fun _ heq => by cases heq).terms

/-- Only the step that is for it replaces the authorizer. -/
theorem authorizer_after {j : Journal} (hm : Mirrored j.network.registry j.network.feeds) {step : Step}
    (hkeep : ∀ authorizer, step ≠ .authorize authorizer) :
    (j.after step).network.authorizer = j.network.authorizer := by
  by_cases hstep : step.Changes j.network
  · obtain ⟨caller, change, ctx, rfl, -, hok⟩ := hstep
    exact (executeChange_eq_ok hm hok).2.2.2
  · exact (onSameTerms_after hm hstep hkeep).authorizer

theorem authorizer_foldl_after (steps : List Step) : ∀ j : Journal,
    Mirrored j.network.registry j.network.feeds → (∀ authorizer, Step.authorize authorizer ∉ steps) →
    (steps.foldl Journal.after j).network.authorizer = j.network.authorizer := by
  induction steps with
  | nil => exact fun _ _ _ => rfl
  | cons step steps ih =>
    intro j hm hkeep
    have hstep : ∀ authorizer, step ≠ .authorize authorizer := fun authorizer heq =>
      hkeep authorizer (heq ▸ List.mem_cons_self ..)
    have hm' := (reaches_after j step).keep (fun _ _ _ => mirrored_of_move) hm
    have hrest : ∀ authorizer, Step.authorize authorizer ∉ steps := fun authorizer ha =>
      hkeep authorizer (List.mem_cons_of_mem _ ha)
    rw [List.foldl_cons, ih (j.after step) hm' hrest]
    exact authorizer_after hm hstep

theorem authorizer_new {params : NetworkParams} {ledger : Ledger} (h : Network.new params ledger = .ok n) :
    params.governor.isZero = false ∧ n.authorizer = .governor params.governor := by
  obtain ⟨staking, -, rfl⟩ := new_eq_ok h
  refine ⟨?_, rfl⟩
  cases hzero : params.governor.isZero with
  | false => rfl
  | true =>
    unfold Network.new NetworkParams.validate at h
    rw [hzero] at h
    cases h

/-- After any run of a new network: the terms change by a step only if that step is an accepted protocol
change, which the authorizer lets its caller make; unless the authorizer was replaced, it lets the governor
make every change and nobody else any. An accepted change sets what it names, and apart from the terms it
does nothing but what comes beside it. The parameters of every tracked pair fit together. -/
theorem terms_run {params : NetworkParams} {ledger : Ledger} (hn : Network.new params ledger = .ok n)
    (steps : List Step) :
    let j := n.run steps
    let m := j.network
    (∀ step, (j.after step).network.terms ≠ m.terms → ∃ caller change ctx,
      step = .command (.act caller (.executeChange change)) ctx ∧ m.authorizer caller change ∧
        (m.executeChange caller change ctx).result = .ok ()) ∧
    ((∀ authorizer, Step.authorize authorizer ∉ steps) → params.governor ≠ .zero ∧
      ∀ caller change, m.authorizer caller change ↔ caller = params.governor) ∧
    (∀ caller change ctx, (m.executeChange caller change ctx).result = .ok () →
      let m' := (m.executeChange caller change ctx).state
      m.authorizer caller change ∧ m'.terms = m.terms.amend change ∧
        m' = ((m.aside change ctx).withTerms m'.terms).record
          [.protocolChangeExecuted caller change.name]) ∧
    ∀ pair t, m.terms.pairs.get? pair = some t → t.params.validate = .ok () := by
  intro j m
  have hm : Mirrored m.registry m.feeds := (inOrder_run hn steps).mirrored
  refine ⟨fun step hne => ?_, fun hkeep => ?_, fun caller change ctx hok => ?_, fun pair t ht => ?_⟩
  · by_contra hstep
    exact hne (terms_after hm hstep)
  · obtain ⟨hsomebody, hgovernor⟩ := authorizer_new hn
    have hauthorizer : m.authorizer = .governor params.governor :=
      (authorizer_foldl_after steps ⟨[], n⟩ (mirrored_new hn) hkeep).trans hgovernor
    refine ⟨?_, fun caller change => ?_⟩
    · intro hzero
      rw [hzero] at hsomebody
      cases hsomebody
    · rw [hauthorizer, Authorizer.governor, hsomebody]
      simp
  · obtain ⟨hauthorized, hterms, haside, -⟩ := executeChange_eq_ok hm hok
    exact ⟨hauthorized, hterms, haside⟩
  · rw [get?_terms, Option.map_eq_some_iff] at ht
    obtain ⟨f, hf, rfl⟩ := ht
    exact (hm.capped pair f hf).valid

/-- Of two subscribers the one with less at stake makes room for a lower cap, which the governor may set and
the other may not. -/
theorem terms_run_of_lower_cap :
    let governor := Address.ofNat 1
    let owner := Address.ofNat 2
    let rival := Address.ofNat 3
    let pair : CoinPair := default
    let ledger : Ledger := ⟨(Table.empty.insert owner 5).insert rival 10, .empty, 15⟩
    let staking : Staking :=
      ⟨stakingAccount, ⟨.empty, 0, 0, .none, 0, 10⟩, ledger, .new vaultAccount, 3600, .empty, .empty, .empty⟩
    let n : Network := ⟨.empty, staking, .empty, ⟨0, 1⟩, .governor governor, []⟩
    let params : RoundParams := { minOracles := 1, maxOracles := 1, maxSubscribed := 2 }
    let steps : List Step := [
      .command (.act governor (.executeChange (.registerPair pair params))) ⟨1, 10⟩,
      .command (.act owner (.approve 5)) ⟨2, 20⟩,
      .command (.act owner (.deposit 5 none)) ⟨3, 30⟩,
      .command (.act owner (.registerOracle owner "host")) ⟨4, 40⟩,
      .command (.act owner (.subscribe pair)) ⟨5, 50⟩,
      .command (.act rival (.approve 10)) ⟨6, 60⟩,
      .command (.act rival (.deposit 10 none)) ⟨7, 70⟩,
      .command (.act rival (.registerOracle rival "host")) ⟨8, 80⟩,
      .command (.act rival (.subscribe pair)) ⟨9, 90⟩]
    let change : ProtocolChange := .onPair pair (.setMaxSubscribed 1)
    let m := (n.run steps).network
    let m' := (m.executeChange governor change ⟨10, 100⟩).state
    Network.new { governor } ledger = .ok n ∧
      (m.executeChange governor change ⟨10, 100⟩).result = .ok () ∧ ¬ m.authorizer rival change ∧
      m'.terms = m.terms.amend change ∧ m'.terms ≠ m.terms ∧
      (m.feeds.get? pair).map (·.subscribed.keys) = some [owner, rival] ∧
      (m'.feeds.get? pair).map (·.subscribed.keys) = some [rival] := by
  intro governor owner rival pair ledger staking n params steps change m m'
  have hn : Network.new { governor } ledger = .ok n := new_of_governor rfl ledger
  have hrun : (m.executeChange governor change ⟨10, 100⟩).result = .ok () ∧
      m.terms.amend change ≠ m.terms ∧
      (m.feeds.get? pair).map (·.subscribed.keys) = some [owner, rival] ∧
      (m'.feeds.get? pair).map (·.subscribed.keys) = some [rival] := by
    simp only [m', m, n, staking, stakingAccount_eq, vaultAccount_eq]
    decide +kernel
  obtain ⟨hok, hdiffers, hbefore, hafter⟩ := hrun
  obtain ⟨-, hgovernor, haccepted, -⟩ := terms_run hn steps
  obtain ⟨-, hterms, -⟩ := haccepted governor change ⟨10, 100⟩ hok
  obtain ⟨-, hgovernor⟩ := hgovernor (by simp [steps])
  refine ⟨hn, hok, ?_, hterms, fun heq => hdiffers (hterms.symm.trans heq), hbefore, hafter⟩
  rw [show m = (n.run steps).network from rfl, hgovernor]
  decide

end PriceOracle.Network
