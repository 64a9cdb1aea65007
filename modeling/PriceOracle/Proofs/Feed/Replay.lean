import PriceOracle.Proofs.Crypto.Keccak
import PriceOracle.Proofs.Feed.Publication
/-! No price message is accepted twice. The price, its block and its time change only when a certified
price is accepted or a privileged account publishes in an emergency. Neither moves the block of the last
publication back, also where a sum of blocks is held at the largest word, and a certified price moves it
on. A message quotes the block it follows, so those that are accepted quote ever later blocks. -/
namespace PriceOracle.PriceFeed

/-! ### Runs -/

variable {L : Type} [CollateralLedger L]

/-- The price in effect, with the block and the time of its publication. -/
def quote (f : PriceFeed) : Amount × Nat × Nat :=
  (f.currentPrice, f.lastPublicationBlock, f.publicationTimestamp)

def run (f : PriceFeed) (calls : List (Call L)) : PriceFeed := calls.foldl after f

/-- A price is put in effect: certified, or in an emergency by an account that may. -/
inductive Publishes (f : PriceFeed) : Call L → Prop
  | certified {caller : Address} {m : PriceMessage} {signatures : List Signature} {ctx : BlockContext}
      {outcome : PublishOutcome} {f' : PriceFeed}
      (h : f.publish caller m signatures ctx = .ok (outcome, f')) :
      Publishes f (.publish caller m signatures ctx)
  | emergency {caller : Address} {price : Amount} {ctx : BlockContext} {f' : PriceFeed}
      (hlisted : f.emergencyPublishers.contains caller)
      (h : f.emergencyPublish caller price ctx = .ok f') :
      Publishes f (.emergencyPublish caller price ctx)

def accepts? (f : PriceFeed) : Call L → Option PriceMessage
  | .publish caller m signatures ctx => if (f.publish caller m signatures ctx).isOk then some m else none
  | _ => none

def accepted : PriceFeed → List (Call L) → List PriceMessage
  | _, [] => []
  | f, call :: calls => (f.accepts? call).toList ++ accepted (f.after call) calls

/-- A publication stands in a block that a word can number. -/
def Call.Dated : Call L → Prop
  | publish _ _ _ ctx | emergencyPublish _ _ ctx => ctx.number < Word.limit
  | _ => True

instance (call : Call L) : Decidable call.Dated := by
  cases call <;> simp only [Call.Dated] <;> infer_instance

variable {f f' : PriceFeed} {call : Call L} {calls : List (Call L)}

/-! ### Runs -/

/-- What each call that is allowed keeps, a run of such calls keeps. -/
theorem run_induction (keeps : PriceFeed → Prop) {allowed : Call L → Prop}
    (hafter : ∀ {f : PriceFeed} {call : Call L}, keeps f → allowed call → keeps (f.after call))
    (h : keeps f) (hcalls : ∀ call ∈ calls, allowed call) : keeps (f.run calls) :=
  List.foldlRecOn calls after h fun _ hf call hcall => hafter hf (hcalls call hcall)

/-! ### What keeps the quote -/

theorem quote_foldl_drop (dropped : List Address) (f : PriceFeed) :
    (dropped.foldl drop f).quote = f.quote :=
  view_foldl_drop quote (fun _ _ => rfl) dropped f

theorem quote_enlist (f : PriceFeed) (owner address : Address) :
    (f.enlist owner address).2.quote = f.quote := by
  unfold enlist
  dsimp only
  split
  · rfl
  · split <;> rfl

/-- Only what puts a price in effect changes the quote. -/
theorem quote_after (f : PriceFeed) (call : Call L) :
    (f.after call).quote = f.quote ∨ f.Publishes call := by
  have heffect := effect_after f call
  generalize f.after call = f' at heffect
  cases heffect with
  | idle | dropped | expelled | yielded | switched | readers | publishers => exact .inl rfl
  | @listed owner registry e evicted he hnew hevicted =>
    left
    rw [quote_enlist]
    cases evicted <;> rfl
  | published hp => exact .inr (.certified hp)
  | emergency hp => exact .inr (.emergency (emergencyPublish_eq_ok hp).1 hp)
  | capped hs =>
    obtain ⟨-, -, rfl⟩ := setMaxSubscribed_eq_ok hs
    exact .inl (quote_foldl_drop _ _)
  | params hp hcap =>
    obtain ⟨-, rfl⟩ := withParams_eq_ok hp
    exact .inl rfl

/-! ### The block of the last publication -/

omit [CollateralLedger L] in
theorem accepts?_eq_some {m : PriceMessage} :
    f.accepts? call = some m ↔ ∃ caller signatures ctx outcome f',
      call = .publish caller m signatures ctx ∧
        f.publish caller m signatures ctx = .ok (outcome, f') := by
  constructor
  · intro h
    cases call with
    | publish caller m' signatures ctx =>
      simp only [accepts?] at h
      cases hp : f.publish caller m' signatures ctx with
      | error e =>
        rw [hp] at h
        cases h
      | ok x =>
        rw [hp] at h
        cases h
        exact ⟨caller, signatures, ctx, x.1, x.2, rfl, hp⟩
    | _ => cases h
  · rintro ⟨caller, signatures, ctx, outcome, f', rfl, hp⟩
    simp only [accepts?, hp]
    rfl

/-- How far a call moves the block of the last publication. -/
structure Advances (f : PriceFeed) (call : Call L) : Prop where
  dated : (f.after call).lastPublicationBlock < Word.limit
  le : f.lastPublicationBlock ≤ (f.after call).lastPublicationBlock
  quoted : ∀ m, f.accepts? call = some m → m.lastPublicationBlock = f.lastPublicationBlock
  lt : ∀ m, f.accepts? call = some m → f.lastPublicationBlock < (f.after call).lastPublicationBlock

theorem advances (hf : f.lastPublicationBlock < Word.limit) (hc : call.Dated) : f.Advances call := by
  rcases quote_after f call with hkept | hpublishes
  · -- nothing was published, so neither was a message accepted
    have hblock : (f.after call).lastPublicationBlock = f.lastPublicationBlock :=
      congrArg (·.2.1) hkept
    have hnone : ∀ m, f.accepts? call ≠ some m := by
      intro m hm
      obtain ⟨caller, signatures, ctx, outcome, f', rfl, hp⟩ := accepts?_eq_some.1 hm
      obtain ⟨hcertified, seat, -, -, -, rfl⟩ := publish_eq_ok.1 hp
      simp only [after, hp] at hblock
      exact absurd hblock (Nat.ne_of_gt hcertified.later)
    exact ⟨by omega, by omega, fun m hm => absurd hm (hnone m), fun m hm => absurd hm (hnone m)⟩
  · cases hpublishes with
    | @certified caller m signatures ctx outcome f' hp =>
      obtain ⟨hcertified, seat, -, -, -, rfl⟩ := publish_eq_ok.1 hp
      have hblock : (f.after (.publish caller m signatures ctx : Call L)).lastPublicationBlock
          = ctx.number := by
        simp only [after, hp]
        rfl
      have hlater := hcertified.later
      refine ⟨?_, by omega, fun m' hm => ?_, fun _ _ => by omega⟩
      · rw [hblock]
        exact hc
      · obtain ⟨_, _, _, _, _, hcall, -⟩ := accepts?_eq_some.1 hm
        cases hcall
        exact hcertified.block
    | @emergency caller price ctx f' hlisted hp =>
      obtain ⟨-, rfl, hle⟩ := emergencyPublish_eq_ok hp
      have hle := hle hf
      have hblock : (f.after (.emergencyPublish caller price ctx : Call L)).lastPublicationBlock
          = ctx.number := by
        simp only [after, hp]
        rfl
      have hnone : ∀ m, f.accepts? (.emergencyPublish caller price ctx : Call L) ≠ some m := by
        simp [accepts?]
      refine ⟨?_, by omega, fun m hm => absurd hm (hnone m), fun m hm => absurd hm (hnone m)⟩
      rw [hblock]
      exact hc

/-! ### Messages -/

/-- The blocks that the accepted messages of a run quote ascend, from that of the last publication. -/
theorem ascending_accepted {calls : List (Call L)} : ∀ {f : PriceFeed},
    f.lastPublicationBlock < Word.limit → (∀ call ∈ calls, call.Dated) →
    (∀ m ∈ f.accepted calls, f.lastPublicationBlock ≤ m.lastPublicationBlock) ∧
      (f.accepted calls).Pairwise (·.lastPublicationBlock < ·.lastPublicationBlock) := by
  induction calls with
  | nil =>
    intro f _ _
    exact ⟨by simp [accepted], .nil⟩
  | cons call calls ih =>
    intro f hf hcalls
    have hstep : f.Advances call := advances hf (hcalls call (by simp))
    obtain ⟨hlater, hascending⟩ := ih hstep.dated fun c hc => hcalls c (by simp [hc])
    have hle := hstep.le
    rw [accepted]
    cases hm : f.accepts? call with
    | none =>
      rw [Option.toList_none, List.nil_append]
      exact ⟨fun m h => Nat.le_trans hle (hlater m h), hascending⟩
    | some m =>
      have hquoted := hstep.quoted m hm
      have hlt := hstep.lt m hm
      have hrest : ∀ m' ∈ (f.after call).accepted calls,
          m.lastPublicationBlock < m'.lastPublicationBlock := by
        intro m' h
        have := hlater m' h
        omega
      rw [Option.toList_some, List.singleton_append]
      refine ⟨fun m' h => ?_, .cons hrest hascending⟩
      rcases List.mem_cons.1 h with rfl | h
      · exact Nat.le_of_eq hquoted.symm
      · have := hrest m' h
        omega

theorem lastPublicationBlock_run_lt (hf : f.lastPublicationBlock < Word.limit)
    (hcalls : ∀ call ∈ calls, call.Dated) : (f.run calls).lastPublicationBlock < Word.limit :=
  run_induction (·.lastPublicationBlock < Word.limit) (fun hf hc => (advances hf hc).dated) hf hcalls

/-- From the start of a feed, over any calls with any registries, ledgers and contexts, in any order,
accepted or refused. A call changes the quote only by putting a price in effect. The block of the last
publication never moves back, and moves on with each message that is accepted. No message is accepted
twice, nor are two that quote the same block. -/
theorem no_replay {pair : CoinPair} {params : RoundParams} {ctx : BlockContext}
    (hf : PriceFeed.start pair params ctx = .ok f) (hctx : ctx.number < Word.limit)
    (hcalls : ∀ call ∈ calls, call.Dated) :
    (∀ before call after, calls = before ++ call :: after →
      (((f.run before).after call).quote ≠ (f.run before).quote → (f.run before).Publishes call) ∧
        (f.run before).lastPublicationBlock ≤ ((f.run before).after call).lastPublicationBlock ∧
        ∀ m, (f.run before).accepts? call = some m →
          (f.run before).lastPublicationBlock < ((f.run before).after call).lastPublicationBlock) ∧
      (f.accepted calls).Nodup ∧ ((f.accepted calls).map (·.lastPublicationBlock)).Nodup := by
  have hstart : f.lastPublicationBlock < Word.limit := by
    unfold PriceFeed.start at hf
    split at hf
    · cases hf
    · cases hf
      exact hctx
  obtain ⟨-, hascending⟩ := ascending_accepted hstart hcalls
  refine ⟨?_, ?_, ?_⟩
  · rintro before call after rfl
    have hblock := lastPublicationBlock_run_lt hstart fun c (hc : c ∈ before) =>
      hcalls c (List.mem_append_left _ hc)
    have hstep : (f.run before).Advances call := advances hblock (hcalls call (by simp))
    refine ⟨fun hchanged => ?_, hstep.le, hstep.lt⟩
    rcases quote_after (f.run before) call with hkept | hpublishes
    · exact absurd hkept hchanged
    · exact hpublishes
  · exact hascending.imp fun hlt heq => by simp [heq] at hlt
  · refine List.pairwise_map.2 (hascending.imp fun hlt => ?_)
    exact Nat.ne_of_lt hlt

/-- The only member signs a price and publishes it. A block later the same message is refused, and an
emergency price is accepted at the last block there is. -/
theorem no_replay_of_member :
    let owner := Address.ofNat 1
    let member := Address.ofNat 0xd41c057fd1c78805aac12b0a94a405c0461a6fbb
    let publisher := Address.ofNat 9
    let registry : Registry := ⟨[⟨owner, member, "host", 100, .empty, 0⟩], 1⟩
    let params : RoundParams := { emergencyPublishers := [publisher] }
    let f : PriceFeed :=
      ⟨default, params, .initial, .empty, .empty, 100000000, 5, 50, .empty, .ofList [publisher]⟩
    let m : PriceMessage := ⟨3, default, 7, member, 5⟩
    let signature : Signature := ⟨28,
      .ofNat 47486379527906555086285433316220079226893813735372085191146885490658796484330,
      .ofNat 26729327167864377619918173784174956574741307381681785235875068965420341663908⟩
    let calls : List (Call Ledger) := [
      .subscribe owner registry,
      .publish member m [signature] ⟨6, 60⟩,
      .publish member m [signature] ⟨7, 70⟩,
      .emergencyPublish publisher 8 ⟨Word.limit - 1, 80⟩]
    PriceFeed.start default params ⟨5, 50⟩ = .ok f ∧ (∀ call ∈ calls, call.Dated) ∧
      (f.accepted calls).Nodup ∧ f.accepted calls = [m] := by
  intro owner member publisher registry params f m signature calls
  have hf : PriceFeed.start default params ⟨5, 50⟩ = .ok f := rfl
  have hstart : (⟨5, 50⟩ : BlockContext).number < Word.limit := by decide
  have hcalls : ∀ call ∈ calls, call.Dated := by decide +kernel
  have hhash : m.signingHash =
      .ofNat 85705341980887537496910503970515607444648511077555437534754913418655332487684 := by
    rw [PriceMessage.signingHash, signedMessageHash, keccak256_eq]
    decide +kernel
  have hrecovered : recoverSigner m.signingHash signature = .ok member := by
    rw [hhash]
    simp only [recoverSigner, accountOfKey, keccak256_eq]
    decide +kernel
  let joined := f.after (.subscribe owner registry : Call Ledger)
  let published := { joined with round := joined.round.award owner }.setPrice 7 ⟨6, 60⟩
  have hpublished : joined.publish member m [signature] ⟨6, 60⟩ = .ok (⟨owner, 1, [member]⟩, published) := by
    refine publish_eq_ok.2 ⟨⟨rfl, ?_, ?_, rfl, ?_, ?_, ?_, ?_, .cons hrecovered .nil, ?_, ?_⟩,
      ⟨owner, member, 0, false⟩, ?_⟩
    all_goals decide +kernel
  have hafter : joined.after (.publish member m [signature] ⟨6, 60⟩ : Call Ledger) = published := by
    rw [after, hpublished]
    rfl
  have hsubscribe : f.accepts? (.subscribe owner registry : Call Ledger) = none := rfl
  have haccepts : joined.accepts? (.publish member m [signature] ⟨6, 60⟩ : Call Ledger) = some m := by
    rw [accepts?, hpublished]
    rfl
  have haccepted : f.accepted calls = [m] := by
    rw [accepted, accepted, hsubscribe, haccepts, hafter]
    decide +kernel
  obtain ⟨-, hnodup, -⟩ := no_replay hf hstart hcalls
  exact ⟨hf, hcalls, hnodup, haccepted⟩

end PriceOracle.PriceFeed
