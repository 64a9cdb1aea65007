import PriceOracle.Proofs.Crypto.Keccak
import PriceOracle.Proofs.Feed.Reachable
import PriceOracle.Proofs.Round.Quorum
/-! When a price is accepted. The conditions on a publication stand in a fixed order, and a refusal names
the first one that fails. A publication that is accepted carries the signatures of more than half the
seats, by different signers, so any two that are accepted for one row of seats share a signer. -/
namespace PriceOracle

/-! ### Ordered checks -/

/-- A condition, and the error that tells of its failure. -/
structure Check where
  holds : Bool
  error : RoundError

def Check.firstFailure (checks : List Check) : Option RoundError :=
  (checks.find? (!·.holds)).map (·.error)

namespace Check

@[simp]
theorem firstFailure_nil : firstFailure [] = none := rfl

theorem firstFailure_cons (c : Check) (cs : List Check) :
    firstFailure (c :: cs) = if c.holds then firstFailure cs else some c.error := by
  unfold firstFailure
  rw [List.find?_cons]
  cases c.holds <;> rfl

theorem firstFailure_append (cs ds : List Check) :
    firstFailure (cs ++ ds) = (firstFailure cs).or (firstFailure ds) := by
  induction cs with
  | nil => simp
  | cons c cs ih =>
    rw [List.cons_append, firstFailure_cons, firstFailure_cons, ih]
    split <;> rfl

end Check

/-! ### Signatures -/

def signerOf? (hash : Hash) (signature : Signature) : Option Address :=
  (recoverSigner hash signature).toOption

/-- The conditions on signatures, of which the first is number `index` and follows one that recovers to
`above`: each recovers, to a signer above that of the one before, who has a seat. -/
def signatureChecks (hash : Hash) (isMember : Address → Bool) (index : Nat) (above : Option Address) :
    List Signature → List Check
  | [] => []
  | signature :: rest =>
    let signer := signerOf? hash signature
    ⟨signer.isSome, .cannotRecoverSignature index⟩
      :: ⟨signer.all fun a => above.all (·.toNat < a.toNat), .notUniqueOrNotOrdered index⟩
      :: ⟨signer.all isMember, .signerNotInRound (signer.getD .zero)⟩
      :: signatureChecks hash isMember (index + 1) signer rest

theorem signersFrom_eq_error {hash : Hash} {isMember : Address → Bool} {signatures : List Signature}
    {e : RoundError} : ∀ {index : Nat} {above : Option Address},
    signersFrom hash isMember index above signatures = .error e
      ↔ Check.firstFailure (signatureChecks hash isMember index above signatures) = some e := by
  induction signatures with
  | nil =>
    intro index above
    simp [signersFrom, signatureChecks]
  | cons signature rest ih =>
    intro index above
    unfold signersFrom signatureChecks
    cases hrec : recoverSigner hash signature with
    | error err =>
      have hnone : signerOf? hash signature = none := by
        rw [signerOf?, hrec]
        rfl
      simp [Check.firstFailure_cons, hnone]
    | ok signer =>
      have hsome : signerOf? hash signature = some signer := by
        rw [signerOf?, hrec]
        rfl
      have hnot : above.any (signer.toNat ≤ ·.toNat) = !above.all (·.toNat < signer.toNat) := by
        cases above with
        | none => rfl
        | some b => simp only [Option.any_some, Option.all_some, ← decide_not, Nat.not_lt]
      simp only [Check.firstFailure_cons, hsome, Option.isSome_some, Option.all_some, ↓reduceIte, hnot]
      by_cases habove : above.all (·.toNat < signer.toNat)
      · by_cases hmember : isMember signer
        · simp only [habove, hmember, Bool.not_true, Bool.false_eq_true, ↓reduceIte]
          rw [← ih]
          cases signersFrom hash isMember (index + 1) (some signer) rest <;> simp [Except.map]
        · simp [habove, hmember]
      · simp [habove]

/-! ### Publications -/

namespace PriceFeed

/-- The conditions on the message and its proposer. -/
def proposalChecks (f : PriceFeed) (caller : Address) (m : PriceMessage) (ctx : BlockContext) :
    List Check :=
  [⟨m.version = 3, .unsupportedVersion m.version⟩,
    ⟨m.pair = f.pair, .pairMismatch f.pair m.pair⟩,
    ⟨m.price ≠ 0, .zeroPrice⟩,
    ⟨caller = m.votedOracle, .notVotedOracle caller m.votedOracle⟩,
    ⟨m.lastPublicationBlock = f.lastPublicationBlock,
      .staleBlock f.lastPublicationBlock m.lastPublicationBlock⟩,
    ⟨f.lastPublicationBlock < ctx.number, .alreadyPublishedInBlock ctx.number⟩,
    ⟨f.round.seatsAddress caller, .voterNotInRound caller⟩]

/-- The conditions on the signatures: their number, then each of them. -/
def certificateChecks (f : PriceFeed) (m : PriceMessage) (signatures : List Signature) : List Check :=
  ⟨f.round.seats.length / 2 < signatures.length,
      .notEnoughSignatures signatures.length f.round.seats.length⟩
    :: signatureChecks m.signingHash f.round.seatsAddress 0 none signatures

/-- The conditions on a publication, in the order in which they are tested. -/
def publicationChecks (f : PriceFeed) (caller : Address) (m : PriceMessage) (signatures : List Signature)
    (ctx : BlockContext) : List Check :=
  f.proposalChecks caller m ctx ++ f.certificateChecks m signatures

/-- A publication that meets all conditions, signed by `signers`. -/
structure Certified (f : PriceFeed) (caller : Address) (m : PriceMessage) (signatures : List Signature)
    (ctx : BlockContext) (signers : List Address) : Prop where
  version : m.version = 3
  pair : m.pair = f.pair
  price : m.price ≠ 0
  voted : caller = m.votedOracle
  block : m.lastPublicationBlock = f.lastPublicationBlock
  later : f.lastPublicationBlock < ctx.number
  seated : ∃ s ∈ f.round.seats, s.address = caller
  quorum : f.round.seats.length / 2 < signatures.length
  recovered : List.Forall₂ (fun g a => recoverSigner m.signingHash g = .ok a) signatures signers
  ascending : signers.Pairwise (·.toNat < ·.toNat)
  members : ∀ a ∈ signers, ∃ s ∈ f.round.seats, s.address = a

variable {f f' : PriceFeed} {caller : Address} {m : PriceMessage} {signatures : List Signature}
  {ctx : BlockContext}

theorem proposerSeat_eq_error {e : RoundError} :
    f.proposerSeat caller m ctx = .error e ↔ Check.firstFailure (f.proposalChecks caller m ctx) = some e := by
  unfold proposerSeat proposalChecks PriceMessage.currentVersion Round.seatsAddress
  simp only [Check.firstFailure_cons, Check.firstFailure_nil, decide_eq_true_eq]
  by_cases hversion : m.version = 3
  swap
  · simp [hversion]
  by_cases hpair : m.pair = f.pair
  swap
  · simp [hversion, hpair]
  by_cases hprice : m.price = 0
  · simp [hversion, hpair, hprice]
  by_cases hvoted : caller = m.votedOracle
  swap
  · simp [hversion, hpair, hprice, hvoted]
  by_cases hblock : m.lastPublicationBlock = f.lastPublicationBlock
  swap
  · simp [hversion, hpair, hprice, hvoted, hblock]
  by_cases hlater : f.lastPublicationBlock < ctx.number
  swap
  · simp [hversion, hpair, hprice, hvoted, hblock, hlater, Nat.not_lt.1 hlater]
  have hnot : ¬ ctx.number ≤ f.lastPublicationBlock := Nat.not_le.2 hlater
  cases hseat : f.round.seatByAddress? m.votedOracle with
  | none => simp [hversion, hpair, hprice, hvoted, hblock, hlater, hnot, hseat]
  | some seat => simp [hversion, hpair, hprice, hvoted, hblock, hlater, hnot, hseat]

theorem proposerSeat_eq_ok {seat : Seat} :
    f.proposerSeat caller m ctx = .ok seat
      ↔ (m.version = 3 ∧ m.pair = f.pair ∧ m.price ≠ 0 ∧ caller = m.votedOracle ∧
          m.lastPublicationBlock = f.lastPublicationBlock ∧ f.lastPublicationBlock < ctx.number) ∧
        f.round.seatByAddress? caller = some seat := by
  unfold proposerSeat PriceMessage.currentVersion
  constructor
  · intro h
    repeat' split at h
    all_goals cases h
    simp_all
  · rintro ⟨⟨hversion, hpair, hprice, hvoted, hblock, hlater⟩, hseat⟩
    have hnot : ¬ ctx.number ≤ f.lastPublicationBlock := Nat.not_le.2 hlater
    rw [if_neg (not_not.2 hversion), if_neg (not_not.2 hpair), if_neg hprice, if_neg (not_not.2 hvoted),
      if_neg (not_not.2 hblock), if_neg hnot, hseat]

theorem certifiers_eq_error {e : RoundError} :
    f.certifiers m signatures = .error e
      ↔ Check.firstFailure (f.certificateChecks m signatures) = some e := by
  unfold certifiers certificateChecks verifySignatures
  simp only [Check.firstFailure_cons, decide_eq_true_eq]
  by_cases hquorum : f.round.seats.length / 2 < signatures.length
  · rw [if_neg (Nat.not_le.2 hquorum), if_pos hquorum, signersFrom_eq_error]
  · rw [if_pos (Nat.not_lt.1 hquorum), if_neg hquorum]
    simp

theorem certifiers_eq_ok {signers : List Address} :
    f.certifiers m signatures = .ok signers
      ↔ f.round.seats.length / 2 < signatures.length ∧
        List.Forall₂ (fun g a => recoverSigner m.signingHash g = .ok a) signatures signers ∧
        signers.Pairwise (·.toNat < ·.toNat) ∧ ∀ a ∈ signers, f.round.seatsAddress a := by
  unfold certifiers verifySignatures
  by_cases hquorum : f.round.seats.length / 2 < signatures.length
  · rw [if_neg (Nat.not_le.2 hquorum), signersFrom_eq_ok]
    simp [hquorum]
  · rw [if_pos (Nat.not_lt.1 hquorum)]
    simp [hquorum]

theorem publish_eq_error {e : RoundError} :
    f.publish caller m signatures ctx = .error e
      ↔ Check.firstFailure (f.publicationChecks caller m signatures ctx) = some e := by
  unfold publish publicationChecks
  rw [Check.firstFailure_append]
  cases hseat : f.proposerSeat caller m ctx with
  | error err =>
    rw [proposerSeat_eq_error.1 hseat]
    simp
  | ok seat =>
    have hnone : Check.firstFailure (f.proposalChecks caller m ctx) = none := by
      cases hfail : Check.firstFailure (f.proposalChecks caller m ctx) with
      | none => rfl
      | some err =>
        rw [proposerSeat_eq_error.2 hfail] at hseat
        cases hseat
    rw [hnone, Option.none_or, ← certifiers_eq_error]
    cases f.certifiers m signatures <;> simp

/-- What an accepted publication leaves. -/
theorem publish_eq_ok {outcome : PublishOutcome} :
    f.publish caller m signatures ctx = .ok (outcome, f')
      ↔ f.Certified caller m signatures ctx outcome.signers ∧
        ∃ seat, f.round.seatByAddress? caller = some seat ∧ outcome.owner = seat.owner ∧
          outcome.points = seat.points + 1 ∧
          f' = { f with round := f.round.award seat.owner }.setPrice m.price ctx := by
  unfold publish
  constructor
  · intro h
    split at h
    · cases h
    · rename_i seat hseat
      split at h
      · cases h
      · rename_i signers hsigners
        cases h
        obtain ⟨⟨hversion, hpair, hprice, hvoted, hblock, hlater⟩, hfind⟩ := proposerSeat_eq_ok.1 hseat
        obtain ⟨hquorum, hrec, hasc, hmem⟩ := certifiers_eq_ok.1 hsigners
        refine ⟨⟨hversion, hpair, hprice, hvoted, hblock, hlater, ?_, hquorum, hrec, hasc, ?_⟩,
          seat, hfind, rfl, rfl, rfl⟩
        · rw [← Round.seatsAddress_iff, Round.seatsAddress, hfind]
          rfl
        · exact fun a ha => Round.seatsAddress_iff.1 (hmem a ha)
  · rintro ⟨h, seat, hfind, howner, hpoints, rfl⟩
    have hseat := proposerSeat_eq_ok.2 ⟨⟨h.version, h.pair, h.price, h.voted, h.block, h.later⟩, hfind⟩
    have hsigners := certifiers_eq_ok.2 ⟨h.quorum, h.recovered, h.ascending,
      fun a ha => Round.seatsAddress_iff.2 (h.members a ha)⟩
    rw [hseat]
    simp only
    rw [hsigners]
    simp only [← howner, ← hpoints]

/-- An emergency price comes from an account that may publish it, and never goes back before the last
one: where the end of the wait is beyond the last word, only the last block comes after it. -/
theorem emergencyPublish_eq_ok {price : Amount}
    (h : f.emergencyPublish caller price ctx = .ok f') :
    f.emergencyPublishers.contains caller ∧ f' = f.setPrice price ctx ∧
      (f.lastPublicationBlock < Word.limit → f.lastPublicationBlock ≤ ctx.number) := by
  unfold emergencyPublish at h
  split at h
  · cases h
  rename_i hlisted
  split at h
  · cases h
  split at h
  · cases h
  rename_i hwaited
  cases h
  refine ⟨not_not.1 hlisted, rfl, fun hf => ?_⟩
  have hheld : min (f.lastPublicationBlock + f.params.emergencyPeriod) (Word.limit - 1) ≤ ctx.number :=
    Nat.not_lt.1 hwaited
  omega

/-! ### Quorums -/

theorem Certified.nodup {signers : List Address} (h : f.Certified caller m signatures ctx signers) :
    signers.Nodup :=
  h.ascending.imp fun hlt heq => by simp [heq] at hlt

theorem Certified.majority {signers : List Address} (h : f.Certified caller m signatures ctx signers) :
    f.round.seats.length < 2 * signers.length := by
  have := h.quorum
  have := h.recovered.length_eq
  omega

theorem exists_common {members as bs : List Address} (ha : as.Nodup) (hb : bs.Nodup)
    (has : as ⊆ members) (hbs : bs ⊆ members) (hsize : members.length < as.length + bs.length) :
    ∃ a, a ∈ as ∧ a ∈ bs := by
  by_contra hnone
  have hdisjoint : (as ++ bs).Nodup := by
    refine List.nodup_append.2 ⟨ha, hb, ?_⟩
    rintro a haa b hbb rfl
    exact hnone ⟨a, haa, hbb⟩
  have hsub : as ++ bs ⊆ members := List.append_subset.2 ⟨has, hbs⟩
  have hle := hdisjoint.length_le_of_subset hsub
  rw [List.length_append] at hle
  omega

/-- Publishing, in every state that a feed can come to. A publication is accepted exactly if it meets all
conditions; then it puts the price in effect at the call's block and time, gives the caller's seat a point
and changes nothing else. It is signed by different members, more than half of them, so another one that is
accepted for the same row of addresses has a signer in common with it. A refusal names the first condition
that fails and changes nothing. -/
theorem publish_spec {L : Type} [CollateralLedger L] {f : PriceFeed} (h : Reachable L f) (caller : Address)
    (m : PriceMessage) (signatures : List Signature) (ctx : BlockContext) :
    ((∃ outcome f', f.publish caller m signatures ctx = .ok (outcome, f'))
      ↔ ∃ signers, f.Certified caller m signatures ctx signers) ∧
    (∀ outcome f', f.publish caller m signatures ctx = .ok (outcome, f') →
      (∃ before seat after, f.round.seats = before ++ seat :: after ∧ seat.address = caller ∧
        (∀ s ∈ before, s.address ≠ caller) ∧ outcome.owner = seat.owner ∧
        outcome.points = seat.points + 1 ∧
        f' = { f with
          currentPrice := m.price
          lastPublicationBlock := ctx.number
          publicationTimestamp := ctx.timestamp
          round := { f.round with
            seats := before ++ { seat with points := seat.points + 1 } :: after } }) ∧
      f.Certified caller m signatures ctx outcome.signers ∧ outcome.signers.Nodup ∧
      f.round.seats.length < 2 * outcome.signers.length ∧
      ∀ (g g' : PriceFeed) caller' m' signatures' ctx' outcome',
        g.round.seats.map (·.address) = f.round.seats.map (·.address) →
        g.publish caller' m' signatures' ctx' = .ok (outcome', g') →
        ∃ a, a ∈ outcome.signers ∧ a ∈ outcome'.signers) ∧
    ∀ e, f.publish caller m signatures ctx = .error e →
      Check.firstFailure (f.publicationChecks caller m signatures ctx) = some e ∧
      f.after (.publish caller m signatures ctx : Call L) = f := by
  refine ⟨⟨?_, ?_⟩, ?_, ?_⟩
  · rintro ⟨outcome, f', hok⟩
    exact ⟨outcome.signers, (publish_eq_ok.1 hok).1⟩
  · rintro ⟨signers, hcert⟩
    obtain ⟨s, hs, hadr⟩ := hcert.seated
    have hseated : f.round.seatsAddress caller := Round.seatsAddress_iff.2 ⟨s, hs, hadr⟩
    obtain ⟨seat, hseat⟩ := Option.isSome_iff_exists.1 hseated
    exact ⟨⟨seat.owner, seat.points + 1, signers⟩, _,
      publish_eq_ok.2 ⟨hcert, seat, hseat, rfl, rfl, rfl⟩⟩
  · intro outcome f' hok
    obtain ⟨hcert, seat, hseat, howner, hpoints, rfl⟩ := publish_eq_ok.1 hok
    refine ⟨?_, hcert, hcert.nodup, hcert.majority, ?_⟩
    · obtain ⟨before, after, hseats, hadr, hfirst, haward⟩ := Round.award_seatByAddress? h.distinct hseat
      exact ⟨before, seat, after, hseats, hadr, hfirst, howner, hpoints, by rw [haward]; rfl⟩
    · intro g g' caller' m' signatures' ctx' outcome' hrow hok'
      have hcert' := (publish_eq_ok.1 hok').1
      have hsub : outcome.signers ⊆ f.round.seats.map (·.address) := fun a ha =>
        List.mem_map.2 (hcert.members a ha)
      have hsub' : outcome'.signers ⊆ f.round.seats.map (·.address) := fun a ha =>
        hrow ▸ List.mem_map.2 (hcert'.members a ha)
      refine exists_common hcert.nodup hcert'.nodup hsub hsub' ?_
      have hmaj := hcert.majority
      have hmaj' := hcert'.majority
      have hlen := congrArg List.length hrow
      simp only [List.length_map] at hlen ⊢
      omega
  · intro e he
    refine ⟨publish_eq_error.1 he, ?_⟩
    show f.orElse ((f.publish caller m signatures ctx).map (·.2)) = f
    rw [he]
    rfl

end PriceFeed

/-! ### A round of three -/

namespace ThreeSeats

def pair : CoinPair := ⟨[66, 84, 67, 85, 83, 68] ++ List.replicate 26 0, rfl⟩

/-- The addresses that three oracles report from, in their order. -/
def first : Address := .ofNat 0x1a642f0e3c3af545e7acbd38b07251b3990914f1

def second : Address := .ofNat 0x3325a78425f17a7e487eb5666b2bfd93abb06c70

def third : Address := .ofNat 0x5050a4f4b3f9338c3472dcc01a87c76a144b3c9c

def proposal : PriceMessage := ⟨3, pair, 7, first, 1⟩

/-- What each of them signs for the proposal. -/
def firstSignature : Signature :=
  ⟨27, .ofNat 0x11122dc6379f41244809a904466e420e746be0e4c26b171fad9fe780586b0357,
    .ofNat 0x1281105a1d70713b758ec7f6bdf3cb7d38f5d35d57cffbce9ca7a35cd82febb8⟩

def secondSignature : Signature :=
  ⟨28, .ofNat 0x7cf457b2ff7db65735570d58208aa88d5d36b198f48bef23af04de797dc7fb1c,
    .ofNat 0x35ee5d5f447ee4a1a96dff1a8cd47b788629a70df0c7c9595331cf1580eee38a⟩

def thirdSignature : Signature :=
  ⟨27, .ofNat 0x368159ee841c790743c2920df024f1e7e3c39120a007eeb06ee3628b7d5d327c,
    .ofNat 0x3f790a736cf62fb1cdf599350b309026645e245deb66302893399537b888a8bd⟩

theorem signingHash_proposal :
    proposal.signingHash = .ofNat 0x4b9433f6a1d50d1ca3c24a02ab112eed6c26dfaa4edc8c5b46f5912646ca68e8 := by
  rw [PriceMessage.signingHash, signedMessageHash, keccak256_eq]
  decide +kernel

theorem recover_first : recoverSigner proposal.signingHash firstSignature = .ok first := by
  rw [signingHash_proposal]
  simp only [recoverSigner, accountOfKey, keccak256_eq]
  decide +kernel

theorem recover_second : recoverSigner proposal.signingHash secondSignature = .ok second := by
  rw [signingHash_proposal]
  simp only [recoverSigner, accountOfKey, keccak256_eq]
  decide +kernel

theorem recover_third : recoverSigner proposal.signingHash thirdSignature = .ok third := by
  rw [signingHash_proposal]
  simp only [recoverSigner, accountOfKey, keccak256_eq]
  decide +kernel

/-- A round of the three takes the proposal with the signatures of any two of them. -/
theorem publish_proposal {f : PriceFeed} (ctx : BlockContext) {signatures : List Signature}
    {signers : List Address}
    (hseats : f.round.seats = [⟨.ofNat 2, first, 0, false⟩, ⟨.ofNat 3, third, 0, false⟩,
      ⟨.ofNat 4, second, 0, false⟩])
    (hpair : f.pair = pair) (hblock : f.lastPublicationBlock = 1)
    (hrec : List.Forall₂ (fun g a => recoverSigner proposal.signingHash g = .ok a) signatures signers)
    (htwo : 2 ≤ signatures.length) (hasc : signers.Pairwise (·.toNat < ·.toNat))
    (hseated : ∀ a ∈ signers, a ∈ [first, third, second]) (hlater : 1 < ctx.number) :
    ∃ f', f.publish first proposal signatures ctx = .ok (⟨.ofNat 2, 1, signers⟩, f') := by
  refine ⟨_, PriceFeed.publish_eq_ok.2
    ⟨⟨rfl, hpair.symm, by decide, rfl, hblock.symm, hblock ▸ hlater, ?_, ?_, hrec, hasc, ?_⟩,
      ⟨.ofNat 2, first, 0, false⟩, ?_, rfl, rfl, rfl⟩⟩
  · rw [hseats]
    exact ⟨_, List.mem_cons_self .., rfl⟩
  · rw [hseats]
    exact htwo
  · rw [hseats]
    intro a ha
    simpa [eq_comm] using hseated a ha
  · rw [Round.seatByAddress?, hseats]
    rfl

/-- The registry of the three, by their stakes. -/
def registry : Registry :=
  ⟨[⟨.ofNat 2, first, "first", 30, .empty, 0⟩, ⟨.ofNat 3, third, "third", 20, .empty, 1⟩,
    ⟨.ofNat 4, second, "second", 10, .empty, 2⟩], 3⟩

theorem registry_reachable : registry.Reachable := by
  have hfirst : Registry.Reachable ⟨[⟨.ofNat 2, first, "first", 30, .empty, 0⟩], 1⟩ :=
    @Registry.Reachable.call _ _ (.register (.ofNat 2) first "first" 30 none) .empty (by decide +kernel)
  have hthird : Registry.Reachable ⟨[⟨.ofNat 2, first, "first", 30, .empty, 0⟩,
      ⟨.ofNat 3, third, "third", 20, .empty, 1⟩], 2⟩ :=
    @Registry.Reachable.call _ _ (.register (.ofNat 3) third "third" 20 none) hfirst (by decide +kernel)
  exact @Registry.Reachable.call _ _ (.register (.ofNat 4) second "second" 10 none) hthird
    (by decide +kernel)

/-- The three subscribe to a new feed one after the other, and have a seat at once. -/
def joined : PriceFeed :=
  (((⟨pair, {}, .initial, .empty, .empty, 100000000, 1, 10, .empty, .empty⟩ : PriceFeed).after
    (.subscribe (.ofNat 2) registry : PriceFeed.Call Ledger)).after
      (.subscribe (.ofNat 3) registry : PriceFeed.Call Ledger)).after
        (.subscribe (.ofNat 4) registry : PriceFeed.Call Ledger)

theorem joined_reachable : PriceFeed.Reachable Ledger joined := by
  have hstart := @PriceFeed.Reachable.start Ledger _ pair {} ⟨1, 10⟩ _ rfl
  exact .call (.call (.call hstart registry_reachable) registry_reachable) registry_reachable

end ThreeSeats

open ThreeSeats in
/-- In a round of three the price of the first is accepted with the signatures of the first two, and as well
with those of the others. Without any it is refused. -/
theorem PriceFeed.publish_spec_of_three :
    Reachable Ledger joined ∧
      (∃ f', joined.publish first proposal [firstSignature, secondSignature] ⟨8, 80⟩
          = .ok (⟨.ofNat 2, 1, [first, second]⟩, f') ∧
        f'.currentPrice = 7 ∧ f'.lastPublicationBlock = 8 ∧ f'.subscribed = joined.subscribed) ∧
      (∃ f', joined.publish first proposal [secondSignature, thirdSignature] ⟨8, 80⟩
          = .ok (⟨.ofNat 2, 1, [second, third]⟩, f')) ∧
      (∃ a, a ∈ [first, second] ∧ a ∈ [second, third]) ∧
      joined.publish first proposal [] ⟨8, 80⟩ = .error (.notEnoughSignatures 0 3) ∧
      joined.after (.publish first proposal [] ⟨8, 80⟩ : Call Ledger) = joined := by
  have hseats : joined.round.seats = [⟨.ofNat 2, first, 0, false⟩, ⟨.ofNat 3, third, 0, false⟩,
      ⟨.ofNat 4, second, 0, false⟩] := by decide +kernel
  obtain ⟨f', hf'⟩ := publish_proposal ⟨8, 80⟩ hseats (by decide +kernel) (by decide +kernel)
    (.cons recover_first (.cons recover_second .nil)) (by decide) (by decide) (by decide) (by decide)
  obtain ⟨g', hg'⟩ := publish_proposal ⟨8, 80⟩ hseats (by decide +kernel) (by decide +kernel)
    (.cons recover_second (.cons recover_third .nil)) (by decide) (by decide) (by decide) (by decide)
  have herror : joined.publish first proposal [] ⟨8, 80⟩ = .error (.notEnoughSignatures 0 3) := by
    decide +kernel
  obtain ⟨-, haccepted, -⟩ :=
    publish_spec joined_reachable first proposal [firstSignature, secondSignature] ⟨8, 80⟩
  obtain ⟨⟨before, seat, after, -, -, -, -, -, heq⟩, -, -, -, hcommon⟩ := haccepted _ f' hf'
  obtain ⟨-, -, hrefused⟩ := publish_spec joined_reachable first proposal [] ⟨8, 80⟩
  exact ⟨joined_reachable, ⟨f', hf', heq ▸ rfl, heq ▸ rfl, heq ▸ rfl⟩, ⟨g', hg'⟩,
    hcommon joined g' _ _ _ _ _ rfl hg', herror, (hrefused _ herror).2⟩

end PriceOracle
