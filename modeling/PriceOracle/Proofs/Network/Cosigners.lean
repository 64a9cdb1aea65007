import PriceOracle.Proofs.Feed.Publication
import PriceOracle.Proofs.Network.EventLog
/-! Who signs what is published. The signatures of a publication come from more than half the seats, each from
another one. Its proposer has a seat, but nothing asks whether one of the signatures is its own: it is among
the signers exactly when it signed. In a round of two seats a majority cannot do without it; in one of three
the other two can. -/
namespace PriceOracle

namespace PriceFeed

variable {f : PriceFeed} {caller : Address} {m : PriceMessage} {signatures : List Signature}
  {ctx : BlockContext} {signers : List Address}

/-- The signers are the accounts that the signatures recover to. -/
theorem Certified.mem_signers_iff (h : f.Certified caller m signatures ctx signers) (a : Address) :
    a ∈ signers ↔ ∃ g ∈ signatures, recoverSigner m.signingHash g = .ok a := by
  have hrec := h.recovered
  clear h
  induction hrec with
  | nil => simp
  | @cons g b signatures signers hg _ ih =>
    rw [List.mem_cons, List.exists_mem_cons_iff, hg, Except.ok.injEq, @eq_comm _ a b]
    exact or_congr_right ih

theorem Certified.seat_signed (h : f.Certified caller m signatures ctx signers)
    (hall : f.round.seats.length ≤ signers.length) {s : Seat} (hs : s ∈ f.round.seats) :
    s.address ∈ signers := by
  by_contra hnot
  have hnodup : (s.address :: signers).Nodup := List.nodup_cons.2 ⟨hnot, h.nodup⟩
  have hsub : s.address :: signers ⊆ f.round.seats.map (·.address) := by
    intro a ha
    rcases List.mem_cons.1 ha with rfl | ha
    · exact List.mem_map_of_mem hs
    · exact List.mem_map.2 (h.members a ha)
  have hle := hnodup.length_le_of_subset hsub
  rw [List.length_cons, List.length_map] at hle
  omega

end PriceFeed

namespace Network

variable {n : Network}

theorem publishPrice_eq_ok {caller : Address} {m : PriceMessage} {signatures : List Signature}
    {ctx : BlockContext} {outcome : PublishOutcome} :
    (n.publishPrice caller m signatures ctx).result = .ok outcome ↔
      ∃ f f', n.feeds.get? m.pair = some f ∧ f.publish caller m signatures ctx = .ok (outcome, f') := by
  unfold publishPrice feed
  cases n.feeds.get? m.pair with
  | none => simp [Attempt.fail]
  | some f =>
    cases hp : f.publish caller m signatures ctx with
    | error e => simp [Attempt.fail, hp]
    | ok x =>
      obtain ⟨o, f'⟩ := x
      simp [Attempt.ok, hp]

/-- Whoever publishes a price has a seat and is the one that the message names, and the signers are different
oracles with seats, at least half of them and one more. The publisher is one of them exactly if one of the
signatures recovers to it, which is so in every round of at most two seats and whenever all seats sign. -/
theorem proposer_signed_iff {caller : Address} {m : PriceMessage} {signatures : List Signature}
    {ctx : BlockContext} {outcome : PublishOutcome}
    (h : (n.publishPrice caller m signatures ctx).result = .ok outcome) :
    ∃ f, n.feeds.get? m.pair = some f ∧
      caller = m.votedOracle ∧ (∃ s ∈ f.round.seats, s.address = caller) ∧
      outcome.signers.Nodup ∧ (∀ a ∈ outcome.signers, ∃ s ∈ f.round.seats, s.address = a) ∧
      f.round.seats.length / 2 + 1 ≤ outcome.signers.length ∧
      (caller ∈ outcome.signers ↔ ∃ g ∈ signatures, recoverSigner m.signingHash g = .ok caller) ∧
      (f.round.seats.length ≤ 2 ∨ outcome.signers.length = f.round.seats.length →
        caller ∈ outcome.signers) := by
  obtain ⟨f, f', hf, hp⟩ := publishPrice_eq_ok.1 h
  have hcert := (PriceFeed.publish_eq_ok.1 hp).1
  have hmajority := hcert.majority
  refine ⟨f, hf, hcert.voted, hcert.seated, hcert.nodup, hcert.members, by omega,
    hcert.mem_signers_iff caller, fun hsmall => ?_⟩
  obtain ⟨s, hs, hadr⟩ := hcert.seated
  have hall : f.round.seats.length ≤ outcome.signers.length := by omega
  exact hadr ▸ hcert.seat_signed hall hs

end Network

/-! ### A round of three -/

namespace ThreeSeats

open Network

/-- A pair is tracked, and the oracles join its round. -/
def steps : List Step := [
  .command (.act (.ofNat 1) (.executeChange (.registerPair pair {}))) ⟨1, 10⟩,
  .command (.act (.ofNat 2) (.registerOracle first "first")) ⟨2, 20⟩,
  .command (.act (.ofNat 3) (.registerOracle third "third")) ⟨3, 30⟩,
  .command (.act (.ofNat 4) (.registerOracle second "second")) ⟨4, 40⟩,
  .command (.act (.ofNat 2) (.subscribe pair)) ⟨5, 50⟩,
  .command (.act (.ofNat 3) (.subscribe pair)) ⟨6, 60⟩,
  .command (.act (.ofNat 4) (.subscribe pair)) ⟨7, 70⟩]

/-- The round that they joined takes the proposal with the signatures of any two of them. -/
theorem publishPrice_eq_ok {n : Network} (hn : Network.new { governor := .ofNat 1 } .empty = .ok n)
    {signatures : List Signature} {signers : List Address}
    (hrec : List.Forall₂ (fun g a => recoverSigner proposal.signingHash g = .ok a) signatures signers)
    (htwo : 2 ≤ signatures.length) (hasc : signers.Pairwise (·.toNat < ·.toNat))
    (hseated : ∀ a ∈ signers, a ∈ [first, third, second]) :
    ((n.run steps).network.publishPrice first proposal signatures ⟨8, 80⟩).result
      = .ok ⟨.ofNat 2, 1, signers⟩ := by
  have hfeed : ((n.run steps).network.feeds.get? pair).map (fun f =>
      (f.round.seats, f.pair, f.lastPublicationBlock)) = some ([⟨.ofNat 2, first, 0, false⟩,
        ⟨.ofNat 3, third, 0, false⟩, ⟨.ofNat 4, second, 0, false⟩], pair, 1) := by
    cases (new_of_governor rfl .empty).symm.trans hn
    simp only [stakingAccount_eq, vaultAccount_eq]
    decide +kernel
  obtain ⟨f, hf, hround⟩ := Option.map_eq_some_iff.1 hfeed
  simp only [Prod.mk.injEq] at hround
  obtain ⟨hseats, hpair, hblock⟩ := hround
  obtain ⟨f', hp⟩ := publish_proposal ⟨8, 80⟩ hseats hpair hblock hrec htwo hasc hseated (by decide)
  exact Network.publishPrice_eq_ok.2 ⟨f, f', hf, hp⟩

end ThreeSeats

namespace Network

open ThreeSeats in
/-- The first two sign what the first one publishes. -/
theorem proposer_signed_iff_of_two :
    ∃ n, Network.new { governor := .ofNat 1 } .empty = .ok n ∧
      ((n.run steps).network.publishPrice first proposal [firstSignature, secondSignature] ⟨8, 80⟩).result
        = .ok ⟨.ofNat 2, 1, [first, second]⟩ ∧
      ∃ g ∈ [firstSignature, secondSignature], recoverSigner proposal.signingHash g = .ok first := by
  refine ⟨_, new_of_governor rfl .empty, ?_⟩
  have hpublished := ThreeSeats.publishPrice_eq_ok (new_of_governor rfl .empty)
    (.cons recover_first (.cons recover_second .nil)) (by decide) (by decide) (by decide)
  obtain ⟨f, -, -, -, -, -, -, hsigned, -⟩ := proposer_signed_iff hpublished
  exact ⟨hpublished, hsigned.1 (List.mem_cons_self ..)⟩

open ThreeSeats in
/-- The first one publishes what only the other two signed. -/
theorem published_without_proposer :
    ∃ n, Network.new { governor := .ofNat 1 } .empty = .ok n ∧
      ((n.run steps).network.publishPrice first proposal [secondSignature, thirdSignature] ⟨8, 80⟩).result
        = .ok ⟨.ofNat 2, 1, [second, third]⟩ ∧ first ∉ [second, third] := by
  refine ⟨_, new_of_governor rfl .empty, ?_, by decide⟩
  exact ThreeSeats.publishPrice_eq_ok (new_of_governor rfl .empty)
    (.cons recover_second (.cons recover_third .nil)) (by decide) (by decide) (by decide)

end Network

end PriceOracle
