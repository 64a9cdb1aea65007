import PriceOracle.Proofs.Crypto.Keccak
import PriceOracle.Proofs.Feed.Publication
import PriceOracle.Proofs.Feed.Rewards
import PriceOracle.Proofs.Round.Shares
import PriceOracle.Proofs.Staking.Supply
/-! What a switch pays. On a ledger whose balances sum to the supply, and with a fee account of its own, every
check that guards a payment is passed: what is shared out is covered by the fees, and an owner's balance and
the fees together are at most the supply. So a switch that is due and whose next lock fits pays every seat
its part, and one that is refused has paid nothing. -/
namespace PriceOracle

/-! ### What each owner is paid -/

theorem Payout.paidTo_eq_zero {owner : Address} {payouts : List Payout} (h : ∀ p ∈ payouts, p.owner ≠ owner) :
    paidTo owner payouts = 0 := by
  have hnone : payouts.filter (·.owner = owner) = [] := by
    rw [List.filter_eq_nil_iff]
    intro p hp
    simpa using h p hp
  rw [paidTo, hnone]
  rfl

namespace Round

variable {r : Round} {fees : Amount}

theorem owner_of_mem_shares {p : Payout} (hp : p ∈ r.shares fees) : ∃ s ∈ r.earners, s.owner = p.owner := by
  obtain ⟨s, hs, rfl⟩ := List.mem_map.1 hp
  exact ⟨s, List.mem_of_mem_filter hs, rfl⟩

/-- Since no owner has two seats, the shares pay it the part of its one seat. -/
theorem Distinct.paidTo_shares (h : r.Distinct) {s : Seat} (hs : s ∈ r.earners) :
    Payout.paidTo s.owner (r.shares fees) = r.part fees s := by
  have hnodup : (r.earners.map (·.owner)).Nodup := h.sublist (List.filter_sublist.map _)
  unfold shares
  generalize r.earners = seats at hs hnodup
  induction seats with
  | nil => cases hs
  | cons x seats ih =>
    rw [List.map_cons, List.nodup_cons] at hnodup
    obtain ⟨hx, hrest⟩ := hnodup
    rw [List.filter_cons]
    rcases List.mem_cons.1 hs with rfl | hs
    · -- its own seat comes first, and those behind it are others'
      have hothers : Payout.paidTo s.owner ((seats.filter (r.part fees · ≠ 0)).map fun s =>
          ⟨s.owner, s.address, s.points, r.part fees s⟩) = 0 := by
        refine Payout.paidTo_eq_zero fun p hp => ?_
        obtain ⟨y, hy, rfl⟩ := List.mem_map.1 hp
        rintro heq
        exact hx (heq ▸ List.mem_map_of_mem (List.mem_of_mem_filter hy))
      split
      · rw [List.map_cons, Payout.paidTo_cons, if_pos rfl, hothers, Nat.add_zero]
      · rename_i hnone
        rw [hothers]
        rw [decide_eq_true_eq, not_not] at hnone
        exact hnone.symm
    · have hne : s.owner ≠ x.owner := by
        intro heq
        exact hx (heq ▸ List.mem_map_of_mem hs)
      split
      · rw [List.map_cons, Payout.paidTo_cons, if_neg hne, Nat.zero_add]
        exact ih hs hrest
      · exact ih hs hrest

end Round

/-! ### Paying -/

namespace Ledger

variable {l : Ledger} {fees : Address}

theorem Balanced.payable_eq_ok (hl : l.Balanced) {payouts : List Payout} (hown : ∀ p ∈ payouts, p.owner ≠ fees)
    (total : Amount) (hcovered : total + (payouts.map (·.amount)).sum ≤ l.balanceOf fees) :
    (payouts.foldlM (fun total p =>
      match Amount.add? (CollateralLedger.balanceOf l p.owner) p.amount, Amount.add? total p.amount with
      | some _, some total => .ok total
      | _, _ => .error .overflow) total : Except RoundError Amount)
        = .ok (total + (payouts.map (·.amount)).sum) := by
  induction payouts generalizing total with
  | nil => rfl
  | cons p payouts ih =>
    rw [List.map_cons, List.sum_cons] at hcovered ⊢
    have hboth := hl.add_le (hown p (List.mem_cons_self ..))
    have hsupply := hl.2
    have howner : Amount.add? (CollateralLedger.balanceOf l p.owner) p.amount
        = some (l.balanceOf p.owner + p.amount) := Amount.add?_eq_some.2 ⟨rfl, by lia⟩
    have htotal : Amount.add? total p.amount = some (total + p.amount) :=
      Amount.add?_eq_some.2 ⟨rfl, by lia⟩
    rw [List.foldlM_cons, howner, htotal]
    show payouts.foldlM _ (total + p.amount) = _
    rw [ih (fun q hq => hown q (List.mem_cons_of_mem _ hq)) _ (by lia), Nat.add_assoc]

theorem transferAll_cons {m : Ledger} {p : Payout} (hm : l.transfer fees p.owner p.amount = .ok m)
    (done payouts : List Payout) :
    transferAll fees l done (p :: payouts) = transferAll fees m (p :: done) payouts := by
  rw [transferAll]
  simp only [CollateralLedger.transfer, hm]

structure Paid (fees : Address) (payouts : List Payout) (l l' : Ledger) : Prop where
  fees_eq : l'.balanceOf fees + (payouts.map (·.amount)).sum = l.balanceOf fees
  owner_eq : ∀ a, a ≠ fees → l'.balanceOf a = l.balanceOf a + Payout.paidTo a payouts
  allowances_eq : l'.allowances = l.allowances
  supply_eq : l'.totalSupply = l.totalSupply

/-- Payouts that the fee account covers all go through. -/
theorem Balanced.transferAll_eq_ok (payouts : List Payout) : ∀ {l : Ledger} (done : List Payout), l.Balanced →
    (∀ p ∈ payouts, p.owner ≠ fees) → (payouts.map (·.amount)).sum ≤ l.balanceOf fees →
    ∃ l', transferAll fees l done payouts = .ok l' () ∧ Paid fees payouts l l' := by
  induction payouts with
  | nil =>
    intro l done _ _ _
    exact ⟨l, rfl, rfl, fun _ _ => rfl, rfl, rfl⟩
  | cons p payouts ih =>
    intro l done hl hown hcovered
    rw [List.map_cons, List.sum_cons] at hcovered
    have hne : p.owner ≠ fees := hown p (List.mem_cons_self ..)
    obtain ⟨m, hm⟩ : ∃ m, l.transfer fees p.owner p.amount = .ok m := hl.transfer_ok (Ne.symm hne) (by lia)
    have hmoved := balanceOf_transfer hm
    have hfees : m.balanceOf fees + p.amount = l.balanceOf fees := by
      simpa [Ne.symm hne] using hmoved fees
    obtain ⟨l', hl', hpaid⟩ := ih (p :: done) (hl.transfer hm)
      (fun q hq => hown q (List.mem_cons_of_mem _ hq)) (by lia)
    refine ⟨l', by rw [transferAll_cons hm, hl'], ?_, ?_, ?_, ?_⟩
    · have hrest := hpaid.fees_eq
      rw [List.map_cons, List.sum_cons]
      lia
    · intro a ha
      have hstep := hmoved a
      rw [if_neg ha] at hstep
      rw [hpaid.owner_eq a ha, Payout.paidTo_cons]
      lia
    · rw [hpaid.allowances_eq, allowance_transfer hm]
    · rw [hpaid.supply_eq, totalSupply_transfer hm]

theorem Balanced.payAll_eq_ok (hl : l.Balanced) {payouts : List Payout} (hown : ∀ p ∈ payouts, p.owner ≠ fees)
    (hcovered : (payouts.map (·.amount)).sum ≤ l.balanceOf fees) :
    ∃ l', payAll fees l payouts = .ok l' (payouts.map (·.amount)).sum ∧ Paid fees payouts l l' := by
  obtain ⟨l', hl', hpaid⟩ := hl.transferAll_eq_ok payouts [] hown hcovered
  have hpayable : payable l payouts = .ok (payouts.map (·.amount)).sum := by
    have h := hl.payable_eq_ok hown 0 (by lia)
    rwa [Nat.zero_add] at h
  refine ⟨l', ?_, hpaid⟩
  rw [payAll, hpayable]
  simp only [hl']
  rfl

end Ledger

/-! ### The switch -/

namespace PriceFeed

variable {L : Type} [CollateralLedger L] {f : PriceFeed} {l : Ledger}

/-- What a switch that is due does: its outcome, and the ledger it leaves. -/
theorem switchRound_eq_ok (hl : l.Balanced) (hown : ∀ s ∈ f.round.seats, s.owner ≠ f.pair.feeAccount)
    (registry : Registry) {ctx : BlockContext} (hdue : f.round.lockUntil < ctx.timestamp)
    (hfits : ctx.timestamp + f.params.lockPeriod < Word.limit) :
    ∃ outcome l', f.switchRound registry l ctx =
        .ok (f.nextRound (f.selection registry) (ctx.timestamp + f.params.lockPeriod), l') outcome ∧
      outcome.payouts = f.round.shares (f.availableFees l) ∧
      outcome.distributed = (outcome.payouts.map (·.amount)).sum ∧
      payAll f.pair.feeAccount l outcome.payouts = .ok l' outcome.distributed ∧
      Ledger.Paid f.pair.feeAccount outcome.payouts l l' := by
  have hpayouts : f.round.payouts (f.availableFees l) = .ok (f.round.shares (f.availableFees l)) :=
    f.round.payouts_eq_shares (hl.bounded f.pair.feeAccount)
  have howners : ∀ p ∈ f.round.shares (f.availableFees l), p.owner ≠ f.pair.feeAccount := by
    intro p hp
    obtain ⟨s, hs, heq⟩ := Round.owner_of_mem_shares hp
    exact heq ▸ hown s (Round.mem_earners.1 hs).1
  obtain ⟨l', hl', hpaid⟩ := hl.payAll_eq_ok howners (f.round.sum_shares_le _)
  have hlock : Word.add? ctx.timestamp f.params.lockPeriod = some (ctx.timestamp + f.params.lockPeriod) :=
    if_pos hfits
  have hswitch : f.switchRound registry l ctx =
      .ok (f.nextRound (f.selection registry) (ctx.timestamp + f.params.lockPeriod), l') {
        previousRound := f.round.number
        round := f.round.number + 1
        lockUntil := ctx.timestamp + f.params.lockPeriod
        selected := f.selection registry
        payouts := f.round.shares (f.availableFees l)
        distributed := ((f.round.shares (f.availableFees l)).map (·.amount)).sum
        belowMinimum := (f.selection registry).length < f.params.minOracles } := by
    rw [switchRound, if_neg (Nat.not_le.2 hdue), hlock]
    simp only [hpayouts, hl', Attempt.ok]
    rfl
  exact ⟨_, l', hswitch, rfl, rfl, hl', hpaid⟩

/-- A switch that is refused on such a ledger was not due, or its next lock would not fit. Either way it has
paid nothing. -/
theorem switchRound_state_of_error (hl : l.Balanced) (hown : ∀ s ∈ f.round.seats, s.owner ≠ f.pair.feeAccount)
    (registry : Registry) {ctx : BlockContext} {e : RoundError}
    (h : (f.switchRound registry l ctx).result = .error e) : (f.switchRound registry l ctx).state = (f, l) := by
  by_cases hdue : f.round.lockUntil < ctx.timestamp
  · by_cases hfits : ctx.timestamp + f.params.lockPeriod < Word.limit
    · obtain ⟨outcome, l', hswitch, -⟩ := switchRound_eq_ok hl hown registry hdue hfits
      rw [hswitch] at h
      cases h
    · have hlock : Word.add? ctx.timestamp f.params.lockPeriod = none := if_neg hfits
      rw [switchRound, if_neg (Nat.not_le.2 hdue), hlock]
      rfl
  · rw [switchRound, if_pos (Nat.not_lt.1 hdue)]
    rfl

/-- On a ledger whose balances sum to the supply, a feed none of whose seats is owned by its fee account shares
the fees out fairly. A switch that is due and whose next lock fits succeeds. It pays every seat with points its
part of the fees by points, rounded down, which is what it reports; it reports the sum, which is at most the
fees and is what the fee account loses; it changes no other balance, no allowance and not the supply. Without
points it moves nothing; with them it leaves less than one unit for each seat that has some. A switch that is
refused changes neither the feed nor the ledger. -/
theorem switchRound_shares_fees (h : Reachable L f) (hown : ∀ s ∈ f.round.seats, s.owner ≠ f.pair.feeAccount)
    (hl : l.Balanced) (registry : Registry) (ctx : BlockContext) :
    (f.round.lockUntil < ctx.timestamp → ctx.timestamp + f.params.lockPeriod < Word.limit →
      ∃ outcome l', f.switchRound registry l ctx =
          .ok (f.nextRound (f.selection registry) (ctx.timestamp + f.params.lockPeriod), l') outcome ∧
        (∀ s ∈ f.round.seats, 0 < s.points →
          l'.balanceOf s.owner = l.balanceOf s.owner + s.points * f.availableFees l / f.round.totalPoints) ∧
        outcome.payouts = f.round.shares (f.availableFees l) ∧
        outcome.distributed = (outcome.payouts.map (·.amount)).sum ∧
        outcome.distributed ≤ f.availableFees l ∧
        l'.balanceOf f.pair.feeAccount + outcome.distributed = f.availableFees l ∧
        (∀ a, a ≠ f.pair.feeAccount → (∀ s ∈ f.round.seats, 0 < s.points → s.owner ≠ a) →
          l'.balanceOf a = l.balanceOf a) ∧
        (f.round.totalPoints = 0 → l' = l ∧ outcome.payouts = [] ∧ outcome.distributed = 0) ∧
        (f.round.totalPoints ≠ 0 → f.availableFees l - outcome.distributed < f.round.earners.length) ∧
        l'.allowances = l.allowances ∧ l'.totalSupply = l.totalSupply) ∧
    ∀ e, (f.switchRound registry l ctx).result = .error e →
      (f.switchRound registry l ctx).state = (f, l) := by
  refine ⟨fun hdue hfits => ?_, fun e => switchRound_state_of_error hl hown registry⟩
  obtain ⟨outcome, l', hswitch, hshares, hsum, hpay, hpaid⟩ := switchRound_eq_ok hl hown registry hdue hfits
  have hle : outcome.distributed ≤ f.availableFees l := by
    rw [hsum, hshares]
    exact f.round.sum_shares_le _
  refine ⟨outcome, l', hswitch, ?_, hshares, hsum, hle, ?_, ?_, ?_, ?_, hpaid.allowances_eq, hpaid.supply_eq⟩
  · intro s hs hpoints
    have hearner : s ∈ f.round.earners := Round.mem_earners.2 ⟨hs, hpoints⟩
    rw [hpaid.owner_eq s.owner (hown s hs), hshares, h.distinct.paidTo_shares hearner]
    rfl
  · rw [hsum]
    exact hpaid.fees_eq
  · intro a ha hothers
    rw [hpaid.owner_eq a ha, hshares, Payout.paidTo_eq_zero, Nat.add_zero]
    intro p hp
    obtain ⟨s, hs, heq⟩ := Round.owner_of_mem_shares hp
    obtain ⟨hseat, hpoints⟩ := Round.mem_earners.1 hs
    exact heq ▸ hothers s hseat hpoints
  · intro hzero
    have hnone : outcome.payouts = [] := by
      rw [hshares, Round.shares, Round.earners_eq_nil hzero]
      rfl
    rw [hnone] at hpay hsum
    -- paying nothing is the ledger as it is
    have hstate := congrArg Attempt.state hpay
    exact ⟨hstate.symm, hnone, hsum⟩
  · intro hpoints
    have hlt := Round.lt_sum_shares_add hpoints (f.availableFees l)
    rw [← hshares, ← hsum] at hlt
    lia

theorem Reachable.publish (h : Reachable L f) {f' : PriceFeed} {caller : Address} {m : PriceMessage}
    {signatures : List Signature} {ctx : BlockContext} {outcome : PublishOutcome}
    (hp : f.publish caller m signatures ctx = .ok (outcome, f')) : Reachable L f' := by
  have hafter : f.after (.publish caller m signatures ctx : Call L) = f' := by
    rw [after, hp]
    rfl
  rw [← hafter]
  exact .call h trivial

/-! ### A round of two -/

namespace TwoSeats

def first : Address := .ofNat 0x1a642f0e3c3af545e7acbd38b07251b3990914f1

def second : Address := .ofNat 0x5050a4f4b3f9338c3472dcc01a87c76a144b3c9c

/-- The two owners and the addresses that they report from. -/
def registry : Registry :=
  ⟨[⟨.ofNat 1, first, "first", 100, .empty, 0⟩, ⟨.ofNat 2, second, "second", 90, .empty, 1⟩], 2⟩

/-- A price that the first proposes alone, and its signature. -/
def proposal : PriceMessage := ⟨3, default, 7, first, 5⟩

def signature : Signature :=
  ⟨28, .ofNat 24635372262940455039032822425918543762193133634949902133672597312361182735967,
    .ofNat 38865538622192667391174750502128998955149894811703214103172205337438105641774⟩

/-- A price that the second proposes after it, and the signatures of both. -/
def counterproposal : PriceMessage := ⟨3, default, 8, second, 6⟩

def cosignatures : List Signature := [
  ⟨28, .ofNat 12092366595669203525184245852031354781138801966680071693149095194694485110265,
    .ofNat 45962532079020743839869116862606469098691552768815814201727690538286068175799⟩,
  ⟨27, .ofNat 111533273993799883284156631436795954982347237462913935534211154583226308418991,
    .ofNat 2370999421294904545771509385385959548366598469402095636493223303199120841919⟩]

theorem recover_signature :
    List.Forall₂ (fun g a => recoverSigner proposal.signingHash g = .ok a) [signature] [first] := by
  have hhash : proposal.signingHash =
      .ofNat 90555601381320115937875599112465740960936026625461106144716053550476651661234 := by
    rw [PriceMessage.signingHash, signedMessageHash, keccak256_eq]
    decide +kernel
  rw [hhash]
  simp only [recoverSigner, accountOfKey, keccak256_eq]
  exact .cons (by decide +kernel) .nil

theorem recover_cosignatures :
    List.Forall₂ (fun g a => recoverSigner counterproposal.signingHash g = .ok a) cosignatures
      [first, second] := by
  have hhash : counterproposal.signingHash =
      .ofNat 102412959848395455016276830495431048719672424416140646579354140918487422964011 := by
    rw [PriceMessage.signingHash, signedMessageHash, keccak256_eq]
    decide +kernel
  rw [hhash]
  simp only [recoverSigner, accountOfKey, keccak256_eq]
  exact .cons (by decide +kernel) (.cons (by decide +kernel) .nil)

theorem registry_reachable : registry.Reachable := by
  have hfirst : Registry.Reachable ⟨[⟨.ofNat 1, first, "first", 100, .empty, 0⟩], 1⟩ :=
    @Registry.Reachable.call _ _ (.register (.ofNat 1) first "first" 100 none) .empty (by decide +kernel)
  exact @Registry.Reachable.call _ _ (.register (.ofNat 2) second "second" 90 none) hfirst
    (by decide +kernel)

def start : PriceFeed := ⟨default, {}, .initial, .empty, .empty, 100000000, 5, 50, .empty, .empty⟩

def subscribed : PriceFeed := start.after (.subscribe (.ofNat 1) registry : Call Ledger)

def published : PriceFeed :=
  { subscribed with round := subscribed.round.award (.ofNat 1) }.setPrice 7 ⟨6, 60⟩

def joined : PriceFeed := published.after (.subscribe (.ofNat 2) registry : Call Ledger)

def republished : PriceFeed := { joined with round := joined.round.award (.ofNat 2) }.setPrice 8 ⟨7, 70⟩

theorem publish_proposal :
    subscribed.publish first proposal [signature] ⟨6, 60⟩ = .ok (⟨.ofNat 1, 1, [first]⟩, published) := by
  refine publish_eq_ok.2 ⟨⟨rfl, ?_, ?_, rfl, ?_, ?_, ?_, ?_, recover_signature, ?_, ?_⟩,
    ⟨.ofNat 1, first, 0, false⟩, ?_⟩
  all_goals decide +kernel

theorem publish_counterproposal :
    joined.publish second counterproposal cosignatures ⟨7, 70⟩
      = .ok (⟨.ofNat 2, 1, [first, second]⟩, republished) := by
  refine publish_eq_ok.2 ⟨⟨rfl, ?_, ?_, rfl, ?_, ?_, ?_, ?_, recover_cosignatures, ?_, ?_⟩,
    ⟨.ofNat 2, second, 0, false⟩, ?_⟩
  all_goals decide +kernel

theorem republished_reachable : Reachable Ledger republished := by
  have hstart : Reachable Ledger start := @Reachable.start Ledger _ default {} ⟨5, 50⟩ _ rfl
  have hsubscribed : Reachable Ledger subscribed := .call hstart registry_reachable
  have hjoined : Reachable Ledger joined := .call (hsubscribed.publish publish_proposal) registry_reachable
  exact hjoined.publish publish_counterproposal

end TwoSeats

/-- Two seats have a point each. Of five units each is paid two, and one stays. -/
theorem switchRound_shares_fees_of_two_seats :
    let a := Address.ofNat 0x1a642f0e3c3af545e7acbd38b07251b3990914f1
    let b := Address.ofNat 0x5050a4f4b3f9338c3472dcc01a87c76a144b3c9c
    let f : PriceFeed := ⟨default, {}, ⟨1, 0, [⟨.ofNat 1, a, 1, false⟩, ⟨.ofNat 2, b, 1, false⟩], false⟩,
      .ofList [.ofNat 1, .ofNat 2], (Table.empty.insert (.ofNat 1) 1).insert (.ofNat 2) 1, 8, 7, 70,
      .empty, .empty⟩
    let l : Ledger := ⟨Table.empty.insert f.pair.feeAccount 5, .empty, 5⟩
    Reachable Ledger f ∧ (∀ s ∈ f.round.seats, s.owner ≠ f.pair.feeAccount) ∧ l.Balanced ∧
      ∃ outcome l', f.switchRound .empty l ⟨8, 80⟩ = .ok (f.nextRound (f.selection .empty) 140, l') outcome ∧
        l'.balanceOf (.ofNat 1) = 2 ∧ l'.balanceOf (.ofNat 2) = 2 ∧ outcome.distributed = 4 := by
  intro a b f l
  have heq : TwoSeats.republished = f := by decide +kernel
  have hf : Reachable Ledger f := heq ▸ TwoSeats.republished_reachable
  have hfees : f.pair.feeAccount = .ofNat 0x8412e05a285414be4745edbc55f9ad7f36670707 := by
    rw [CoinPair.feeAccount, keccak256_eq]
    decide +kernel
  have hown : ∀ s ∈ f.round.seats, s.owner ≠ f.pair.feeAccount := by
    rw [hfees]
    decide +kernel
  have hl : l = ⟨Table.empty.insert (.ofNat 0x8412e05a285414be4745edbc55f9ad7f36670707) 5, .empty, 5⟩ := by
    rw [← hfees]
  have hbalanced : l.Balanced := by
    rw [hl]
    decide +kernel
  have havailable : f.availableFees l = 5 := by
    show l.balanceOf f.pair.feeAccount = 5
    rw [hfees, hl]
    decide +kernel
  obtain ⟨outcome, l', hswitch, hpaid, hshares, hsum, -⟩ :=
    (switchRound_shares_fees hf hown hbalanced .empty ⟨8, 80⟩).1 (by decide) (by decide)
  rw [havailable] at hpaid hshares
  refine ⟨hf, hown, hbalanced, outcome, l', hswitch, ?_, ?_, ?_⟩
  · rw [hpaid ⟨.ofNat 1, a, 1, false⟩ (by decide) (by decide), hl]
    decide +kernel
  · rw [hpaid ⟨.ofNat 2, b, 1, false⟩ (by decide) (by decide), hl]
    decide +kernel
  · rw [hsum, hshares]
    decide +kernel

end PriceFeed

end PriceOracle
