import PriceOracle.Feed.Switch
import PriceOracle.Proofs.Staking.Ledger
/-! What a switch does on the ledger. Rewards leave the fee account one after the other. If one of them
fails, those before it are taken back from accounts that have received as much, so nobody but the fee
account ever ends with less than it had. -/
namespace PriceOracle

/-- What some payouts pay an owner. -/
def Payout.paidTo (owner : Address) (payouts : List Payout) : Nat :=
  ((payouts.filter (·.owner = owner)).map (·.amount)).sum

theorem Payout.paidTo_cons (owner : Address) (p : Payout) (payouts : List Payout) :
    paidTo owner (p :: payouts) = (if owner = p.owner then p.amount else 0) + paidTo owner payouts := by
  by_cases heq : p.owner = owner
  · simp [paidTo, heq]
  · simp [paidTo, heq, Ne.symm heq]

namespace Ledger

variable {fees a : Address} {floor : Nat}

/-- Taking payouts back costs an account at most what they paid it. -/
theorem balanceOf_foldl_takeBack (done : List Payout) : ∀ {l : Ledger}, l.Bounded →
    floor + Payout.paidTo a done ≤ l.balanceOf a →
    (done.foldl (takeBack fees) l).Bounded ∧ floor ≤ (done.foldl (takeBack fees) l).balanceOf a := by
  induction done with
  | nil => exact fun hb hle => ⟨hb, hle⟩
  | cons p done ih =>
    intro l hb hle
    rw [Payout.paidTo_cons] at hle
    have hback : (takeBack fees l p).Bounded ∧
        floor + Payout.paidTo a done ≤ (takeBack fees l p).balanceOf a := by
      unfold takeBack CollateralLedger.transfer
      simp only [instCollateralLedgerLedger]
      cases ht : l.transfer p.owner fees p.amount with
      | error e => exact ⟨hb, by simp only [Except.toOption, Option.getD_none]; lia⟩
      | ok l' =>
        have hmoved := balanceOf_transfer ht a
        refine ⟨hb.transfer ht, ?_⟩
        simp only [Except.toOption, Option.getD_some]
        lia
    exact ih hback.1 hback.2

/-- Payouts, all or none, leave an account other than their source with what it had at least. -/
theorem balanceOf_transferAll (ha : a ≠ fees) (payouts : List Payout) :
    ∀ {l : Ledger} {done : List Payout}, l.Bounded → floor + Payout.paidTo a done ≤ l.balanceOf a →
      (transferAll fees l done payouts).state.Bounded ∧
        floor ≤ (transferAll fees l done payouts).state.balanceOf a := by
  induction payouts with
  | nil =>
    intro l done hb hle
    exact ⟨hb, Nat.le_trans (Nat.le_add_right _ _) hle⟩
  | cons p payouts ih =>
    intro l done hb hle
    unfold transferAll CollateralLedger.transfer
    simp only [instCollateralLedgerLedger]
    cases ht : l.transfer fees p.owner p.amount with
    | error e => exact balanceOf_foldl_takeBack done hb hle
    | ok l' =>
      have hmoved := balanceOf_transfer ht a
      rw [if_neg ha] at hmoved
      refine ih (hb.transfer ht) ?_
      rw [Payout.paidTo_cons]
      lia

theorem balanceOf_payAll (ha : a ≠ fees) {l : Ledger} (hb : l.Bounded) (payouts : List Payout) :
    (payAll fees l payouts).state.Bounded ∧ l.balanceOf a ≤ (payAll fees l payouts).state.balanceOf a := by
  unfold payAll
  split
  · exact ⟨hb, Nat.le_refl _⟩
  · exact balanceOf_transferAll ha payouts hb (Nat.le_refl _)

/-- A switch, accepted or refused, leaves every account but the pair's own with what it had at least. -/
theorem balanceOf_switchRound (f : PriceFeed) (registry : Registry) {l : Ledger} (hb : l.Bounded)
    (ctx : BlockContext) (ha : a ≠ f.pair.feeAccount) :
    (f.switchRound registry l ctx).state.2.Bounded ∧
      l.balanceOf a ≤ (f.switchRound registry l ctx).state.2.balanceOf a := by
  have hidle : l.Bounded ∧ l.balanceOf a ≤ l.balanceOf a := ⟨hb, Nat.le_refl _⟩
  unfold PriceFeed.switchRound
  split
  · exact hidle
  split
  · exact hidle
  split
  · exact hidle
  rename_i payouts _
  have hpaid := balanceOf_payAll ha hb payouts
  split
  · rename_i e l' heq
    rw [heq] at hpaid
    exact hpaid
  · rename_i distributed l' heq
    rw [heq] at hpaid
    exact hpaid

end Ledger

end PriceOracle
