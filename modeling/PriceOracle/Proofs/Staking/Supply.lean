import PriceOracle.Proofs.Staking.Ledger
/-! Conservation on the ledger. Whatever its account holders do, accepted or refused, the balances sum to what
was minted. That rules the overflow checks of a transfer out: between two accounts one is refused only when it
is not covered. The equations for balances and allowances hold for every choice of accounts, so that a holder
who pays itself, or moves its own collateral as its own spender, is not a case apart. -/
namespace PriceOracle

namespace Ledger

variable {l l' : Ledger} {spender source target : Address} {amount : Amount}

def run (l : Ledger) (steps : List LedgerStep) : Ledger := steps.foldl after l

@[simp]
theorem run_nil (l : Ledger) : l.run [] = l := rfl

@[simp]
theorem run_cons (l : Ledger) (step : LedgerStep) (steps : List LedgerStep) :
    l.run (step :: steps) = (l.after step).run steps := rfl

theorem Balanced.run (h : l.Balanced) (steps : List LedgerStep) : (l.run steps).Balanced := by
  induction steps generalizing l with
  | nil => exact h
  | cons step steps ih =>
    rw [run_cons]
    exact ih (h.after step)

/-! ### What is accepted -/

/-- With the balances summing to the supply, minting is refused only when the supply would overflow. -/
theorem Balanced.mint_ok_iff (h : l.Balanced) :
    (∃ l', l.mint target amount = .ok l') ↔ l.totalSupply + amount < Amount.limit := by
  constructor
  · rintro ⟨l', hl'⟩
    exact (mint_eq_ok.1 hl').1
  · intro hfit
    have hle : l.balanceOf target ≤ l.totalSupply := by
      have := Table.elim_le_total id l.balances target
      rwa [l.elim_balance, h.1] at this
    exact ⟨_, mint_eq_ok.2 ⟨hfit, by lia, rfl⟩⟩

theorem Balanced.transfer_ok_iff (h : l.Balanced) (hne : source ≠ target) :
    (∃ l', l.transfer source target amount = .ok l') ↔ amount ≤ l.balanceOf source := by
  constructor
  · rintro ⟨l', hl'⟩
    exact (transfer_eq_ok.1 hl').1
  · exact h.transfer_ok hne

theorem Balanced.transferFrom_ok_iff (h : l.Balanced) (hne : source ≠ target) :
    (∃ l', l.transferFrom spender source target amount = .ok l') ↔
      amount ≤ l.balanceOf source ∧ amount ≤ l.allowance source spender := by
  constructor
  · rintro ⟨l', hl'⟩
    obtain ⟨hallowed, m, hm, -⟩ := transferFrom_eq_ok.1 hl'
    exact ⟨(transfer_eq_ok.1 hm).1, hallowed⟩
  · rintro ⟨hheld, hallowed⟩
    obtain ⟨m, hm⟩ := h.transfer_ok hne hheld
    exact ⟨_, transferFrom_eq_ok.2 ⟨hallowed, m, hm, rfl⟩⟩

/-! ### What is left as it was -/

theorem totalSupply_transfer (h : l.transfer source target amount = .ok l') :
    l'.totalSupply = l.totalSupply := by
  obtain ⟨-, -, rfl⟩ := transfer_eq_ok.1 h
  split <;> rfl

@[simp]
theorem allowance_approve (l : Ledger) (owner spender a b : Address) (amount : Amount) :
    (l.approve owner spender amount).allowance a b
      = if (a, b) = (owner, spender) then amount else l.allowance a b := by
  simp only [allowance, approve, Table.get?_insert]
  split <;> rfl

theorem totalSupply_transferFrom (h : l.transferFrom spender source target amount = .ok l') :
    l'.totalSupply = l.totalSupply := by
  obtain ⟨-, m, hm, rfl⟩ := transferFrom_eq_ok.1 h
  show m.totalSupply = l.totalSupply
  exact totalSupply_transfer hm

/-- A delegated transfer takes its amount off one allowance, whoever the spender and the accounts are. -/
theorem allowance_transferFrom (h : l.transferFrom spender source target amount = .ok l') (a b : Address) :
    l'.allowance a b + (if (a, b) = (source, spender) then amount else 0) = l.allowance a b := by
  obtain ⟨hallowed, m, hm, rfl⟩ := transferFrom_eq_ok.1 h
  have hkept : ∀ owner other, m.allowance owner other = l.allowance owner other := fun owner other => by
    rw [allowance, allowance, allowance_transfer hm]
  rw [allowance_approve]
  split
  · rename_i hself
    simp only [Prod.mk.injEq] at hself
    rw [hself.1, hself.2]
    exact Nat.sub_add_cancel hallowed
  · rw [hkept, Nat.add_zero]

theorem after_of_error {step : LedgerStep} {e : StakingError} (h : l.attempt step = .error e) :
    l.after step = l := by
  rw [after, h]
  rfl

/-! ### Runs -/

/-- After any steps on an empty ledger the balances sum to the supply. Between two accounts a transfer is
accepted exactly when the source has the amount, and a delegated one exactly when the allowance covers it too.
What is accepted moves its amount between the two balances it names, takes it off the one allowance it was
made on, and changes neither another balance or allowance nor the supply; the equations hold as well when
source, target and spender are one account. A step that is refused changes nothing. -/
theorem supply_accounted (steps : List LedgerStep) :
    let l := empty.run steps
    l.balances.total id = l.totalSupply ∧
    (∀ source target amount, source ≠ target →
      ((∃ l', l.transfer source target amount = .ok l') ↔ amount ≤ l.balanceOf source)) ∧
    (∀ spender source target amount, source ≠ target →
      ((∃ l', l.transferFrom spender source target amount = .ok l') ↔
        amount ≤ l.balanceOf source ∧ amount ≤ l.allowance source spender)) ∧
    (∀ source target amount l', l.transfer source target amount = .ok l' →
      l.Moved l' source target amount ∧ l'.allowances = l.allowances ∧ l'.totalSupply = l.totalSupply) ∧
    (∀ spender source target amount l', l.transferFrom spender source target amount = .ok l' →
      l.Moved l' source target amount ∧ l'.totalSupply = l.totalSupply ∧
      ∀ a b, l'.allowance a b + (if (a, b) = (source, spender) then amount else 0) = l.allowance a b) ∧
    ∀ step e, l.attempt step = .error e → l.after step = l := by
  intro l
  have hl : l.Balanced := balanced_empty.run steps
  refine ⟨hl.1, ?_, ?_, ?_, ?_, ?_⟩
  · intro source target amount hne
    exact hl.transfer_ok_iff hne
  · intro spender source target amount hne
    exact hl.transferFrom_ok_iff hne
  · intro source target amount l' h
    exact ⟨balanceOf_transfer h, allowance_transfer h, totalSupply_transfer h⟩
  · intro spender source target amount l' h
    exact ⟨balanceOf_transferFrom h, totalSupply_transferFrom h, allowance_transferFrom h⟩
  · intro step e h
    exact after_of_error h

/-- A holder that is its own spender keeps what it pays itself and uses its allowance up; what would overflow
the supply, and what is not covered, is refused. -/
example :
    let a := Address.ofNat 1
    let b := Address.ofNat 2
    empty.run [.mint a 10, .approve a a 5, .transferFrom a a a 3, .mint b (Amount.limit - 10), .transfer a b 11,
        .transferFrom a a b 2, .transferFrom a a b 1] =
      ⟨(Table.empty.insert a 8).insert b 2, Table.empty.insert (a, a) 0, 10⟩ := by
  decide +kernel

end Ledger

end PriceOracle
