import PriceOracle.Proofs.Staking.Ledger
import PriceOracle.Staking.DelayVault
/-! What the vault owes. Ids are handed out in ascending order and never again, so a new payment never
overwrites one that waits, and what is owed moves by exactly what is paid in or out. -/
namespace PriceOracle.DelayVault

/-- The sum of the payments that wait. -/
def owed (v : DelayVault) : Nat := v.payments.total (·.amount)

/-- Every id that waits was handed out. -/
def Numbered (v : DelayVault) : Prop := ∀ id, v.nextId ≤ id → v.payments.get? id = none

@[simp]
theorem owed_new (account : Address) : (new account).owed = 0 := rfl

theorem numbered_new (account : Address) : (new account).Numbered := fun _ _ => rfl

variable {v v' : DelayVault} {l l' : Ledger} {source beneficiary caller : Address} {amount : Amount}
  {unlockTime id now : Nat} {payment : DelayedPayment}

/-- A payment in, of something and to somebody, goes through with its transfer and takes the next id. -/
theorem deposit_eq_ok : v.deposit l source beneficiary amount unlockTime = .ok (id, v', l') ↔
    amount ≠ 0 ∧ ¬ beneficiary.isZero ∧ l.transfer source v.account amount = .ok l' ∧ id = v.nextId ∧
      v' = { v with
        payments := v.payments.insert v.nextId ⟨source, beneficiary, amount, unlockTime⟩
        nextId := v.nextId + 1 } := by
  simp only [deposit]
  by_cases hamount : amount = 0
  · simp [hamount]
  · by_cases hzero : beneficiary.isZero
    · simp [hamount, hzero]
    · cases l.transfer source v.account amount with
      | error e => simp [hamount, hzero]
      | ok ledger => grind

/-- A payment out is one that waits for the caller and is due, and goes through with its transfer. -/
theorem withdraw_eq_ok : v.withdraw l caller id now = .ok (payment, v', l') ↔
    v.payments.get? id = some payment ∧ payment.beneficiary = caller ∧ payment.unlockTime ≤ now ∧
      l.transfer v.account caller payment.amount = .ok l' ∧
      v' = { v with payments := v.payments.erase id } := by
  simp only [withdraw]
  cases v.payments.get? id with
  | none => simp
  | some found =>
    by_cases hcaller : found.beneficiary = caller
    · subst hcaller
      by_cases hdue : found.unlockTime ≤ now
      · cases ht : l.transfer v.account found.beneficiary found.amount with
        | error e => grind
        | ok ledger => grind
      · grind
    · grind

theorem owed_deposit (hn : v.Numbered)
    (h : v.deposit l source beneficiary amount unlockTime = .ok (id, v', l')) :
    v'.Numbered ∧ v'.owed = v.owed + amount := by
  obtain ⟨-, -, -, -, rfl⟩ := deposit_eq_ok.1 h
  refine ⟨fun k hk => ?_, ?_⟩
  · have hne : k ≠ v.nextId := by
      rintro rfl
      exact Nat.not_succ_le_self _ hk
    rw [Table.get?_insert_ne _ _ hne]
    exact hn k (Nat.le_of_succ_le hk)
  · have hins := Table.total_insert (·.amount) v.payments v.nextId
      ⟨source, beneficiary, amount, unlockTime⟩
    rw [hn _ (Nat.le_refl _)] at hins
    exact hins

theorem owed_withdraw (hn : v.Numbered) (h : v.withdraw l caller id now = .ok (payment, v', l')) :
    v'.Numbered ∧ v'.owed + payment.amount = v.owed := by
  obtain ⟨hg, -, -, -, rfl⟩ := withdraw_eq_ok.1 h
  refine ⟨fun k hk => ?_, ?_⟩
  · rw [Table.get?_erase]
    split
    · rfl
    · exact hn k hk
  · have hers := Table.total_erase (·.amount) v.payments id
    rw [hg] at hers
    exact hers

theorem amount_le_owed (hg : v.payments.get? id = some payment) : payment.amount ≤ v.owed := by
  have hle := Table.elim_le_total (·.amount) v.payments id
  rwa [hg] at hle

end PriceOracle.DelayVault
