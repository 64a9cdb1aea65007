import PriceOracle.Proofs.Table
import PriceOracle.Staking.Ledger
/-! What the operations of the ledger do. Each is opened once, by when it goes through and what it leaves. A
transfer is stated as one equation for every account, with what it pays on one side and what it receives on
the other, so that it also covers a transfer to oneself. A balance is an amount throughout; where the
balances sum to the supply, two of them together are one too, and a covered transfer always goes through. -/
namespace PriceOracle

namespace Ledger

variable {l l' : Ledger} {spender source target : Address} {amount : Amount}

/-! ### Outcomes -/

/-- A transfer goes through if its source has the amount and its target can take it. -/
theorem transfer_eq_ok : l.transfer source target amount = .ok l' ↔
    amount ≤ l.balanceOf source ∧ l.balanceOf target + amount < Amount.limit ∧
      l' = if source = target then l else { l with
        balances := (l.balances.insert source (l.balanceOf source - amount)).insert target
          (l.balanceOf target + amount) } := by
  simp only [transfer]
  by_cases hle : amount ≤ l.balanceOf source
  · rw [if_neg (Nat.not_lt.2 hle)]
    by_cases hfit : l.balanceOf target + amount < Amount.limit
    · rw [Amount.add?_eq_some.2 ⟨rfl, hfit⟩]
      dsimp only
      split <;> simp [hle, hfit, eq_comm]
    · simp [Amount.add?, hfit]
  · simp [hle, Nat.not_le.1 hle]

/-- A delegated transfer is a transfer, after which less is left to the spender. -/
theorem transferFrom_eq_ok : l.transferFrom spender source target amount = .ok l' ↔
    amount ≤ l.allowance source spender ∧ ∃ m, l.transfer source target amount = .ok m ∧
      l' = m.approve source spender (l.allowance source spender - amount) := by
  simp only [transferFrom]
  by_cases hle : amount ≤ l.allowance source spender
  · rw [if_neg (Nat.not_lt.2 hle)]
    cases l.transfer source target amount with
    | error e => simp
    | ok m => simp [hle, eq_comm]
  · simp [hle, Nat.not_le.1 hle]

/-- An amount is created if neither the supply nor the account's balance overflows. -/
theorem mint_eq_ok : l.mint target amount = .ok l' ↔
    l.totalSupply + amount < Amount.limit ∧ l.balanceOf target + amount < Amount.limit ∧
      l' = { l with
        totalSupply := l.totalSupply + amount
        balances := l.balances.insert target (l.balanceOf target + amount) } := by
  simp only [mint]
  by_cases hsupply : l.totalSupply + amount < Amount.limit
  · by_cases hbalance : l.balanceOf target + amount < Amount.limit
    · rw [Amount.add?_eq_some.2 ⟨rfl, hsupply⟩, Amount.add?_eq_some.2 ⟨rfl, hbalance⟩]
      simp [hsupply, hbalance, eq_comm]
    · simp [Amount.add?, hbalance]
  · simp [Amount.add?, hsupply]

/-! ### Balances -/

@[simp]
theorem balanceOf_empty (a : Address) : empty.balanceOf a = 0 := rfl

@[simp]
theorem balanceOf_approve (l : Ledger) (owner spender a : Address) (amount : Amount) :
    (l.approve owner spender amount).balanceOf a = l.balanceOf a := rfl

theorem balanceOf_transfer (h : l.transfer source target amount = .ok l') (a : Address) :
    l'.balanceOf a + (if a = source then amount else 0)
      = l.balanceOf a + if a = target then amount else 0 := by
  obtain ⟨hle, -, rfl⟩ := transfer_eq_ok.1 h
  split
  · -- to oneself: the two sides of the equation hold the same amount
    rename_i hself
    rw [hself]
  · simp only [balanceOf, Table.get?_insert] at *
    split
    · subst a
      simp only [Option.getD_some]
      split <;> simp_all
    · split <;> simp_all

theorem balanceOf_transferFrom (h : l.transferFrom spender source target amount = .ok l') (a : Address) :
    l'.balanceOf a + (if a = source then amount else 0)
      = l.balanceOf a + if a = target then amount else 0 := by
  obtain ⟨-, m, hm, rfl⟩ := transferFrom_eq_ok.1 h
  exact balanceOf_transfer hm a

theorem balanceOf_mint (h : l.mint target amount = .ok l') (a : Address) :
    l'.balanceOf a = l.balanceOf a + if a = target then amount else 0 := by
  obtain ⟨-, -, rfl⟩ := mint_eq_ok.1 h
  simp only [balanceOf, Table.get?_insert] at *
  split <;> simp_all

theorem allowance_transfer (h : l.transfer source target amount = .ok l') : l'.allowances = l.allowances := by
  obtain ⟨-, -, rfl⟩ := transfer_eq_ok.1 h
  split <;> rfl

/-- Exactly an amount passed from one account to another. -/
def Moved (l l' : Ledger) (source target : Address) (amount : Amount) : Prop :=
  ∀ a, l'.balanceOf a + (if a = source then amount else 0)
    = l.balanceOf a + if a = target then amount else 0

theorem Moved.zero (l : Ledger) (source target : Address) : l.Moved l source target 0 := fun a => by
  rw [ite_self, ite_self]

/-! ### Bounds -/

def Bounded (l : Ledger) : Prop := ∀ a, l.balanceOf a < Amount.limit

theorem bounded_empty : empty.Bounded := fun a => by
  rw [balanceOf_empty]
  decide

theorem Bounded.approve (h : l.Bounded) (owner spender : Address) (amount : Amount) :
    (l.approve owner spender amount).Bounded := h

theorem Bounded.transfer (hb : l.Bounded) (h : l.transfer source target amount = .ok l') :
    l'.Bounded := by
  intro a
  have heq := balanceOf_transfer h a
  have hfit := (transfer_eq_ok.1 h).2.1
  have ha := hb a
  by_cases hat : a = target
  · subst hat
    simp only [↓reduceIte] at heq
    lia
  · simp only [hat, ↓reduceIte] at heq
    lia

theorem Bounded.transferFrom (hb : l.Bounded) (h : l.transferFrom spender source target amount = .ok l') :
    l'.Bounded := by
  obtain ⟨-, m, hm, rfl⟩ := transferFrom_eq_ok.1 h
  exact (hb.transfer hm).approve _ _ _

theorem Bounded.mint (hb : l.Bounded) (h : l.mint target amount = .ok l') : l'.Bounded := by
  intro a
  have heq := balanceOf_mint h a
  have hfit := (mint_eq_ok.1 h).2.1
  have ha := hb a
  by_cases hat : a = target
  · subst hat
    simp only [↓reduceIte] at heq
    lia
  · simp only [hat, ↓reduceIte] at heq
    lia

/-! ### Sums -/

/-- The balances sum to the supply, which is an amount. -/
def Balanced (l : Ledger) : Prop := l.balances.total id = l.totalSupply ∧ l.totalSupply < Amount.limit

instance (l : Ledger) : Decidable l.Balanced := inferInstanceAs (Decidable (_ ∧ _))

theorem balanced_empty : empty.Balanced := ⟨rfl, by decide⟩

/-- An account without an entry adds nothing to the sum of the balances. -/
theorem elim_balance (l : Ledger) (a : Address) : (l.balances.get? a).elim 0 id = l.balanceOf a := by
  unfold balanceOf
  cases l.balances.get? a <;> rfl

theorem Balanced.bounded (h : l.Balanced) : l.Bounded := by
  intro a
  have hle := Table.elim_le_total id l.balances a
  rw [l.elim_balance] at hle
  exact Nat.lt_of_le_of_lt hle (h.1 ▸ h.2)

/-- No two accounts have more than there is. -/
theorem Balanced.add_le (h : l.Balanced) {a b : Address} (hne : a ≠ b) :
    l.balanceOf a + l.balanceOf b ≤ l.totalSupply := by
  have hrest := Table.total_erase id l.balances a
  have hle := Table.elim_le_total id (l.balances.erase a) b
  rw [Table.get?_erase, if_neg (Ne.symm hne), l.elim_balance] at hle
  rw [l.elim_balance, h.1] at hrest
  lia

/-- Between two accounts a covered amount can be moved: what it is added to cannot overflow. -/
theorem Balanced.transfer_ok (h : l.Balanced) (hne : source ≠ target) (hle : amount ≤ l.balanceOf source) :
    ∃ l', l.transfer source target amount = .ok l' := by
  have hboth := h.add_le hne
  have hsupply := h.2
  exact ⟨_, transfer_eq_ok.2 ⟨hle, by lia, rfl⟩⟩

theorem Balanced.approve (h : l.Balanced) (owner spender : Address) (amount : Amount) :
    (l.approve owner spender amount).Balanced := h

theorem Balanced.transfer (hb : l.Balanced) (h : l.transfer source target amount = .ok l') :
    l'.Balanced := by
  obtain ⟨hle, -, rfl⟩ := transfer_eq_ok.1 h
  split
  · exact hb
  · rename_i hne
    have hdebit := Table.total_insert id l.balances source (l.balanceOf source - amount)
    have hcredit := Table.total_insert id
      (l.balances.insert source (l.balanceOf source - amount)) target (l.balanceOf target + amount)
    rw [l.elim_balance] at hdebit
    rw [Table.get?_insert_ne _ _ (Ne.symm hne), l.elim_balance] at hcredit
    refine ⟨?_, hb.2⟩
    have hsum := hb.1
    simp only [id_eq] at hdebit hcredit
    show Table.total id _ = l.totalSupply
    lia

theorem Balanced.transferFrom (hb : l.Balanced)
    (h : l.transferFrom spender source target amount = .ok l') : l'.Balanced := by
  obtain ⟨-, m, hm, rfl⟩ := transferFrom_eq_ok.1 h
  exact (hb.transfer hm).approve _ _ _

theorem Balanced.mint (hb : l.Balanced) (h : l.mint target amount = .ok l') : l'.Balanced := by
  obtain ⟨hfit, -, rfl⟩ := mint_eq_ok.1 h
  have hcredit := Table.total_insert id l.balances target (l.balanceOf target + amount)
  rw [l.elim_balance] at hcredit
  refine ⟨?_, hfit⟩
  have hsum := hb.1
  simp only [id_eq] at hcredit
  show Table.total id _ = l.totalSupply + amount
  lia

end Ledger

/-! ### Steps of account holders -/

/-- What account holders do on the ledger by themselves. -/
inductive LedgerStep where
  | mint (target : Address) (amount : Amount)
  | transfer (source target : Address) (amount : Amount)
  | approve (owner spender : Address) (amount : Amount)
  | transferFrom (spender source target : Address) (amount : Amount)
deriving DecidableEq, Inhabited

def Ledger.attempt (l : Ledger) : LedgerStep → Except StakingError Ledger
  | .mint target amount => l.mint target amount
  | .transfer source target amount => l.transfer source target amount
  | .approve owner spender amount => .ok (l.approve owner spender amount)
  | .transferFrom spender source target amount => l.transferFrom spender source target amount

/-- The ledger after a step. One that is refused changes nothing. -/
def Ledger.after (l : Ledger) (step : LedgerStep) : Ledger := (l.attempt step).toOption.getD l

/-- The step neither debits an account nor approves a debit on its behalf. -/
def LedgerStep.Spares (account : Address) : LedgerStep → Prop
  | .mint .. => True
  | .transfer source .. => source ≠ account
  | .approve owner .. => owner ≠ account
  | .transferFrom _ source .. => source ≠ account

instance (account : Address) (step : LedgerStep) : Decidable (step.Spares account) := by
  cases step <;> simp only [LedgerStep.Spares] <;> infer_instance

namespace Ledger

theorem after_eq (l : Ledger) (step : LedgerStep) :
    (l.attempt step = .ok (l.after step)) ∨ l.after step = l := by
  cases h : l.attempt step with
  | error e => exact .inr (by simp [after, h, Except.toOption])
  | ok l' => exact .inl (by simp [after, h, Except.toOption])

/-- What transfers, approvals and mints keep, every step keeps. -/
theorem keeps_after {P : Ledger → Prop}
    (hmint : ∀ {l l' target amount}, P l → l.mint target amount = .ok l' → P l')
    (htransfer : ∀ {l l' source target amount}, P l → l.transfer source target amount = .ok l' → P l')
    (happrove : ∀ {l} owner spender amount, P l → P (l.approve owner spender amount))
    {l : Ledger} (hl : P l) (step : LedgerStep) : P (l.after step) := by
  rcases l.after_eq step with h | h
  · cases step with
    | mint target amount => exact hmint hl h
    | transfer source target amount => exact htransfer hl h
    | approve owner spender amount =>
      simp only [attempt, Except.ok.injEq] at h
      rw [← h]
      exact happrove owner spender amount hl
    | transferFrom spender source target amount =>
      obtain ⟨-, m, hm, heq⟩ := transferFrom_eq_ok.1 h
      rw [heq]
      exact happrove _ _ _ (htransfer hl hm)
  · rwa [h]

theorem Bounded.after {l : Ledger} (hb : l.Bounded) (step : LedgerStep) : (l.after step).Bounded :=
  keeps_after Bounded.mint Bounded.transfer (fun _ _ _ h => h.approve _ _ _) hb step

theorem Balanced.after {l : Ledger} (hb : l.Balanced) (step : LedgerStep) : (l.after step).Balanced :=
  keeps_after Balanced.mint Balanced.transfer (fun _ _ _ h => h.approve _ _ _) hb step

theorem balanceOf_le_after {l : Ledger} {step : LedgerStep} {a : Address} (hs : step.Spares a) :
    l.balanceOf a ≤ (l.after step).balanceOf a := by
  rcases l.after_eq step with h | h
  · cases step with
    | mint target amount =>
      have := balanceOf_mint h a
      lia
    | transfer source target amount =>
      have := balanceOf_transfer h a
      simp only [Ne.symm hs, ↓reduceIte] at this
      lia
    | approve owner spender amount =>
      simp only [attempt, Except.ok.injEq] at h
      simp [← h]
    | transferFrom spender source target amount =>
      have := balanceOf_transferFrom h a
      simp only [Ne.symm hs, ↓reduceIte] at this
      lia
  · exact Nat.le_of_eq (by rw [h])

end Ledger

end PriceOracle
