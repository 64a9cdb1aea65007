import PriceOracle.Proofs.Staking.DelayVault
/-! Payments out of the vault, over a whole run of deposits, withdrawals and steps of account holders on
the ledger below it. A run keeps two things: what the vault's account holds covers what the vault owes,
so that every payment can be collected from its time on, and the ids handed out are told apart from the
ids paid out, so that none is paid twice. -/
namespace PriceOracle

/-- A vault, and the ledger on which its account holds what waits. -/
structure Escrow where
  vault : DelayVault
  ledger : Ledger
deriving DecidableEq, Inhabited

/-- What happens to a vault and the ledger under it. -/
inductive EscrowStep where
  | deposit (source beneficiary : Address) (amount : Amount) (unlockTime : Nat)
  | withdraw (caller : Address) (id now : Nat)
  /-- Account holders act on the ledger by themselves. -/
  | outside (step : LedgerStep)
deriving DecidableEq, Inhabited

/-- The step makes no payment from or to an account, and nobody debits it or approves on its behalf. -/
def EscrowStep.Permitted (account : Address) : EscrowStep → Prop
  | .deposit source beneficiary _ _ => source ≠ account ∧ beneficiary ≠ account
  | .withdraw .. => True
  | .outside step => step.Spares account

instance EscrowStep.decidablePermitted (account : Address) (step : EscrowStep) :
    Decidable (step.Permitted account) := by
  cases step <;> simp only [EscrowStep.Permitted] <;> infer_instance

namespace Escrow

/-! ### Runs -/

def new (account : Address) : Escrow := ⟨.new account, .empty⟩

/-- What a step leaves. One that is refused changes nothing. -/
def after (e : Escrow) : EscrowStep → Escrow
  | .deposit source beneficiary amount unlockTime =>
    match e.vault.deposit e.ledger source beneficiary amount unlockTime with
    | .error _ => e
    | .ok (_, vault, ledger) => ⟨vault, ledger⟩
  | .withdraw caller id now =>
    match e.vault.withdraw e.ledger caller id now with
    | .error _ => e
    | .ok (_, vault, ledger) => ⟨vault, ledger⟩
  | .outside step => { e with ledger := e.ledger.after step }

def run (e : Escrow) (steps : List EscrowStep) : Escrow := steps.foldl after e

/-- The id that a step hands out to a new payment. -/
def opened? (e : Escrow) : EscrowStep → Option Nat
  | .deposit source beneficiary amount unlockTime =>
    (e.vault.deposit e.ledger source beneficiary amount unlockTime).toOption.map (·.1)
  | .withdraw .. | .outside _ => none

def paid? (e : Escrow) : EscrowStep → Option Nat
  | .withdraw caller id now => (e.vault.withdraw e.ledger caller id now).toOption.map fun _ => id
  | .deposit .. | .outside _ => none

def opened : Escrow → List EscrowStep → List Nat
  | _, [] => []
  | e, step :: steps => (e.opened? step).toList ++ opened (e.after step) steps

/-- The ids that a run pays out, in order, each as often as it is paid. -/
def paid : Escrow → List EscrowStep → List Nat
  | _, [] => []
  | e, step :: steps => (e.paid? step).toList ++ paid (e.after step) steps

/-! ### What a step does -/

/-- What a step leaves, the id it hands out and the id it pays out. -/
inductive Booked (e : Escrow) : EscrowStep → Escrow → Option Nat → Option Nat → Prop where
  /-- A payment in, under the next id. -/
  | opened {source beneficiary : Address} {amount : Amount} {unlockTime : Nat} {vault : DelayVault}
      {ledger : Ledger}
      (h : e.vault.deposit e.ledger source beneficiary amount unlockTime
        = .ok (e.vault.nextId, vault, ledger)) :
      Booked e (.deposit source beneficiary amount unlockTime) ⟨vault, ledger⟩ (some e.vault.nextId) none
  /-- A payment out. -/
  | paid {caller : Address} {id now : Nat} {payment : DelayedPayment} {vault : DelayVault} {ledger : Ledger}
      (h : e.vault.withdraw e.ledger caller id now = .ok (payment, vault, ledger)) :
      Booked e (.withdraw caller id now) ⟨vault, ledger⟩ none (some id)
  /-- A step on the ledger alone. -/
  | moved (step : LedgerStep) : Booked e (.outside step) { e with ledger := e.ledger.after step } none none
  | refused (step : EscrowStep) : Booked e step e none none

theorem booked_after (e : Escrow) (step : EscrowStep) :
    e.Booked step (e.after step) (e.opened? step) (e.paid? step) := by
  cases step with
  | deposit source beneficiary amount unlockTime =>
    simp only [after, opened?, paid?]
    cases h : e.vault.deposit e.ledger source beneficiary amount unlockTime with
    | error error => exact .refused _
    | ok done =>
      obtain ⟨id, vault, ledger⟩ := done
      obtain rfl := (DelayVault.deposit_eq_ok.1 h).2.2.2.1
      exact .opened h
  | withdraw caller id now =>
    simp only [after, opened?, paid?]
    cases h : e.vault.withdraw e.ledger caller id now with
    | error error => exact .refused _
    | ok done => exact .paid h
  | outside step => exact .moved step

variable {e e' : Escrow} {step : EscrowStep} {new? out? : Option Nat} {account : Address}

/-! ### Cover -/

/-- An account holds what the vault owes, to others, on a ledger whose balances sum to the supply. -/
structure Secured (e : Escrow) (account : Address) : Prop where
  account_eq : e.vault.account = account
  numbered : e.vault.Numbered
  balanced : e.ledger.Balanced
  covered : e.vault.owed ≤ e.ledger.balanceOf account
  foreign : ∀ id payment, e.vault.payments.get? id = some payment → payment.beneficiary ≠ account

theorem secured_new (account : Address) : (new account).Secured account :=
  ⟨rfl, DelayVault.numbered_new _, Ledger.balanced_empty, Nat.zero_le _, fun _ _ h => nomatch h⟩

theorem Secured.of_booked (h : e.Secured account) (hs : step.Permitted account)
    (hb : e.Booked step e' new? out?) : e'.Secured account := by
  obtain rfl := h.account_eq
  have hcovered := h.covered
  cases hb with
  | opened hd =>
    obtain ⟨-, -, ht, -, rfl⟩ := DelayVault.deposit_eq_ok.1 hd
    obtain ⟨hnumbered, howed⟩ := DelayVault.owed_deposit h.numbered hd
    refine ⟨rfl, hnumbered, h.balanced.transfer ht, ?_, ?_⟩
    · have hin := Ledger.balanceOf_transfer ht e.vault.account
      rw [if_neg (Ne.symm hs.1), if_pos rfl] at hin
      lia
    · intro id payment hg
      rw [Table.get?_insert] at hg
      split at hg
      · cases hg
        exact hs.2
      · exact h.foreign id payment hg
  | paid hw =>
    rename_i caller id now payment vault ledger
    obtain ⟨hg, rfl, -, ht, rfl⟩ := DelayVault.withdraw_eq_ok.1 hw
    obtain ⟨hnumbered, howed⟩ := DelayVault.owed_withdraw h.numbered hw
    refine ⟨rfl, hnumbered, h.balanced.transfer ht, ?_, ?_⟩
    · have hout := Ledger.balanceOf_transfer ht e.vault.account
      rw [if_pos rfl, if_neg (Ne.symm (h.foreign id payment hg))] at hout
      lia
    · intro k other hk
      rw [Table.get?_erase] at hk
      split at hk
      · cases hk
      · exact h.foreign k other hk
  | moved step =>
    have hle := Ledger.balanceOf_le_after (l := e.ledger) hs
    exact ⟨rfl, h.numbered, h.balanced.after step, Nat.le_trans hcovered hle, h.foreign⟩
  | refused => exact h

theorem Secured.run {steps : List EscrowStep} : ∀ {e : Escrow}, e.Secured account →
    (∀ step ∈ steps, step.Permitted account) → (e.run steps).Secured account := by
  induction steps with
  | nil =>
    intro e h _
    exact h
  | cons step steps ih =>
    intro e h hs
    have hstep := h.of_booked (hs step (by simp)) (e.booked_after step)
    exact ih hstep fun t ht => hs t (by simp [ht])

/-- On a covered vault a payment that is due goes out: there is enough to take, and what the beneficiary
then has is no more than the supply. -/
theorem Secured.collectable (h : e.Secured account) {id now : Nat} {payment : DelayedPayment}
    (hg : e.vault.payments.get? id = some payment) (hdue : payment.unlockTime ≤ now) :
    ∃ vault ledger,
      e.vault.withdraw e.ledger payment.beneficiary id now = .ok (payment, vault, ledger) := by
  have hle : payment.amount ≤ e.ledger.balanceOf account :=
    Nat.le_trans (DelayVault.amount_le_owed hg) h.covered
  obtain ⟨ledger, ht⟩ := h.balanced.transfer_ok (Ne.symm (h.foreign id payment hg)) hle
  rw [← h.account_eq] at ht
  exact ⟨_, ledger, DelayVault.withdraw_eq_ok.2 ⟨hg, rfl, hdue, ht, rfl⟩⟩

/-! ### Ids -/

/-- The ids handed out and the ids paid out tell what waits. -/
structure Tracked (e : Escrow) (opened paid : List Nat) : Prop where
  /-- Ids are counted up from one. -/
  opened_eq : opened = List.range' 1 opened.length
  nextId_eq : e.vault.nextId = opened.length + 1
  paid_nodup : paid.Nodup
  paid_subset : paid ⊆ opened
  waits_iff : ∀ id, (e.vault.payments.get? id).isSome ↔ id ∈ opened ∧ id ∉ paid

variable {opened paid : List Nat}

theorem tracked_new (account : Address) : (new account).Tracked [] [] :=
  ⟨rfl, rfl, .nil, List.Subset.refl _, fun _ => by simp [new, DelayVault.new]⟩

theorem Tracked.nextId_notMem (h : e.Tracked opened paid) : e.vault.nextId ∉ opened := by
  rw [h.opened_eq, h.nextId_eq, List.mem_range'_1]
  lia

theorem Tracked.of_booked (h : e.Tracked opened paid) (hb : e.Booked step e' new? out?) :
    e'.Tracked (opened ++ new?.toList) (paid ++ out?.toList) := by
  cases hb with
  | opened hd =>
    obtain ⟨-, -, -, -, rfl⟩ := DelayVault.deposit_eq_ok.1 hd
    have hfresh := h.nextId_notMem
    have hunpaid : e.vault.nextId ∉ paid := fun hmem => hfresh (h.paid_subset hmem)
    simp only [Option.toList_some, Option.toList_none, List.append_nil]
    refine ⟨?_, ?_, h.paid_nodup, fun id hid => List.mem_append_left _ (h.paid_subset hid), fun id => ?_⟩
    · rw [List.length_append, List.length_singleton, List.range'_1_concat, ← h.opened_eq, h.nextId_eq,
        Nat.add_comm]
    · rw [List.length_append, List.length_singleton, ← h.nextId_eq]
    · rw [Table.get?_insert]
      split
      · rename_i heq
        simp [heq, hunpaid]
      · rename_i hne
        simp [h.waits_iff id, hne]
  | paid hw =>
    rename_i caller id now payment vault ledger
    obtain ⟨hg, -, -, -, rfl⟩ := DelayVault.withdraw_eq_ok.1 hw
    obtain ⟨hopened, hunpaid⟩ := (h.waits_iff id).1 (by simp [hg])
    simp only [Option.toList_some, Option.toList_none, List.append_nil]
    refine ⟨h.opened_eq, h.nextId_eq, ?_, ?_, fun k => ?_⟩
    · refine List.nodup_append.2 ⟨h.paid_nodup, by simp, fun a ha b hb heq => hunpaid ?_⟩
      rwa [← List.mem_singleton.1 hb, ← heq]
    · exact List.append_subset.2 ⟨h.paid_subset, by simpa using hopened⟩
    · rw [Table.get?_erase]
      split
      · rename_i heq
        simp [heq]
      · rename_i hne
        simp [h.waits_iff k, hne]
  | moved step => simpa using ⟨h.opened_eq, h.nextId_eq, h.paid_nodup, h.paid_subset, h.waits_iff⟩
  | refused => simpa using h

theorem Tracked.run {steps : List EscrowStep} : ∀ {e : Escrow} {opened paid : List Nat},
    e.Tracked opened paid → (e.run steps).Tracked (opened ++ e.opened steps) (paid ++ e.paid steps) := by
  induction steps with
  | nil =>
    intro e opened paid h
    simpa [Escrow.opened, Escrow.paid, Escrow.run] using h
  | cons step steps ih =>
    intro e opened paid h
    have hrest := ih (h.of_booked (e.booked_after step))
    rwa [List.append_assoc, List.append_assoc] at hrest

/-! ### Payments -/

/-- A payment waits until its beneficiary withdraws it in time, which moves its amount. -/
theorem waits_or_paid {id : Nat} {payment : DelayedPayment} (hn : e.vault.Numbered)
    (hg : e.vault.payments.get? id = some payment) (hb : e.Booked step e' new? out?) :
    e'.vault.payments.get? id = some payment ∨
      ∃ now, step = .withdraw payment.beneficiary id now ∧ payment.unlockTime ≤ now ∧
        e'.vault.payments.get? id = none ∧
        e.ledger.Moved e'.ledger e.vault.account payment.beneficiary payment.amount := by
  cases hb with
  | opened hd =>
    obtain ⟨-, -, -, -, rfl⟩ := DelayVault.deposit_eq_ok.1 hd
    have hne : id ≠ e.vault.nextId := by
      rintro rfl
      rw [hn _ (Nat.le_refl _)] at hg
      cases hg
    exact .inl ((Table.get?_insert_ne _ _ hne).trans hg)
  | paid hw =>
    rename_i caller k now other vault ledger
    obtain ⟨hk, rfl, hdue, ht, rfl⟩ := DelayVault.withdraw_eq_ok.1 hw
    by_cases heq : id = k
    · subst heq
      obtain rfl : other = payment := Option.some.inj (hk.symm.trans hg)
      refine .inr ⟨now, rfl, hdue, ?_, Ledger.balanceOf_transfer ht⟩
      rw [Table.get?_erase, if_pos rfl]
    · refine .inl ?_
      rw [Table.get?_erase, if_neg heq]
      exact hg
  | moved => exact .inl hg
  | refused => exact .inl hg

/-- From an empty vault and ledger, after any run in which no payment is from or to the vault's account
and nobody debits it or approves on its behalf: the ids handed out count up from one, and stay words as
long as fewer than the largest word were; no id was paid twice, and those that wait are those handed out
and not paid. A payment in waits under a new id as it was made. A payment that waits is lost by no step but
a withdrawal of its beneficiary at or after its time, which moves exactly its amount, and such a withdrawal
goes through. -/
theorem paid_once (account : Address) (steps : List EscrowStep)
    (hsteps : ∀ step ∈ steps, step.Permitted account) :
    let start := Escrow.new account
    let opened := start.opened steps
    let paid := start.paid steps
    let e := start.run steps
    opened = List.range' 1 opened.length ∧
      (opened.length < Word.max → e.vault.nextId < Word.limit) ∧
      paid.Nodup ∧
      (∀ id, (e.vault.get? id).isSome ↔ id ∈ opened ∧ id ∉ paid) ∧
      (∀ source beneficiary amount unlockTime id vault ledger,
        e.vault.deposit e.ledger source beneficiary amount unlockTime = .ok (id, vault, ledger) →
          id ∉ opened ∧ vault.get? id = some ⟨source, beneficiary, amount, unlockTime⟩) ∧
      ∀ id payment, e.vault.get? id = some payment →
        (∀ step, (e.after step).vault.get? id = some payment ∨
          ∃ now, step = .withdraw payment.beneficiary id now ∧ payment.unlockTime ≤ now ∧
            (e.after step).vault.get? id = none ∧
            e.ledger.Moved (e.after step).ledger account payment.beneficiary payment.amount) ∧
        ∀ now, payment.unlockTime ≤ now →
          ∃ vault ledger,
            e.vault.withdraw e.ledger payment.beneficiary id now = .ok (payment, vault, ledger) := by
  intro start opened paid e
  have htracked : e.Tracked opened paid := (tracked_new account).run
  have hsecured : e.Secured account := (secured_new account).run hsteps
  refine ⟨htracked.opened_eq, fun hfew => ?_, htracked.paid_nodup, htracked.waits_iff,
    fun source beneficiary amount unlockTime id vault ledger hd => ?_,
    fun id payment hg => ⟨fun step => ?_, fun now hdue => hsecured.collectable hg hdue⟩⟩
  · rw [htracked.nextId_eq]
    rw [Word.max] at hfew
    lia
  · obtain ⟨-, -, -, rfl, rfl⟩ := DelayVault.deposit_eq_ok.1 hd
    exact ⟨htracked.nextId_notMem, Table.get?_insert_self ..⟩
  · have hstep := waits_or_paid hsecured.numbered hg (e.booked_after step)
    rwa [hsecured.account_eq] at hstep

/-- A holder pays two others. The first is refused before its time, collects at it and is refused from
then on; the second is refused what belongs to the first, and can collect its own. -/
theorem paid_once_of_two_beneficiaries :
    let account := Address.ofNat 1
    let holder := Address.ofNat 2
    let first := Address.ofNat 3
    let second := Address.ofNat 4
    let start := Escrow.new account
    let steps : List EscrowStep := [
      .outside (.mint holder 100),
      .deposit holder first 60 50,
      .deposit holder second 40 80,
      .withdraw first 1 49,
      .withdraw second 1 50,
      .withdraw first 1 50,
      .withdraw first 1 51]
    let e := start.run steps
    (∀ step ∈ steps, step.Permitted account) ∧ start.opened steps = [1, 2] ∧ start.paid steps = [1] ∧
      e.ledger.balanceOf first = 60 ∧ e.ledger.balanceOf account = 40 ∧
      e.vault.get? 2 = some ⟨holder, second, 40, 80⟩ ∧
      ∃ vault ledger,
        e.vault.withdraw e.ledger second 2 80 = .ok (⟨holder, second, 40, 80⟩, vault, ledger) := by
  intro account holder first second start steps e
  have hsteps : ∀ step ∈ steps, step.Permitted account := by decide
  have hwaits : e.vault.get? 2 = some ⟨holder, second, 40, 80⟩ := by decide +kernel
  have hpaid := paid_once account steps hsteps
  have hcollect := (hpaid.2.2.2.2.2 2 ⟨holder, second, 40, 80⟩ hwaits).2 80 (Nat.le_refl _)
  exact ⟨hsteps, by decide +kernel, by decide +kernel, by decide +kernel, by decide +kernel, hwaits,
    hcollect⟩

end Escrow

end PriceOracle
