import Mathlib.Tactic.Linarith
import PriceOracle.Proofs.Staking.Vesting
import PriceOracle.Proofs.Table
import PriceOracle.Staking.SharePool
/-! The books of the share pool. A sound pool has as many shares as its holders, no more shares than
settled collateral, and nothing settled or vesting while nobody holds shares. On a sound pool no
saturating sum saturates as long as its funds and what comes in are an amount, so every operation moves
the funds by exactly what it takes in or pays out. -/
namespace PriceOracle

namespace SharePool

/-! ### The invariant -/

/-- All collateral the pool answers for, as an exact sum. -/
def funds (p : SharePool) : Nat := p.collateral + p.schedule.remaining + p.reserve

/-- The books of the pool agree. -/
structure Sound (p : SharePool) : Prop where
  total_shares : p.shares.total id = p.totalShares
  positive : ∀ account shares, p.shares.get? account = some shares → 0 < shares
  released_le : p.schedule.released ≤ p.schedule.amount
  amount_lt : p.schedule.amount < Amount.limit
  /-- Every share has at least a unit of settled collateral behind it. -/
  backed : p.totalShares ≤ p.collateral
  /-- While nobody holds shares, everything waits in the reserve. -/
  idle : p.totalShares = 0 → p.collateral = 0 ∧ p.schedule.remaining = 0

theorem held_eq_funds {p : SharePool} (h : p.funds < Amount.limit) : p.held = p.funds := by
  simp only [funds] at h
  rw [held, Amount.satAdd_of_lt (a := p.collateral) (by lia), Amount.satAdd_of_lt h, funds]

theorem elim_shares (p : SharePool) (account : StakeAccount) :
    (p.shares.get? account).elim 0 id = p.sharesOf account := by
  rw [sharesOf]
  cases p.shares.get? account <;> rfl

/-- As many shares are held as are counted, and the schedule is over an amount: what the books keep even
where sums saturate. -/
structure Tallied (p : SharePool) : Prop where
  total_shares : p.shares.total id = p.totalShares
  amount_lt : p.schedule.amount < Amount.limit

theorem Sound.tallied {p : SharePool} (h : p.Sound) : p.Tallied := ⟨h.total_shares, h.amount_lt⟩

theorem Tallied.sharesOf_le {p : SharePool} (h : p.Tallied) (account : StakeAccount) :
    p.sharesOf account ≤ p.totalShares := by
  rw [← elim_shares, ← h.total_shares]
  exact Table.elim_le_total id p.shares account

theorem available_eq {p : SharePool} (hf : p.funds < Amount.limit) (now : Nat) :
    p.available now = p.collateral + p.schedule.unreleased now := by
  have := p.schedule.unreleased_le_remaining now
  simp only [funds] at hf
  exact Amount.satAdd_of_lt (by lia)

theorem available_le_funds {p : SharePool} (hf : p.funds < Amount.limit) (now : Nat) :
    p.available now ≤ p.funds := by
  have := p.schedule.unreleased_le_remaining now
  rw [available_eq hf, funds]
  lia

theorem Sound.le_available {p : SharePool} (h : p.Sound) (hf : p.funds < Amount.limit) (now : Nat) :
    p.totalShares ≤ p.available now := by
  have := h.backed
  rw [available_eq hf]
  lia

theorem Sound.available_eq_zero {p : SharePool} (h : p.Sound) (hf : p.funds < Amount.limit)
    (h0 : p.totalShares = 0) (now : Nat) : p.available now = 0 := by
  obtain ⟨hcollateral, hremaining⟩ := h.idle h0
  have hle := p.schedule.unreleased_le_remaining now
  rw [available_eq hf]
  lia

/-! ### Settling and parking -/

/-- Settling moves what is released from the schedule to the collateral. -/
theorem remaining_settle {p : SharePool} (h : p.Sound) (now : Nat) :
    (p.settle now).schedule.remaining + p.schedule.unreleased now = p.schedule.remaining := by
  have hr := h.released_le
  have ha := h.amount_lt
  have hv := p.schedule.vested_le now
  have hsum : p.schedule.released + p.schedule.unreleased now < Amount.limit := by
    simp only [VestingSchedule.unreleased]
    lia
  simp only [settle, VestingSchedule.remaining, Amount.satAdd_of_lt hsum]
  simp only [VestingSchedule.unreleased] at *
  lia

theorem funds_settle {p : SharePool} (h : p.Sound) (hf : p.funds < Amount.limit) (now : Nat) :
    (p.settle now).funds = p.funds := by
  have hrem := remaining_settle h now
  have hcol : (p.settle now).collateral = p.collateral + p.schedule.unreleased now := available_eq hf now
  have hres : (p.settle now).reserve = p.reserve := rfl
  simp only [funds]
  lia

theorem Sound.settle {p : SharePool} (h : p.Sound) (hf : p.funds < Amount.limit) (now : Nat) :
    (p.settle now).Sound where
  total_shares := h.total_shares
  positive := h.positive
  released_le := by
    have hr := h.released_le
    have hv := p.schedule.vested_le now
    refine (Nat.min_le_left _ _).trans ?_
    simp only [SharePool.settle, VestingSchedule.unreleased]
    lia
  amount_lt := h.amount_lt
  backed := h.le_available hf now
  idle h0 := by
    obtain ⟨hc, hr⟩ := h.idle h0
    have hrem := remaining_settle h now
    refine ⟨?_, by lia⟩
    have : (p.settle now).collateral = p.collateral + p.schedule.unreleased now := available_eq hf now
    lia

theorem remaining_parkResidual (p : SharePool) : p.parkResidual.schedule.remaining = 0 :=
  Nat.sub_self _

theorem funds_parkResidual {p : SharePool} (hf : p.funds < Amount.limit) :
    p.parkResidual.funds = p.funds := by
  have hrem := remaining_parkResidual p
  simp only [funds] at *
  have hin : Amount.satAdd p.collateral p.schedule.remaining = p.collateral + p.schedule.remaining :=
    Amount.satAdd_of_lt (by lia)
  have hres : p.parkResidual.reserve = p.reserve + (p.collateral + p.schedule.remaining) := by
    simp only [parkResidual, hin]
    exact Amount.satAdd_of_lt (by lia)
  have hcol : p.parkResidual.collateral = 0 := rfl
  lia

theorem Sound.parkResidual {p : SharePool} (h : p.Sound) (h0 : p.totalShares = 0) :
    p.parkResidual.Sound where
  total_shares := h.total_shares
  positive := h.positive
  released_le := Nat.le_refl _
  amount_lt := h.amount_lt
  backed := Nat.le_of_eq h0
  idle _ := ⟨rfl, remaining_parkResidual p⟩

/-! ### Operations -/

theorem Sound.new {period : Nat} {p : SharePool} (h : SharePool.new period = .ok p) :
    p.Sound ∧ p.funds = 0 := by
  have hlimit : 0 < Amount.limit := by decide
  simp only [SharePool.new] at h
  split at h
  · cases h
  · cases h
    exact ⟨⟨rfl, fun _ _ hg => by simp at hg, Nat.le_refl _, hlimit, Nat.le_refl _,
      fun _ => ⟨rfl, rfl⟩⟩, rfl⟩

theorem Sound.setPeriod {p p' : SharePool} (h : p.Sound) {period : Nat}
    (hp : p.setPeriod period = .ok p') : p'.Sound ∧ p'.funds = p.funds := by
  simp only [SharePool.setPeriod] at hp
  split at hp
  · cases hp
  · cases hp
    exact ⟨⟨h.total_shares, h.positive, h.released_le, h.amount_lt, h.backed, h.idle⟩, rfl⟩

theorem Sound.minted_le {p : SharePool} (h : p.Sound) (hf : p.funds < Amount.limit)
    {amount minted : Amount} {now : Nat} (hp : p.previewDeposit amount now = .ok minted) :
    minted ≤ amount := by
  have hle := h.le_available hf now
  simp only [previewDeposit] at hp
  split at hp
  · cases hp
    exact Nat.le_refl _
  · split at hp
    · rename_i shares hs
      obtain ⟨-, rfl, -⟩ := Amount.mulDiv?_eq_some.1 hs
      cases hp
      apply Nat.div_le_of_le_mul
      rw [Nat.mul_comm]
      exact Nat.mul_le_mul_right _ hle
    · cases hp

theorem Tallied.total_insert {p : SharePool} (h : p.Tallied) (account : StakeAccount) (minted : Amount) :
    (p.shares.insert account (p.sharesOf account + minted)).total id = p.totalShares + minted := by
  have hins := Table.total_insert id p.shares account (p.sharesOf account + minted)
  rw [elim_shares, h.total_shares, id_eq] at hins
  lia

theorem deposit_eq {p : SharePool} (h : p.Sound) (account : StakeAccount) {amount minted : Amount}
    {now : Nat} (hf : p.funds + amount < Amount.limit) (ha : amount ≠ 0)
    (hp : p.previewDeposit amount now = .ok minted) (hm : minted ≠ 0) :
    p.deposit account amount now = .ok (minted,
      { (if p.totalShares = 0 then { (p.settle now).parkResidual with collateral := amount }
          else { p.settle now with collateral := p.available now + amount }) with
        totalShares := p.totalShares + minted
        shares := p.shares.insert account (p.sharesOf account + minted) }) := by
  have hf' : p.funds < Amount.limit := by lia
  have hav := available_le_funds hf' now
  have hle := h.le_available hf' now
  have hml := h.minted_le hf' hp
  have h1 : Amount.add? (p.available now) amount = some (p.available now + amount) :=
    Amount.add?_eq_some.2 ⟨rfl, by lia⟩
  have h2 : Amount.add? p.totalShares minted = some (p.totalShares + minted) :=
    Amount.add?_eq_some.2 ⟨rfl, by lia⟩
  simp only [deposit, ha, ↓reduceIte, hp, hm, h1, h2]

theorem Sound.deposit {p p' : SharePool} (h : p.Sound) {account : StakeAccount}
    {amount minted shares : Amount} {now : Nat} (hf : p.funds + amount < Amount.limit) (ha : amount ≠ 0)
    (hp : p.previewDeposit amount now = .ok minted) (hm : minted ≠ 0)
    (hd : p.deposit account amount now = .ok (shares, p')) :
    p'.Sound ∧ p'.funds = p.funds + amount := by
  have hf' : p.funds < Amount.limit := by lia
  have hset := h.settle hf' now
  have hfs := funds_settle h hf' now
  have hml := h.minted_le hf' hp
  have hle := h.le_available hf' now
  have hsum := h.tallied.total_insert account minted
  have hpos : ∀ a held, (p.shares.insert account (p.sharesOf account + minted)).get? a = some held →
      0 < held := by
    intro a held hg
    rw [Table.get?_insert] at hg
    split at hg
    · cases hg
      lia
    · exact h.positive a held hg
  rw [deposit_eq h account hf ha hp hm] at hd
  cases hd
  by_cases h0 : p.totalShares = 0
  · -- nobody held shares: what is left over waits in the reserve, and the deposit stands alone
    have hpark := hset.parkResidual h0
    have hfp := funds_parkResidual (p := p.settle now) (by lia)
    have hrem := remaining_parkResidual (p.settle now)
    simp only [h0, ↓reduceIte, Nat.zero_add] at hsum ⊢
    refine ⟨⟨hsum, hpos, hpark.released_le, hpark.amount_lt, hml, fun hz => absurd hz hm⟩, ?_⟩
    have hcol : (p.settle now).parkResidual.collateral = 0 := rfl
    simp only [funds] at *
    lia
  · simp only [h0, ↓reduceIte]
    refine ⟨⟨hsum, hpos, hset.released_le, hset.amount_lt, ?_, fun hz => ?_⟩, ?_⟩
    · show p.totalShares + minted ≤ p.available now + amount
      lia
    · have hz : p.totalShares + minted = 0 := hz
      lia
    · have hcol : (p.settle now).collateral = p.available now := rfl
      simp only [funds] at *
      lia

/-- Shares release their part of what is available. -/
theorem previewWithdraw_eq_ok {p : SharePool} {account : StakeAccount} {shares released : Amount}
    {now : Nat} (hp : p.previewWithdraw account shares now = .ok released) :
    shares ≤ p.sharesOf account ∧ released = shares * p.available now / p.totalShares := by
  simp only [previewWithdraw] at hp
  split at hp
  · cases hp
  · rename_i hheld
    refine ⟨by lia, ?_⟩
    split at hp
    · rename_i h0
      cases hp
      rw [h0, Nat.zero_mul, Nat.zero_div]
    · split at hp
      · rename_i amount hm
        obtain ⟨-, hq, -⟩ := Amount.mulDiv?_eq_some.1 hm
        cases hp
        exact hq.symm
      · cases hp

/-- Burning shares releases no more than is available, and leaves a unit for every share that stays. -/
theorem Sound.released_le_available {p : SharePool} (h : p.Sound) (hf : p.funds < Amount.limit)
    {account : StakeAccount} {shares released : Amount} {now : Nat}
    (hp : p.previewWithdraw account shares now = .ok released) :
    shares ≤ p.sharesOf account ∧ released + (p.totalShares - shares) ≤ p.available now := by
  have hle := h.le_available hf now
  have hall := h.tallied.sharesOf_le account
  obtain ⟨hheld, hreleased⟩ := previewWithdraw_eq_ok hp
  refine ⟨hheld, ?_⟩
  obtain ⟨rest, hrest⟩ : ∃ rest, p.totalShares = shares + rest := ⟨p.totalShares - shares, by lia⟩
  obtain ⟨spare, hspare⟩ : ∃ spare, p.available now = shares + rest + spare :=
    ⟨p.available now - p.totalShares, by lia⟩
  have hdiv : shares * (shares + rest + spare) / (shares + rest) ≤ shares + spare := by
    apply Nat.div_le_of_le_mul
    nlinarith [Nat.zero_le (rest * spare)]
  rw [hspare, hrest] at hreleased
  rw [hspare, hrest]
  lia

/-- A burn releases what its preview says. -/
theorem withdrawShares_eq {p : SharePool} {account : StakeAccount} {shares released : Amount} {now : Nat}
    (hp : p.previewWithdraw account shares now = .ok released) :
    ∃ p', p.withdrawShares account shares now = .ok (released, p') := by
  by_cases hs : shares = 0
  · subst hs
    simp only [previewWithdraw, Nat.not_lt_zero, ↓reduceIte, Except.ok.injEq] at hp
    subst hp
    exact ⟨p, by simp [withdrawShares, previewWithdraw]⟩
  · exact ⟨_, by simp only [withdrawShares, hp, hs, ↓reduceIte]; rfl⟩

/-- The pool after shares were burned for what they release, before anything is parked. -/
def burn (p : SharePool) (account : StakeAccount) (shares released : Amount) (now : Nat) : SharePool :=
  { p.settle now with
    shares := if p.sharesOf account = shares then p.shares.erase account
      else p.shares.insert account (p.sharesOf account - shares)
    totalShares := p.totalShares - shares
    collateral := p.available now - released }

/-- No shares release nothing. Others are burned for what their preview says, and the last ones leave the
rest parked. -/
theorem withdrawShares_cases {p p' : SharePool} {account : StakeAccount} {shares released : Amount}
    {now : Nat} (hw : p.withdrawShares account shares now = .ok (released, p')) :
    (p' = p ∧ released = 0) ∨
      p.previewWithdraw account shares now = .ok released ∧
        p' = if (p.burn account shares released now).totalShares = 0
          then (p.burn account shares released now).parkResidual
          else p.burn account shares released now := by
  simp only [SharePool.withdrawShares] at hw
  split at hw
  · cases hw
  · rename_i amount hp
    split at hw
    · cases hw
      exact .inl ⟨rfl, rfl⟩
    · cases hw
      exact .inr ⟨hp, rfl⟩

theorem get?_burn (p : SharePool) (account : StakeAccount) (shares released : Amount) (now : Nat)
    (a : StakeAccount) :
    (p.burn account shares released now).shares.get? a =
      if a = account then
        if p.sharesOf account = shares then none else some (p.sharesOf account - shares)
      else p.shares.get? a := by
  simp only [burn]
  by_cases hall : p.sharesOf account = shares
  · rw [if_pos hall, Table.get?_erase, if_pos hall]
  · rw [if_neg hall, Table.get?_insert, if_neg hall]

theorem Tallied.total_burn {p : SharePool} (h : p.Tallied) {account : StakeAccount} {shares : Amount}
    (hs : shares ≤ p.sharesOf account) (released : Amount) (now : Nat) :
    (p.burn account shares released now).shares.total id = p.totalShares - shares := by
  have hers := Table.total_erase id p.shares account
  have hins := Table.total_insert id p.shares account (p.sharesOf account - shares)
  rw [elim_shares, h.total_shares] at hers hins
  have hall := h.sharesOf_le account
  simp only [burn]
  split
  · lia
  · rw [id_eq] at hins
    lia

theorem funds_burn {p : SharePool} (h : p.Sound) (hf : p.funds < Amount.limit) (account : StakeAccount)
    (shares released : Amount) (now : Nat) (hle : released ≤ p.available now) :
    (p.burn account shares released now).funds + released = p.funds := by
  have hfs := funds_settle h hf now
  have hcol : (p.settle now).collateral = p.available now := rfl
  simp only [funds, burn] at *
  lia

theorem Sound.withdrawShares {p p' : SharePool} (h : p.Sound) (hf : p.funds < Amount.limit)
    {account : StakeAccount} {shares released : Amount} {now : Nat}
    (hw : p.withdrawShares account shares now = .ok (released, p')) :
    p'.Sound ∧ p'.funds + released = p.funds := by
  rcases withdrawShares_cases hw with ⟨rfl, rfl⟩ | ⟨hp, rfl⟩
  · exact ⟨h, Nat.add_zero _⟩
  · obtain ⟨hs, hrel⟩ := h.released_le_available hf hp
    have hset := h.settle hf now
    have htotal := h.tallied.total_burn hs released now
    have hfunds := funds_burn h hf account shares released now (by lia)
    have hpos : ∀ a held, (p.burn account shares released now).shares.get? a = some held →
        0 < held := by
      intro a held hg
      rw [get?_burn] at hg
      split at hg
      · split at hg
        · cases hg
        · cases hg
          lia
      · exact h.positive a held hg
    by_cases h0 : (p.burn account shares released now).totalShares = 0
    · -- the last shares: what is left goes to the reserve
      have hpark := funds_parkResidual (p := p.burn account shares released now) (by lia)
      rw [if_pos h0]
      refine ⟨⟨htotal, hpos, Nat.le_refl _, hset.amount_lt, Nat.le_of_eq h0,
        fun _ => ⟨rfl, remaining_parkResidual _⟩⟩, by lia⟩
    · rw [if_neg h0]
      refine ⟨⟨htotal, hpos, hset.released_le, hset.amount_lt, ?_, fun hz => absurd hz h0⟩, hfunds⟩
      show p.totalShares - shares ≤ p.available now - released
      lia

/-- What a distribution leaves: a schedule for its amount and the reserve, on a pool that had none
running. -/
theorem distribute_eq_ok {p p' : SharePool} {amount : Amount} {now : Nat} {schedule : VestingSchedule}
    (hd : p.distribute amount now = .ok (schedule, p')) :
    p.totalShares ≠ 0 ∧ ¬ p.schedule.isActive now ∧ amount + p.reserve < Amount.limit ∧
      schedule = ⟨amount + p.reserve, now, now + p.period, 0⟩ ∧
      p' = { p.settle now with reserve := 0, schedule } := by
  simp only [SharePool.distribute, checkDistribute] at hd
  split at hd
  · cases hd
  · rename_i hcheck
    split at hcheck
    · cases hcheck
    · rename_i hready
      obtain ⟨h0, hended⟩ := not_or.1 hready
      split at hd
      · cases hd
      · split at hd
        · rename_i earnings finish he hfin
          obtain ⟨rfl, hlt⟩ := Amount.add?_eq_some.1 he
          obtain ⟨-, rfl⟩ : now + p.period < Word.limit ∧ now + p.period = finish := by
            simpa [Word.add?] using hfin
          cases hd
          exact ⟨h0, hended, hlt, rfl, rfl⟩
        · cases hd

/-- Whether a distribution that was let in is refused is decided by the last block alone. -/
theorem distribute_eq_error {p : SharePool} {amount : Amount} {now : Nat}
    (hready : p.checkDistribute now = .ok ()) (ha : amount ≠ 0)
    (hroom : p.funds + amount < Amount.limit) :
    (∃ e, p.distribute amount now = .error e) ↔ Word.limit ≤ now + p.period := by
  have hreserve : amount + p.reserve < Amount.limit := by
    simp only [funds] at hroom
    lia
  simp only [distribute, hready, ha, ↓reduceIte, Amount.add?, hreserve, Word.add?]
  by_cases hend : now + p.period < Word.limit
  · simp [hend]
  · simp [hend, Nat.not_lt.1 hend]

theorem Sound.distribute {p p' : SharePool} (h : p.Sound) {amount : Amount} {now : Nat}
    (hf : p.funds + amount < Amount.limit) {schedule : VestingSchedule}
    (hd : p.distribute amount now = .ok (schedule, p')) :
    p'.Sound ∧ p'.funds = p.funds + amount := by
  obtain ⟨h0, hended, hlt, rfl, rfl⟩ := distribute_eq_ok hd
  have hf' : p.funds < Amount.limit := by lia
  have hset := h.settle hf' now
  have hav := available_eq hf' now
  rw [VestingSchedule.unreleased_of_inactive hended] at hav
  have hcol : (p.settle now).collateral = p.available now := rfl
  refine ⟨⟨hset.total_shares, hset.positive, Nat.zero_le _, hlt, hset.backed,
    fun hz => absurd hz h0⟩, ?_⟩
  simp only [funds, VestingSchedule.remaining] at *
  lia

end SharePool

end PriceOracle
