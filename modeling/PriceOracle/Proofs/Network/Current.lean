import PriceOracle.Proofs.Network.Refresh
import PriceOracle.Proofs.Staking.Holders
/-! Registered stakes never run ahead of balances. As long as blocks do not go back and nobody acts for the
accounts of staking, nothing but a withdrawal of one's own lowers what one's own account is worth, and each
withdrawal brings all stakes up to date at once. So whenever stakes are brought up to date before a call,
none of them drops, and nobody is expelled or passes a seat on. -/
namespace PriceOracle.Network

/-- The stores are in order, staking is solvent, and no registered stake exceeds what its owner's own account
is worth at a block. -/
structure Current (n : Network) (now : Nat) : Prop where
  inOrder : n.InOrder
  account : n.staking.account = stakingAccount
  vault : n.staking.vault.account = vaultAccount
  solvent : n.staking.Solvent
  stake_le : ∀ owner s, n.registry.stake? owner = some s → s ≤ n.staking.pool.balanceOf (.own owner) now

variable {n n' : Network} {now later : Nat} {ctx : BlockContext}

theorem Current.mono (h : n.Current now) (hnow : now ≤ later) : n.Current later := by
  have hw : n.staking.pool.WorthLe now n.staking.pool later :=
    SharePool.WorthLe.rfl.mono (Nat.le_refl _) hnow
  have hmono : ∀ owner, n.staking.pool.balanceOf (.own owner) now
      ≤ n.staking.pool.balanceOf (.own owner) later := fun owner =>
    hw.balanceOf_le h.solvent.pool_sound.tallied h.solvent.pool_sound.tallied (Nat.le_refl _)
  exact ⟨h.inOrder, h.account, h.vault, h.solvent, fun owner s hs =>
    Nat.le_trans (h.stake_le owner s hs) (hmono owner)⟩

theorem Current.of_reaches (h : n.Current now) (hr : n.Reaches n') (hstaking : n'.staking = n.staking)
    (hstakes : ∀ owner s, n'.registry.stake? owner = some s →
      n.registry.stake? owner = some s ∨ s = n.staking.pool.balanceOf (.own owner) now) :
    n'.Current now := by
  refine ⟨h.inOrder.reaches hr, hstaking ▸ h.account, hstaking ▸ h.vault, hstaking ▸ h.solvent,
    fun owner s hs => ?_⟩
  rw [hstaking]
  rcases hstakes owner s hs with hold | rfl
  · exact h.stake_le owner s hold
  · exact Nat.le_refl _

theorem Current.congr (h : n.Current now) (hregistry : n'.registry = n.registry)
    (hfeeds : n'.feeds = n.feeds) (hstaking : n'.staking = n.staking) : n'.Current now :=
  h.of_reaches (.aside hregistry hfeeds) hstaking fun _ _ hs => .inl (hregistry ▸ hs)

theorem Current.withStaking (h : n.Current now) {s : Staking} (haccount : s.account = stakingAccount)
    (hvault : s.vault.account = vaultAccount) (hs : s.Solvent)
    (hle : ∀ owner t, n.registry.stake? owner = some t → t ≤ s.pool.balanceOf (.own owner) later) :
    ({ n with staking := s } : Network).Current later :=
  ⟨h.inOrder.reaches (.aside rfl rfl), haccount, hvault, hs, hle⟩

theorem Current.withLedger (h : n.Current now) {ledger : Ledger} (hb : ledger.Bounded)
    (hle : n.ledger.balanceOf stakingAccount ≤ ledger.balanceOf stakingAccount) :
    (n.withLedger ledger).Current now := by
  refine h.withStaking h.account h.vault ?_ h.stake_le
  refine ⟨h.solvent.pool_sound, h.solvent.numbered, hb, h.solvent.covered.trans ?_⟩
  rw [h.account]
  exact hle

/-! ### Refreshes -/

theorem current_refreshStakes (h : n.InOrder) (haccount : n.staking.account = stakingAccount)
    (hvault : n.staking.vault.account = vaultAccount) (hs : n.staking.Solvent) (ctx : BlockContext) :
    (n.refreshStakes ctx).Current ctx.number := by
  obtain ⟨hstaking, -, hstakes, -⟩ := settled_refreshStakes h ctx
  refine ⟨h.reaches (n.reaches_refreshStakes ctx), hstaking ▸ haccount, hstaking ▸ hvault, hstaking ▸ hs,
    fun owner s hs => ?_⟩
  rw [hstakes, Option.map_eq_some_iff] at hs
  obtain ⟨-, -, rfl⟩ := hs
  rw [hstaking]
  exact Nat.le_refl _

/-- A refresh at a later block sets the stakes, and that is all. -/
theorem Current.refreshStakes_eq (h : n.Current now) (hnow : now ≤ ctx.number) :
    n.refreshStakes ctx = { n with registry := n.restaked ctx } := by
  refine refreshStakes_of_le fun e he => ?_
  refine (h.mono hnow).stake_le e.owner e.stake ?_
  rw [Registry.stake?, (Registry.get?_eq_some h.inOrder.mirrored.unambiguous).2 ⟨he, rfl⟩]
  rfl

theorem Current.restaked (h : n.Current now) (hnow : now ≤ ctx.number) :
    ({ n with registry := n.restaked ctx } : Network).Current ctx.number := by
  rw [← h.refreshStakes_eq hnow]
  exact current_refreshStakes h.inOrder h.account h.vault h.solvent ctx

/-- If one owner's balance alone may have dropped, a refresh carries that one drop at most. -/
theorem refreshStakes_cases (hu : n.registry.Unambiguous) {owner : Address}
    (h : ∀ e ∈ n.registry.entries, n.staking.balance e.owner ctx < e.stake → e.owner = owner) :
    n.refreshStakes ctx = { n with registry := n.restaked ctx } ∨
      ∃ e ∈ n.registry.entries, e.owner = owner ∧ n.staking.balance owner ctx < e.stake ∧
        n.refreshStakes ctx = ({ n with registry := n.restaked ctx } : Network).carryDrop owner e.stake := by
  have hnodup : ((n.registry.entries.filter fun e =>
      n.staking.balance e.owner ctx < e.stake).map (·.owner)).Nodup :=
    hu.owners.sublist (List.filter_sublist.map _)
  have hdropped : ∀ e ∈ n.registry.entries.filter (fun e => n.staking.balance e.owner ctx < e.stake),
      e ∈ n.registry.entries ∧ e.owner = owner ∧ n.staking.balance e.owner ctx < e.stake := by
    intro e he
    obtain ⟨hmem, hlow⟩ := List.mem_filter.1 he
    have hlow := of_decide_eq_true hlow
    exact ⟨hmem, h e hmem hlow, hlow⟩
  unfold refreshStakes
  dsimp only
  generalize n.registry.entries.filter (fun e => n.staking.balance e.owner ctx < e.stake) = es
    at hnodup hdropped ⊢
  match es with
  | [] => exact .inl rfl
  | [e] =>
    obtain ⟨hmem, rfl, hlow⟩ := hdropped e (by simp)
    exact .inr ⟨e, hmem, rfl, hlow, rfl⟩
  | e :: e' :: es =>
    have hsame : e.owner = e'.owner :=
      (hdropped e (by simp)).2.1.trans (hdropped e' (by simp)).2.1.symm
    simp [hsame] at hnodup

/-! ### Staking -/

/-- A permitted step of staking keeps it solvent, and keeps up with the stakes of all owners but one who
withdraws from its own account. -/
theorem Current.after (h : n.Current now) (step : StakingStep)
    (hstep : step.Permitted stakingAccount vaultAccount) (hnow : now ≤ step.block now) :
    (n.staking.after step).account = stakingAccount ∧
      (n.staking.after step).vault.account = vaultAccount ∧ (n.staking.after step).Solvent ∧
      ∀ owner s, n.registry.stake? owner = some s → ¬ n.staking.TakesFrom (.own owner) step →
        s ≤ (n.staking.after step).pool.balanceOf (.own owner) (step.block now) := by
  rw [← h.account, ← h.vault] at hstep
  obtain ⟨haccount, hvault, hs⟩ := h.solvent.after hstep
  obtain ⟨hw, hshares⟩ := h.solvent.worthLe_after hstep hnow
  refine ⟨haccount.trans h.account, hvault.trans h.vault, hs, fun owner s hstake hkept => ?_⟩
  refine Nat.le_trans (h.stake_le owner s hstake) ?_
  exact hw.balanceOf_le h.solvent.pool_sound.tallied hs.pool_sound.tallied (hshares _ hkept)

theorem current_new {params : NetworkParams} {ledger : Ledger} (hledger : ledger.Balanced)
    (hn : Network.new params ledger = .ok n) : n.Current 0 := by
  have hinOrder := inOrder_new hn
  obtain ⟨staking, hs, rfl⟩ := new_eq_ok hn
  obtain ⟨haccount, hvault, hsolvent⟩ := Staking.solvent_new_of_bounded hledger.bounded hs
  exact ⟨hinOrder, haccount, hvault, hsolvent, fun owner s hs => by cases hs⟩

end PriceOracle.Network
