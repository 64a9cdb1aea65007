import PriceOracle.Proofs.Feed.Ranking
import PriceOracle.Proofs.Feed.Replay
/-! The pace of rounds. A switch that is accepted comes after the lock of the round that it ends, and locks
the next one for the period then in force, which no later change of the parameters shortens. No other call
touches the number of the round or its lock. As every period is a second at least, the lock leaves the number
behind, so the number never comes near the largest word. -/
namespace PriceOracle.PriceFeed

variable {L : Type} [CollateralLedger L] {f f' f'' : PriceFeed}

/-! ### What calls keep -/

def Call.KeepsRound : Call L → Prop
  | switchRound .. => False
  | _ => True

/-- The same round, with other seats at most. -/
def SameRound (f f' : PriceFeed) : Prop := ∃ seats, f'.round = { f.round with seats }

theorem SameRound.refl (f : PriceFeed) : f.SameRound f := ⟨f.round.seats, rfl⟩

theorem SameRound.trans (h : f.SameRound f') (h' : f'.SameRound f'') : f.SameRound f'' := by
  obtain ⟨seats, hround⟩ := h
  obtain ⟨seats', hround'⟩ := h'
  exact ⟨seats', by rw [hround', hround]⟩

theorem sameRound_foldl_drop (dropped : List Address) (f : PriceFeed) :
    f.SameRound (dropped.foldl drop f) :=
  ⟨_, by rw [foldl_drop_eq]⟩

theorem sameRound_enlist (f : PriceFeed) (owner address : Address) :
    f.SameRound (f.enlist owner address).2 := by
  unfold enlist
  dsimp only
  split
  · exact ⟨_, rfl⟩
  · split
    · exact ⟨_, rfl⟩
    · exact ⟨_, rfl⟩

omit [CollateralLedger L] in
/-- Only a switch ends a round. -/
theorem sameRound_of_effect {call : Call L} (h : f.Effect call f') (hcall : call.KeepsRound) :
    f.SameRound f' := by
  cases h with
  | idle | readers | publishers => exact .refl f
  | @listed owner _ e evicted he hnew hevicted =>
    have henlist := (evicted.elim f f.drop).sameRound_enlist owner e.address
    cases evicted with
    | none => exact henlist
    | some tail => exact SameRound.trans ⟨_, rfl⟩ henlist
  | dropped | expelled | yielded => exact ⟨_, rfl⟩
  | published hp =>
    obtain ⟨-, seat, -, -, -, rfl⟩ := publish_eq_ok.1 hp
    exact ⟨_, rfl⟩
  | emergency hp =>
    obtain ⟨-, rfl, -⟩ := emergencyPublish_eq_ok hp
    exact ⟨_, rfl⟩
  | switched => exact absurd hcall id
  | @capped value _ dropped _ hs =>
    obtain ⟨-, -, rfl⟩ := setMaxSubscribed_eq_ok hs
    exact sameRound_foldl_drop dropped { f with params := { f.params with maxSubscribed := value } }
  | params hp hcap =>
    obtain ⟨-, rfl⟩ := withParams_eq_ok hp
    exact .refl f

omit [CollateralLedger L] in
theorem valid_of_effect {call : Call L} (h : f.Effect call f') (hvalid : f.params.validate = .ok ()) :
    f'.params.validate = .ok () := by
  cases h with
  | idle | dropped | expelled | yielded | switched | readers | publishers => exact hvalid
  | @listed owner _ e evicted he hnew hevicted =>
    rw [(f.sameTerms_listed evicted owner e.address).2]
    exact hvalid
  | published hp =>
    obtain ⟨-, seat, -, -, -, rfl⟩ := publish_eq_ok.1 hp
    exact hvalid
  | emergency hp =>
    obtain ⟨-, rfl, -⟩ := emergencyPublish_eq_ok hp
    exact hvalid
  | @capped value _ dropped _ hs =>
    obtain ⟨hvalid', -, rfl⟩ := setMaxSubscribed_eq_ok hs
    rw [(sameTerms_foldl_drop dropped _).2]
    exact hvalid'
  | params hp hcap =>
    obtain ⟨hvalid', rfl⟩ := withParams_eq_ok hp
    exact hvalid'

omit [CollateralLedger L] in
theorem pair_of_effect {call : Call L} (h : f.Effect call f') : f'.pair = f.pair := by
  cases h with
  | idle | dropped | expelled | yielded | switched | readers | publishers => rfl
  | @listed owner _ e evicted he hnew hevicted => exact (f.sameTerms_listed evicted owner e.address).1
  | published hp =>
    obtain ⟨-, seat, -, -, -, rfl⟩ := publish_eq_ok.1 hp
    rfl
  | emergency hp =>
    obtain ⟨-, rfl, -⟩ := emergencyPublish_eq_ok hp
    rfl
  | @capped value _ dropped _ hs =>
    obtain ⟨-, -, rfl⟩ := setMaxSubscribed_eq_ok hs
    exact (sameTerms_foldl_drop dropped { f with params := { f.params with maxSubscribed := value } }).1
  | params hp hcap =>
    obtain ⟨-, rfl⟩ := withParams_eq_ok hp
    rfl

/-! ### The lock -/

/-- A switch is refused and leaves the feed alone, or comes after the lock and locks the next round for the
period. -/
theorem switchRound_state (f : PriceFeed) (registry : Registry) (ledger : L) (ctx : BlockContext) :
    (∃ e, (f.switchRound registry ledger ctx).result = .error e ∧
      (f.switchRound registry ledger ctx).state.1 = f) ∨
    ∃ outcome, (f.switchRound registry ledger ctx).result = .ok outcome ∧
      f.round.lockUntil < ctx.timestamp ∧ ctx.timestamp + f.params.lockPeriod < Word.limit ∧
      (f.switchRound registry ledger ctx).state.1
        = f.nextRound (f.selection registry) (ctx.timestamp + f.params.lockPeriod) := by
  unfold switchRound
  split
  · exact .inl ⟨_, rfl, rfl⟩
  rename_i hdue
  split
  · exact .inl ⟨_, rfl, rfl⟩
  rename_i lockUntil hlock
  unfold Word.add? at hlock
  split at hlock
  · rename_i hfits
    cases hlock
    split
    · exact .inl ⟨_, rfl, rfl⟩
    split
    · exact .inl ⟨_, rfl, rfl⟩
    · exact .inr ⟨_, rfl, Nat.not_le.1 hdue, hfits, rfl⟩
  · cases hlock

/-- The moment at which a call switches rounds. -/
def switchedAt? (f : PriceFeed) : Call L → Option Nat
  | .switchRound registry ledger ctx =>
    if (f.switchRound registry ledger ctx).result.isOk then some ctx.timestamp else none
  | _ => none

/-- What a switch at some moment does to the round. -/
theorem switched_of_switchedAt? {call : Call L} {moment : Nat} (h : f.switchedAt? call = some moment) :
    ∃ selected, f.after call = f.nextRound selected (moment + f.params.lockPeriod) ∧
      f.round.lockUntil < moment ∧ moment + f.params.lockPeriod < Word.limit := by
  cases call with
  | switchRound registry ledger ctx =>
    simp only [switchedAt?] at h
    rcases f.switchRound_state registry ledger ctx with ⟨e, herror, -⟩ | ⟨outcome, hok, hdue, hfits, hnext⟩
    · rw [herror] at h
      cases h
    · rw [hok] at h
      cases h
      exact ⟨f.selection registry, hnext, hdue, hfits⟩
  | _ => cases h

/-- All other calls leave the round with its number and its lock. -/
theorem sameRound_of_switchedAt? {call : Call L} (h : f.switchedAt? call = none) :
    f.SameRound (f.after call) := by
  by_cases hcall : call.KeepsRound
  · exact sameRound_of_effect (effect_after f call) hcall
  · cases call with
    | switchRound registry ledger ctx =>
      simp only [switchedAt?] at h
      rcases f.switchRound_state registry ledger ctx with ⟨e, -, hkept⟩ | ⟨outcome, hok, -⟩
      · simp only [after, hkept]
        exact .refl f
      · rw [hok] at h
        cases h
    | _ => exact absurd trivial hcall

/-- The lock never moves back. -/
theorem lockUntil_le_after (f : PriceFeed) (call : Call L) :
    f.round.lockUntil ≤ (f.after call).round.lockUntil := by
  cases hswitch : f.switchedAt? call with
  | none =>
    obtain ⟨seats, hround⟩ := sameRound_of_switchedAt? hswitch
    rw [hround]
  | some moment =>
    obtain ⟨selected, hnext, hdue, -⟩ := switched_of_switchedAt? hswitch
    rw [hnext]
    show f.round.lockUntil ≤ moment + f.params.lockPeriod
    omega

theorem lockUntil_le_run (f : PriceFeed) (calls : List (Call L)) :
    f.round.lockUntil ≤ (f.run calls).round.lockUntil :=
  run_induction (f.round.lockUntil ≤ ·.round.lockUntil)
    (fun hle _ => Nat.le_trans hle (lockUntil_le_after _ _)) (Nat.le_refl _) fun _ _ => trivial

/-! ### The number -/

/-- The lock has moved on with the number of the round. -/
structure Paced (f : PriceFeed) : Prop where
  valid : f.params.validate = .ok ()
  number_le : 2 * f.round.number ≤ f.round.lockUntil + 2
  lock_lt : f.round.lockUntil < Word.limit

theorem paced_start {pair : CoinPair} {params : RoundParams} {ctx : BlockContext}
    (h : PriceFeed.start pair params ctx = .ok f) : f.round = .initial ∧ f.Paced := by
  unfold PriceFeed.start at h
  split at h
  · cases h
  · rename_i hvalid
    cases h
    exact ⟨rfl, hvalid, Nat.le_refl 2, (by decide : 0 < Word.limit)⟩

theorem Paced.after (h : f.Paced) (call : Call L) : (f.after call).Paced := by
  have hvalid := valid_of_effect (effect_after f call) h.valid
  cases hswitch : f.switchedAt? call with
  | none =>
    obtain ⟨seats, hround⟩ := sameRound_of_switchedAt? hswitch
    refine ⟨hvalid, ?_, ?_⟩
    · rw [hround]
      exact h.number_le
    · rw [hround]
      exact h.lock_lt
  | some moment =>
    obtain ⟨selected, hnext, hdue, hfits⟩ := switched_of_switchedAt? hswitch
    obtain ⟨-, -, -, hperiod, -⟩ := RoundParams.validate_eq_ok.1 h.valid
    have hnumber := h.number_le
    refine ⟨hvalid, ?_, ?_⟩
    · rw [hnext]
      show 2 * (f.round.number + 1) ≤ moment + f.params.lockPeriod + 2
      omega
    · rw [hnext]
      exact hfits

theorem Paced.run (h : f.Paced) (calls : List (Call L)) : (f.run calls).Paced :=
  run_induction Paced (fun h _ => h.after _) h fun _ _ => trivial

/-- On a number that rounds can have, a sum held at the largest word compares like the sum. -/
theorem Paced.satAdd_le_iff (h : f.Paced) (number rounds : Nat) :
    Word.satAdd number rounds ≤ f.round.number ↔ number + rounds ≤ f.round.number := by
  have hnumber := h.number_le
  have hlock := h.lock_lt
  rw [Word.limit] at hlock
  rw [Word.satAdd, Word.max, Word.limit]
  omega

/-- From the start of a feed, over any calls at any moments, accepted or refused. The first round has number
one. A switch moves the number on by one and the lock to a later moment, and no other call touches either. Any
later switch comes after the whole period that was in force at the first one has passed, whatever was set in
between. The number is at most one more than the lock, and the next number is a word. -/
theorem rounds_paced {pair : CoinPair} {params : RoundParams} {ctx : BlockContext}
    (hf : PriceFeed.start pair params ctx = .ok f) (calls : List (Call L)) :
    f.round.number = 1 ∧
      (f.run calls).round.number ≤ (f.run calls).round.lockUntil + 1 ∧
      (f.run calls).round.number + 1 < Word.limit ∧
      (∀ call : Call L,
        (((f.run calls).switchedAt? call).isSome →
          ((f.run calls).after call).round.number = (f.run calls).round.number + 1 ∧
            (f.run calls).round.lockUntil < ((f.run calls).after call).round.lockUntil) ∧
        (((f.run calls).switchedAt? call).isNone →
          ((f.run calls).after call).round.number = (f.run calls).round.number ∧
            ((f.run calls).after call).round.lockUntil = (f.run calls).round.lockUntil)) ∧
      ∀ (call next : Call L) (between : List (Call L)) (moment later : Nat),
        (f.run calls).switchedAt? call = some moment →
        (f.run (calls ++ call :: between)).switchedAt? next = some later →
          moment + (f.run calls).params.lockPeriod < later := by
  obtain ⟨hinitial, hstart⟩ := paced_start hf
  have hpaced := hstart.run calls
  have hnumber := hpaced.number_le
  have hlock := hpaced.lock_lt
  refine ⟨by rw [hinitial]; rfl, by omega, by rw [Word.limit] at hlock ⊢; omega, fun call => ⟨?_, ?_⟩, ?_⟩
  · intro hswitch
    obtain ⟨moment, hswitch⟩ := Option.isSome_iff_exists.1 hswitch
    obtain ⟨selected, hnext, hdue, -⟩ := switched_of_switchedAt? hswitch
    rw [hnext]
    refine ⟨rfl, ?_⟩
    show _ < moment + (f.run calls).params.lockPeriod
    omega
  · intro hkept
    obtain ⟨seats, hround⟩ := sameRound_of_switchedAt? (Option.isNone_iff_eq_none.1 hkept)
    rw [hround]
    exact ⟨rfl, rfl⟩
  · intro call next between moment later hswitch hlater
    obtain ⟨selected, hnext, -⟩ := switched_of_switchedAt? hswitch
    obtain ⟨-, -, hdue, -⟩ := switched_of_switchedAt? hlater
    -- the lock that the first switch set is still there, or a later one
    have hrun : f.run (calls ++ call :: between) = ((f.run calls).after call).run between :=
      List.foldl_append ..
    have hle := ((f.run calls).after call).lockUntil_le_run between
    rw [hrun] at hdue
    rw [hnext] at hdue hle
    exact Nat.lt_of_le_of_lt hle hdue

/-- The period is cut to a second after a switch, but the lock stays: a switch a minute later is refused, and
one more second later it is accepted. -/
theorem rounds_paced_of_shorter_period :
    let f : PriceFeed := ⟨default, {}, .initial, .empty, .empty, 100000000, 5, 50, .empty, .empty⟩
    let switch (number timestamp : Nat) : Call Ledger := .switchRound .empty default ⟨number, timestamp⟩
    let between : List (Call Ledger) := [.setLockPeriod 1, switch 11 160]
    PriceFeed.start default {} ⟨5, 50⟩ = .ok f ∧
      f.switchedAt? (switch 10 100) = some 100 ∧
      (f.run (switch 10 100 :: between)).switchedAt? (switch 12 161) = some 161 ∧
      100 + f.params.lockPeriod < 161 := by
  intro f switch between
  have hf : PriceFeed.start default {} ⟨5, 50⟩ = .ok f := rfl
  have hfirst : f.switchedAt? (switch 10 100) = some 100 := by decide +kernel
  have hsecond : (f.run (switch 10 100 :: between)).switchedAt? (switch 12 161) = some 161 := by
    decide +kernel
  obtain ⟨-, -, -, -, hspaced⟩ := rounds_paced hf ([] : List (Call Ledger))
  exact ⟨hf, hfirst, hsecond, hspaced (switch 10 100) (switch 12 161) between 100 161 hfirst hsecond⟩

end PriceOracle.PriceFeed
