import PriceOracle.Proofs.Registry.Identities
/-! What operations on the registry do to the entry of each owner, wherever it stands: another stake, a
pair more or less, a new entry or none. Only the two that list pairs and the one that removes change which
pairs an owner's oracle lists. -/
namespace PriceOracle.Registry

/-- An owner's oracle lists a pair as subscribed. -/
def Lists (r : Registry) (owner : Address) (pair : CoinPair) : Prop :=
  ∃ e, r.get? owner = some e ∧ e.isSubscribed pair

variable {r r' : Registry} {owner other : Address} {pair p : CoinPair}

theorem Lists.isRegistered (h : r.Lists owner pair) : r.isRegistered owner := by
  obtain ⟨e, he, -⟩ := h
  rw [Registry.isRegistered, he]
  rfl

/-- What is listed depends on the listed pairs of the entries alone. -/
theorem lists_congr (h : (r'.get? owner).map (·.subscribedPairs) = (r.get? owner).map (·.subscribedPairs)) :
    r'.Lists owner pair ↔ r.Lists owner pair := by
  have lists_iff : ∀ x : Registry, x.Lists owner pair ↔
      ∃ pairs, (x.get? owner).map (·.subscribedPairs) = some pairs ∧ pairs.contains pair := by
    intro x
    simp only [Lists, OracleEntry.isSubscribed, Option.map_eq_some_iff]
    exact ⟨fun ⟨e, he, hp⟩ => ⟨_, ⟨e, he, rfl⟩, hp⟩, fun ⟨_, ⟨e, he, heq⟩, hp⟩ => ⟨e, he, heq ▸ hp⟩⟩
  rw [lists_iff, lists_iff, h]

/-! ### Look-ups -/

/-- An entry in its place is found under its owner, and the others under theirs. -/
theorem find?_place {e : OracleEntry} {xs : List OracleEntry} (h : ∀ x ∈ xs, x.owner ≠ e.owner)
    (other : Address) : (place e xs).find? (·.owner = other)
      = if other = e.owner then some e else xs.find? (·.owner = other) := by
  induction xs with
  | nil =>
    by_cases heq : other = e.owner
    · simp [place, heq]
    · simp [place, heq, Ne.symm heq]
  | cons x xs ih =>
    have hx : x.owner ≠ e.owner := h x (by simp)
    have ih := ih fun y hy => h y (by simp [hy])
    unfold place
    split
    · by_cases heq : other = e.owner
      · simp [heq]
      · simp [heq, List.find?_cons, Ne.symm heq]
    · rw [List.find?_cons, List.find?_cons, ih]
      by_cases heq : other = e.owner
      · simp [heq, hx]
      · simp [heq]

theorem get?_restake (r : Registry) (e : OracleEntry) (stake : Amount) (other : Address) :
    (r.restake e stake).get? other = if other = e.owner then some { e with stake } else r.get? other := by
  have hothers : ∀ x ∈ r.others e.owner, x.owner ≠ ({ e with stake } : OracleEntry).owner := by
    intro x hx
    simpa using (List.mem_filter.1 hx).2
  have hplace := find?_place hothers other
  rw [find?_others] at hplace
  show (place { e with stake } (r.others e.owner)).find? (·.owner = other) = _
  rw [hplace]
  by_cases heq : other = e.owner <;> simp [heq]

theorem get?_register {address : Address} {name : String} {stake : Amount} {hint : Option PrevHint}
    {entry : OracleEntry} (h : r.register owner address name stake hint = .ok (entry, r'))
    (other : Address) :
    r'.get? other = if other = owner then some ⟨owner, address, name, stake, .empty, r.nextSeq⟩
      else r.get? other := by
  have hnew := (identities_register h).1
  have hfresh : ∀ x ∈ r.entries, x.owner ≠ owner := by
    intro x hx
    simpa using List.find?_eq_none.1 hnew x hx
  unfold Registry.register at h
  repeat' split at h
  all_goals cases h
  exact find?_place hfresh other

/-- With one oracle an owner, setting the stakes of some entries to what a measure of their owners says
does so in every look-up. -/
theorem get?_foldl_restake (other : Address) (stakeOf : Address → Amount) {es : List OracleEntry} :
    ∀ {r : Registry}, (es.map (·.owner)).Nodup → (∀ e ∈ es, r.get? e.owner = some e) →
    (es.foldl (fun r e => if stakeOf e.owner = e.stake then r else r.restake e (stakeOf e.owner)) r).get?
        other
      = (r.get? other).map fun e =>
          if other ∈ es.map (·.owner) then { e with stake := stakeOf other } else e := by
  induction es with
  | nil =>
    intro r _ _
    simp
  | cons e es ih =>
    intro r hnodup hfound
    rw [List.map_cons, List.nodup_cons] at hnodup
    obtain ⟨hnew, hnodup⟩ := hnodup
    have he : r.get? e.owner = some e := hfound e (by simp)
    -- the first entry gets its stake, and the others are found as before
    have hstep : ∀ o, (if stakeOf e.owner = e.stake then r else r.restake e (stakeOf e.owner)).get? o
        = if o = e.owner then some { e with stake := stakeOf e.owner } else r.get? o := by
      intro o
      by_cases hsame : stakeOf e.owner = e.stake
      · rw [if_pos hsame]
        by_cases heq : o = e.owner
        · rw [if_pos heq, heq, he, hsame]
        · rw [if_neg heq]
      · rw [if_neg hsame, get?_restake]
    have hrest : ∀ x ∈ es, (if stakeOf e.owner = e.stake then r
        else r.restake e (stakeOf e.owner)).get? x.owner = some x := by
      intro x hx
      have hne : x.owner ≠ e.owner := fun heq => hnew (heq ▸ List.mem_map_of_mem hx)
      rw [hstep, if_neg hne]
      exact hfound x (by simp [hx])
    rw [List.foldl_cons, ih hnodup hrest, hstep]
    by_cases heq : other = e.owner
    · subst heq
      simp [hnew, he]
    · simp [heq]

/-! ### Lists -/

theorem get?_enlist (r : Registry) (owner : Address) (pair : CoinPair) (other : Address) :
    (r.enlist owner pair).get? other = (r.get? other).map fun e =>
      if other = owner then { e with subscribedPairs := e.subscribedPairs.add pair } else e :=
  get?_update r owner (f := fun e => { e with subscribedPairs := e.subscribedPairs.add pair })
    (fun _ => rfl) other

theorem get?_delist (r : Registry) (owner : Address) (pair : CoinPair) (other : Address) :
    (r.delist owner pair).get? other = (r.get? other).map fun e =>
      if other = owner then { e with subscribedPairs := e.subscribedPairs.erase pair } else e :=
  get?_update r owner (f := fun e => { e with subscribedPairs := e.subscribedPairs.erase pair })
    (fun _ => rfl) other

theorem lists_enlist (hr : r.isRegistered owner) :
    (r.enlist owner pair).Lists other p ↔ (other = owner ∧ p = pair) ∨ r.Lists other p := by
  unfold Lists
  rw [get?_enlist]
  by_cases heq : other = owner
  · subst heq
    obtain ⟨e, he⟩ := Option.isSome_iff_exists.1 hr
    have hadd := Table.contains_insert e.subscribedPairs pair p ()
    simp only [he, Option.map_some, ↓reduceIte, Option.some.injEq, exists_eq_left', true_and]
    exact hadd
  · cases hg : r.get? other <;> simp [heq]

theorem lists_delist :
    (r.delist owner pair).Lists other p ↔ ¬ (other = owner ∧ p = pair) ∧ r.Lists other p := by
  unfold Lists
  rw [get?_delist]
  cases hg : r.get? other with
  | none => simp
  | some e =>
    by_cases heq : other = owner
    · have herase := Table.contains_erase e.subscribedPairs pair p
      simp only [heq, Option.map_some, ↓reduceIte, Option.some.injEq, exists_eq_left', true_and]
      exact herase
    · simp [heq]

theorem lists_foldl_delist {α : Type} (owner : α → Address) (pair : α → CoinPair) (xs : List α) :
    ∀ r : Registry, (xs.foldl (fun r x => r.delist (owner x) (pair x)) r).Lists other p ↔
      (∀ x ∈ xs, ¬ (other = owner x ∧ p = pair x)) ∧ r.Lists other p := by
  induction xs with
  | nil =>
    intro r
    simp
  | cons x xs ih =>
    intro r
    rw [List.foldl_cons, ih, lists_delist, List.forall_mem_cons, ← and_assoc]
    constructor
    · rintro ⟨⟨hxs, hx⟩, hl⟩
      exact ⟨⟨hx, hxs⟩, hl⟩
    · rintro ⟨⟨hx, hxs⟩, hl⟩
      exact ⟨⟨hxs, hx⟩, hl⟩

theorem lists_register {address : Address} {name : String} {stake : Amount} {hint : Option PrevHint}
    {entry : OracleEntry} (h : r.register owner address name stake hint = .ok (entry, r')) :
    r'.Lists other p ↔ r.Lists other p := by
  have hnew := (identities_register h).1
  unfold Lists
  rw [get?_register h]
  by_cases heq : other = owner
  · subst heq
    simp only [↓reduceIte, Option.some.injEq, exists_eq_left', hnew]
    exact iff_of_false (by simp [OracleEntry.isSubscribed, Table.contains]) (by simp)
  · simp [heq]

theorem lists_setName {name : String} (h : r.setName owner name = .ok r') :
    r'.Lists other p ↔ r.Lists other p := by
  unfold Registry.setName at h
  split at h
  · cases h
    refine lists_congr ?_
    rw [get?_update r owner (f := ({ · with name })) fun _ => rfl, Option.map_map]
    congr 1
    funext e
    rw [Function.comp_apply]
    split <;> rfl
  · cases h

theorem lists_remove {e : OracleEntry} (h : r.remove owner = .ok (e, r')) :
    r'.Lists other p ↔ other ≠ owner ∧ r.Lists other p := by
  unfold Lists
  rw [get?_remove h]
  by_cases heq : other = owner <;> simp [heq]

/-! ### Stakes -/

def stake? (r : Registry) (owner : Address) : Option Amount := (r.get? owner).map (·.stake)

theorem stake?_update (r : Registry) (owner : Address) {f : OracleEntry → OracleEntry}
    (howner : ∀ e, (f e).owner = e.owner) (hstake : ∀ e, (f e).stake = e.stake) (other : Address) :
    (r.update owner f).stake? other = r.stake? other := by
  rw [stake?, get?_update r owner howner, Option.map_map, stake?]
  congr 1
  funext e
  rw [Function.comp_apply]
  split
  · exact hstake e
  · rfl

theorem stake?_enlist (r : Registry) (owner : Address) (pair : CoinPair) (other : Address) :
    (r.enlist owner pair).stake? other = r.stake? other :=
  stake?_update r owner (f := fun e => { e with subscribedPairs := e.subscribedPairs.add pair })
    (fun _ => rfl) (fun _ => rfl) other

theorem stake?_delist (r : Registry) (owner : Address) (pair : CoinPair) (other : Address) :
    (r.delist owner pair).stake? other = r.stake? other :=
  stake?_update r owner (f := fun e => { e with subscribedPairs := e.subscribedPairs.erase pair })
    (fun _ => rfl) (fun _ => rfl) other

theorem stake?_foldl_delist {α : Type} (owner : α → Address) (pair : α → CoinPair) (other : Address)
    (xs : List α) : ∀ r : Registry,
    (xs.foldl (fun r x => r.delist (owner x) (pair x)) r).stake? other = r.stake? other := by
  induction xs with
  | nil => exact fun _ => rfl
  | cons x xs ih =>
    intro r
    rw [List.foldl_cons, ih, stake?_delist]

theorem stake?_setName {name : String} (h : r.setName owner name = .ok r') (other : Address) :
    r'.stake? other = r.stake? other := by
  unfold Registry.setName at h
  split at h
  · cases h
    exact stake?_update r owner (f := ({ · with name })) (fun _ => rfl) (fun _ => rfl) other
  · cases h

theorem stake?_register {address : Address} {name : String} {stake : Amount} {hint : Option PrevHint}
    {entry : OracleEntry} (h : r.register owner address name stake hint = .ok (entry, r'))
    (other : Address) : r'.stake? other = if other = owner then some stake else r.stake? other := by
  rw [stake?, get?_register h]
  split <;> rfl

theorem stake?_remove {e : OracleEntry} (h : r.remove owner = .ok (e, r')) (other : Address) :
    r'.stake? other = if other = owner then none else r.stake? other := by
  rw [stake?, get?_remove h]
  split <;> rfl

end PriceOracle.Registry
