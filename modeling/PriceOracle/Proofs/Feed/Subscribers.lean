import PriceOracle.Proofs.Feed.Publication
/-! Who is subscribed to a feed, and how many. A list within its cap stays within it: a newcomer to a full
list takes the place of its tail, and a lower cap drops as many as are too many. Both look for the ones to
go in the registry, so they find enough of them only if every subscriber is registered. -/
namespace PriceOracle

theorem RoundParams.validate_eq_ok {p : RoundParams} :
    p.validate = .ok () ↔ 0 < p.minOracles ∧ p.minOracles ≤ p.maxOracles ∧
      p.maxOracles ≤ p.maxSubscribed ∧ 0 < p.lockPeriod ∧ 0 < p.emergencyPeriod := by
  unfold validate
  repeat' split
  all_goals simp only [reduceCtorEq, false_iff, true_iff]
  all_goals omega

theorem RoundParams.maxSubscribed_pos {p : RoundParams} (h : p.validate = .ok ()) :
    0 < p.maxSubscribed := by
  obtain ⟨hmin, hmax, hcap, -⟩ := validate_eq_ok.1 h
  omega

namespace PriceFeed

variable {f f' : PriceFeed} {owner other : Address} {registry : Registry}

/-! ### The list -/

theorem isSubscribed_drop : (f.drop owner).isSubscribed other ↔ other ≠ owner ∧ f.isSubscribed other :=
  Table.contains_erase f.subscribed owner other

theorem isSubscribed_expel :
    (f.expel owner).2.isSubscribed other ↔ other ≠ owner ∧ f.isSubscribed other :=
  Table.contains_erase f.subscribed owner other

theorem isSubscribed_foldl_drop (dropped : List Address) : ∀ f : PriceFeed,
    (dropped.foldl drop f).isSubscribed other ↔ other ∉ dropped ∧ f.isSubscribed other := by
  induction dropped with
  | nil =>
    intro f
    simp
  | cons owner rest ih =>
    intro f
    rw [List.foldl_cons, ih, isSubscribed_drop, List.mem_cons, not_or, and_left_comm, and_assoc]

theorem subscribed_enlist (f : PriceFeed) (owner address : Address) :
    (f.enlist owner address).2.subscribed = f.subscribed.add owner := by
  unfold enlist
  dsimp only
  split
  · rfl
  · split <;> rfl

theorem isSubscribed_enlist {address : Address} :
    (f.enlist owner address).2.isSubscribed other ↔ other = owner ∨ f.isSubscribed other := by
  unfold isSubscribed
  rw [subscribed_enlist]
  exact Table.contains_insert f.subscribed owner other ()

/-! ### Pair and parameters -/

/-- The same pair with the same parameters. -/
def SameTerms (f f' : PriceFeed) : Prop := f'.pair = f.pair ∧ f'.params = f.params

theorem sameTerms_enlist (f : PriceFeed) (owner address : Address) :
    f.SameTerms (f.enlist owner address).2 := by
  unfold enlist
  dsimp only
  split
  · exact ⟨rfl, rfl⟩
  · split <;> exact ⟨rfl, rfl⟩

theorem sameTerms_foldl_drop (dropped : List Address) (f : PriceFeed) :
    f.SameTerms (dropped.foldl drop f) :=
  ⟨view_foldl_drop (·.pair) (fun _ _ => rfl) dropped f, view_foldl_drop (·.params) (fun _ _ => rfl) dropped f⟩

/-- What a subscription leaves keeps the terms, whoever makes room. -/
theorem sameTerms_listed (f : PriceFeed) (evicted : Option Address) (owner address : Address) :
    f.SameTerms ((evicted.elim f f.drop).enlist owner address).2 := by
  have henlist := sameTerms_enlist (evicted.elim f f.drop) owner address
  cases evicted <;> exact henlist

/-! ### The ranking -/

theorem mem_ranked {e : OracleEntry} :
    e ∈ f.ranked registry ↔ e ∈ registry.entries ∧ f.isSubscribed e.owner := List.mem_filter

theorem isSubscribed_of_nextRound {registry : Registry} {lockUntil : Nat}
    (h : (f.nextRound (f.selection registry) lockUntil).round.seatsOwner other) : f.isSubscribed other := by
  rw [Round.seatsOwner_iff, Round.owners] at h
  simp only [nextRound, selection, List.map_map, List.mem_map] at h
  obtain ⟨e, he, rfl⟩ := h
  exact (mem_ranked.1 (List.mem_of_mem_take he)).2

theorem nodup_owners_ranked (hr : registry.Unambiguous) : ((f.ranked registry).map (·.owner)).Nodup :=
  hr.owners.sublist (List.filter_sublist.map _)

theorem perm_ranked (hr : registry.Unambiguous)
    (hall : ∀ o, f.isSubscribed o → registry.isRegistered o) :
    ((f.ranked registry).map (·.owner)).Perm f.subscribed.keys := by
  refine (List.perm_ext_iff_of_nodup (nodup_owners_ranked hr) (Table.nodup_keys _)).2 fun o => ?_
  rw [Table.mem_keys, List.mem_map]
  constructor
  · rintro ⟨e, he, rfl⟩
    exact (mem_ranked.1 he).2
  · intro ho
    obtain ⟨e, he⟩ := Option.isSome_iff_exists.1 (hall o ho)
    have howner := Registry.owner_of_get? he
    exact ⟨e, mem_ranked.2 ⟨Registry.mem_of_get? he, howner ▸ ho⟩, howner⟩

theorem length_ranked (hr : registry.Unambiguous)
    (hall : ∀ o, f.isSubscribed o → registry.isRegistered o) :
    (f.ranked registry).length = f.subscribed.size := by
  have hlen := (perm_ranked hr hall).length_eq
  rwa [List.length_map, Table.length_keys] at hlen

/-! ### The cap -/

/-- The parameters fit together, and the list is within its cap. -/
structure Capped (f : PriceFeed) : Prop where
  valid : f.params.validate = .ok ()
  size_le : f.subscribed.size ≤ f.params.maxSubscribed

theorem Capped.start {pair : CoinPair} {params : RoundParams} {ctx : BlockContext}
    (h : PriceFeed.start pair params ctx = .ok f) : f.pair = pair ∧ f.subscribed = .empty ∧ f.Capped := by
  unfold PriceFeed.start at h
  split at h
  · cases h
  · rename_i hvalid
    cases h
    exact ⟨rfl, rfl, hvalid, Nat.zero_le _⟩

theorem Capped.erase (h : f.Capped) (hterms : f.SameTerms f')
    (hlist : f'.subscribed = f.subscribed.erase owner) : f'.Capped := by
  have hsize := Table.size_erase_le f.subscribed owner
  have hle := h.size_le
  refine ⟨by rw [hterms.2]; exact h.valid, ?_⟩
  rw [hterms.2, hlist]
  omega

/-- Room is made by the registered subscriber at the end of the ranking, on a full list only. -/
theorem evictionFor_eq_ok {stake : Amount} {evicted : Option Address}
    (h : f.evictionFor registry stake = .ok evicted) :
    (evicted = none ∧ (f.subscribed.size < f.params.maxSubscribed ∨ f.ranked registry = [])) ∨
      ∃ tail, (f.ranked registry).getLast? = some tail ∧ evicted = some tail.owner ∧
        tail.stake < stake := by
  unfold evictionFor at h
  split at h
  · rename_i hroom
    cases h
    exact .inl ⟨rfl, .inl hroom⟩
  split at h
  · rename_i hnone
    cases h
    exact .inl ⟨rfl, .inr (List.getLast?_eq_none_iff.1 hnone)⟩
  rename_i tail htail
  split at h
  · rename_i hmore
    cases h
    exact .inr ⟨tail, htail, rfl, hmore⟩
  · cases h

/-- A subscription stays within the cap, since whoever makes room was on the list. -/
theorem Capped.listed (h : f.Capped) (hr : registry.Unambiguous)
    (hall : ∀ o, f.isSubscribed o → registry.isRegistered o) (hnew : ¬ f.isSubscribed owner)
    {stake : Amount} {evicted : Option Address} (hevicted : f.evictionFor registry stake = .ok evicted)
    (address : Address) : ((evicted.elim f f.drop).enlist owner address).2.Capped := by
  have hterms := sameTerms_listed f evicted owner address
  refine ⟨by rw [hterms.2]; exact h.valid, ?_⟩
  rw [hterms.2, subscribed_enlist]
  rcases evictionFor_eq_ok hevicted with ⟨rfl, hroom⟩ | ⟨tail, htail, rfl, -⟩
  · have hadd : (f.subscribed.add owner).size = f.subscribed.size + 1 := Table.size_insert () hnew
    have hpos := RoundParams.maxSubscribed_pos h.valid
    have hlen := length_ranked hr hall
    have hle := h.size_le
    show (f.subscribed.add owner).size ≤ f.params.maxSubscribed
    rcases hroom with hroom | hnone
    · omega
    · rw [hnone, List.length_nil] at hlen
      omega
  · have hlisted : f.isSubscribed tail.owner :=
      (mem_ranked.1 (List.mem_of_getLast? htail)).2
    have hstill : ¬ (f.drop tail.owner).isSubscribed owner := fun ho => hnew (isSubscribed_drop.1 ho).2
    have hdrop : (f.drop tail.owner).subscribed.size + 1 = f.subscribed.size :=
      Table.size_erase hlisted
    have hadd : ((f.drop tail.owner).subscribed.add owner).size
        = (f.drop tail.owner).subscribed.size + 1 := Table.size_insert () hstill
    have hle := h.size_le
    show ((f.drop tail.owner).subscribed.add owner).size ≤ f.params.maxSubscribed
    omega

theorem size_foldl_drop {dropped : List Address} : ∀ {f : PriceFeed}, dropped.Nodup →
    (∀ o ∈ dropped, f.isSubscribed o) →
    (dropped.foldl drop f).subscribed.size + dropped.length = f.subscribed.size := by
  induction dropped with
  | nil =>
    intro f _ _
    rfl
  | cons owner rest ih =>
    intro f hnodup hall
    obtain ⟨hfirst, hnodup⟩ := List.nodup_cons.1 hnodup
    have hdrop : (f.drop owner).subscribed.size + 1 = f.subscribed.size :=
      Table.size_erase (hall owner (by simp))
    have hrest : ∀ o ∈ rest, (f.drop owner).isSubscribed o := by
      intro o ho
      have hne : o ≠ owner := fun heq => hfirst (heq ▸ ho)
      exact isSubscribed_drop.2 ⟨hne, hall o (by simp [ho])⟩
    have hsize := ih hnodup hrest
    rw [List.foldl_cons, List.length_cons]
    omega

/-- A lower cap drops as many as are too many. -/
theorem Capped.capped (hr : registry.Unambiguous)
    (hall : ∀ o, f.isSubscribed o → registry.isRegistered o) {value : Nat} {dropped : List Address}
    (h : f.setMaxSubscribed value registry = .ok (dropped, f')) : f'.Capped := by
  obtain ⟨hvalid, hdropped, rfl⟩ := setMaxSubscribed_eq_ok h
  have hterms := sameTerms_foldl_drop dropped { f with params := { f.params with maxSubscribed := value } }
  have hnodup : dropped.Nodup := by
    rw [hdropped]
    exact (List.nodup_reverse.2 (nodup_owners_ranked hr)).sublist (List.take_sublist _ _)
  have hlisted : ∀ o ∈ dropped, f.isSubscribed o := by
    intro o ho
    rw [hdropped] at ho
    have hmem := List.mem_reverse.1 (List.mem_of_mem_take ho)
    obtain ⟨e, he, rfl⟩ := List.mem_map.1 hmem
    exact (mem_ranked.1 he).2
  have hlen : dropped.length = min (f.subscribed.size - value) f.subscribed.size := by
    rw [hdropped, List.length_take, List.length_reverse, List.length_map, length_ranked hr hall]
  have hsize := size_foldl_drop
    (f := { f with params := { f.params with maxSubscribed := value } }) hnodup hlisted
  refine ⟨by rw [hterms.2]; exact hvalid, ?_⟩
  rw [hterms.2]
  show _ ≤ value
  have hkept : ({ f with params := { f.params with maxSubscribed := value } } : PriceFeed).subscribed.size
      = f.subscribed.size := rfl
  omega

/-! ### Calls that keep the list -/

variable {L : Type} [CollateralLedger L]

/-- The call is none of those that put owners on the list or strike them off. -/
def Call.KeepsList : Call L → Prop
  | subscribe .. | unsubscribe _ | expel _ | setMaxSubscribed .. => False
  | _ => True

structure SameList (f f' : PriceFeed) : Prop where
  pair : f'.pair = f.pair
  subscribed : f'.subscribed = f.subscribed
  capped : f.Capped → f'.Capped

omit [CollateralLedger L] in
theorem sameList_of_effect {call : Call L} (hc : call.KeepsList) (h : f.Effect call f') :
    f.SameList f' := by
  cases h with
  | listed | dropped | expelled | capped => exact absurd hc id
  | idle | yielded | switched | readers | publishers => exact ⟨rfl, rfl, fun h => ⟨h.valid, h.size_le⟩⟩
  | published hp =>
    obtain ⟨-, seat, -, -, -, rfl⟩ := publish_eq_ok.1 hp
    exact ⟨rfl, rfl, fun h => ⟨h.valid, h.size_le⟩⟩
  | emergency hp =>
    obtain ⟨-, rfl, -⟩ := emergencyPublish_eq_ok hp
    exact ⟨rfl, rfl, fun h => ⟨h.valid, h.size_le⟩⟩
  | params hp hcap =>
    obtain ⟨hvalid, rfl⟩ := withParams_eq_ok hp
    refine ⟨rfl, rfl, fun h => ⟨hvalid, ?_⟩⟩
    rw [hcap]
    exact h.size_le

end PriceFeed

end PriceOracle
