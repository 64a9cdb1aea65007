import Mathlib.Data.List.Nodup
import PriceOracle.Proofs.Table
import PriceOracle.Registry.Basic
/-! Who is registered, apart from the order. An oracle's owner, address and name are its identity. Stakes
and listed pairs come and go without touching identities, and owners and addresses stay unique. -/
namespace PriceOracle

def OracleEntry.identity (e : OracleEntry) : Address × Address × String := (e.owner, e.address, e.name)

namespace Registry

def identities (r : Registry) : List (Address × Address × String) := r.entries.map (·.identity)

/-- No owner has two oracles and no two oracles have one address. -/
structure Unambiguous (r : Registry) : Prop where
  owners : (r.entries.map (·.owner)).Nodup
  addresses : (r.entries.map (·.address)).Nodup

instance (r : Registry) : Decidable r.Unambiguous :=
  decidable_of_iff ((r.entries.map (·.owner)).Nodup ∧ (r.entries.map (·.address)).Nodup)
    ⟨fun h => ⟨h.1, h.2⟩, fun h => ⟨h.owners, h.addresses⟩⟩

theorem owners_eq (r : Registry) : r.entries.map (·.owner) = r.identities.map (·.1) := by
  simp [identities, OracleEntry.identity, Function.comp_def]

theorem addresses_eq (r : Registry) : r.entries.map (·.address) = r.identities.map (·.2.1) := by
  simp [identities, OracleEntry.identity, Function.comp_def]

theorem Unambiguous.of_perm {r r' : Registry} (h : r.Unambiguous) (hp : r'.identities.Perm r.identities) :
    r'.Unambiguous := by
  constructor
  · rw [owners_eq]
    have := h.owners
    rw [owners_eq] at this
    exact (hp.map _).nodup_iff.2 this
  · rw [addresses_eq]
    have := h.addresses
    rw [addresses_eq] at this
    exact (hp.map _).nodup_iff.2 this

theorem unambiguous_empty : empty.Unambiguous := ⟨.nil, .nil⟩

/-! ### Look-ups -/

theorem get?_eq_some {r : Registry} (h : r.Unambiguous) {owner : Address} {e : OracleEntry} :
    r.get? owner = some e ↔ e ∈ r.entries ∧ e.owner = owner := by
  constructor
  · intro hg
    exact ⟨List.mem_of_find?_eq_some hg, by simpa using List.find?_some hg⟩
  · rintro ⟨he, rfl⟩
    cases hg : r.get? e.owner with
    | none =>
      have := List.find?_eq_none.1 hg e he
      simp at this
    | some e' =>
      have hown : e'.owner = e.owner := by simpa using List.find?_some hg
      rw [List.inj_on_of_nodup_map h.owners (List.mem_of_find?_eq_some hg) he hown]

theorem owner_of_get? {r : Registry} {owner : Address} {e : OracleEntry} (h : r.get? owner = some e) :
    e.owner = owner := by
  simpa using List.find?_some h

theorem mem_of_get? {r : Registry} {owner : Address} {e : OracleEntry} (h : r.get? owner = some e) :
    e ∈ r.entries :=
  List.mem_of_find?_eq_some h

/-- Whether an identity is registered is told by looking its owner up. -/
theorem mem_identities {r : Registry} (h : r.Unambiguous) {owner address : Address} {name : String} :
    (owner, address, name) ∈ r.identities
      ↔ (r.get? owner).map (fun e => (e.address, e.name)) = some (address, name) := by
  simp only [identities, List.mem_map, OracleEntry.identity, Prod.mk.injEq, Option.map_eq_some_iff]
  constructor
  · rintro ⟨e, he, hown, hadr, hname⟩
    exact ⟨e, (get?_eq_some h).2 ⟨he, hown⟩, hadr, hname⟩
  · rintro ⟨e, hg, hadr, hname⟩
    exact ⟨e, mem_of_get? hg, owner_of_get? hg, hadr, hname⟩

/-! ### Operations -/

theorem perm_place (e : OracleEntry) (xs : List OracleEntry) : (place e xs).Perm (e :: xs) := by
  induction xs with
  | nil => exact .refl _
  | cons x xs ih =>
    unfold place
    split
    · exact .refl _
    · exact (ih.cons x).trans (.swap e x xs)

/-- An owner's entry and the entries of the others are all entries. -/
theorem perm_others {r : Registry} (h : r.Unambiguous) {owner : Address} {e : OracleEntry}
    (he : r.get? owner = some e) : (e :: r.others owner).Perm r.entries := by
  have hmem := mem_of_get? he
  have hown := owner_of_get? he
  subst hown
  have hnodup : r.entries.Nodup := List.Nodup.of_map _ h.owners
  have heq : r.others e.owner = r.entries.erase e := by
    rw [hnodup.erase_eq_filter]
    apply List.filter_congr
    intro x hx
    by_cases hxe : x = e
    · simp [hxe]
    · have hne : x.owner ≠ e.owner := fun heq => hxe (List.inj_on_of_nodup_map h.owners hx hmem heq)
      simp [hxe, hne]
  rw [heq]
  exact (List.perm_cons_erase hmem).symm

/-- Another stake is not another identity, even if the entry was looked up a while ago. -/
theorem identities_restake {r : Registry} (h : r.Unambiguous) {e : OracleEntry}
    (he : e.identity ∈ r.identities) (stake : Amount) :
    (r.restake e stake).identities.Perm r.identities := by
  obtain ⟨e', hmem, heq⟩ := List.mem_map.1 he
  have howner : e'.owner = e.owner := (Prod.mk.inj heq).1
  have hplace := (perm_place { e with stake } (r.others e.owner)).map OracleEntry.identity
  have hothers := (perm_others h ((get?_eq_some h).2 ⟨hmem, howner⟩)).map OracleEntry.identity
  rw [List.map_cons, heq] at hothers
  exact hplace.trans hothers

/-- What a change of entries leaves alone in each entry, it leaves alone in all. -/
theorem map_update {α : Type} (r : Registry) (owner : Address) {f : OracleEntry → OracleEntry}
    {g : OracleEntry → α} (hf : ∀ e, g (f e) = g e) :
    (r.update owner f).entries.map g = r.entries.map g := by
  unfold update
  rw [List.map_map]
  apply List.map_congr_left
  intro e _
  rw [Function.comp_apply]
  split
  · exact hf e
  · rfl

theorem get?_update (r : Registry) (owner : Address) {f : OracleEntry → OracleEntry}
    (hf : ∀ e, (f e).owner = e.owner) (other : Address) :
    (r.update owner f).get? other = (r.get? other).map fun e => if other = owner then f e else e := by
  have howner : ∀ e : OracleEntry, (if e.owner = owner then f e else e).owner = e.owner := by
    intro e
    split
    · exact hf e
    · rfl
  unfold get? update
  rw [List.find?_map]
  simp only [Function.comp_def, howner]
  cases hfind : r.entries.find? (·.owner = other) with
  | none => rfl
  | some e =>
    have heq : e.owner = other := by simpa using List.find?_some hfind
    subst heq
    rfl

theorem identities_enlist (r : Registry) (owner : Address) (pair : CoinPair) :
    (r.enlist owner pair).identities = r.identities :=
  map_update r owner fun _ => rfl

theorem identities_delist (r : Registry) (owner : Address) (pair : CoinPair) :
    (r.delist owner pair).identities = r.identities :=
  map_update r owner fun _ => rfl

theorem identities_register {r r' : Registry} {owner address : Address} {name : String} {stake : Amount}
    {hint : Option PrevHint} {e : OracleEntry} (h : r.register owner address name stake hint = .ok (e, r')) :
    r.get? owner = none ∧ r.getByAddress? address = none ∧
      r'.identities.Perm ((owner, address, name) :: r.identities) := by
  unfold register at h
  split at h
  · cases h
  · split at h
    · cases h
    · split at h
      · cases h
      · rename_i howner
        split at h
        · cases h
        · rename_i haddress
          split at h
          · cases h
          · cases h
            refine ⟨by simpa [isRegistered] using howner, by simpa using haddress, ?_⟩
            exact (perm_place _ r.entries).map OracleEntry.identity

theorem Unambiguous.register {r r' : Registry} (h : r.Unambiguous) {owner address : Address}
    {name : String} {stake : Amount} {hint : Option PrevHint} {e : OracleEntry}
    (hr : r.register owner address name stake hint = .ok (e, r')) : r'.Unambiguous := by
  obtain ⟨howner, haddress, hp⟩ := identities_register hr
  have ho := h.owners
  have ha := h.addresses
  rw [owners_eq] at ho
  rw [addresses_eq] at ha
  constructor
  · rw [owners_eq]
    refine (hp.map _).nodup_iff.2 (List.nodup_cons.2 ⟨?_, ho⟩)
    rw [← owners_eq]
    intro hmem
    obtain ⟨x, hx, hxo⟩ := List.mem_map.1 hmem
    have := List.find?_eq_none.1 howner x hx
    simp [hxo] at this
  · rw [addresses_eq]
    refine (hp.map _).nodup_iff.2 (List.nodup_cons.2 ⟨?_, ha⟩)
    rw [← addresses_eq]
    intro hmem
    obtain ⟨x, hx, hxa⟩ := List.mem_map.1 hmem
    have := List.find?_eq_none.1 haddress x hx
    simp [hxa] at this

theorem remove_eq_ok {r r' : Registry} {owner : Address} {e : OracleEntry}
    (h : r.remove owner = .ok (e, r')) : r.get? owner = some e ∧ r'.entries = r.others owner := by
  unfold remove at h
  split at h
  · cases h
  · rename_i e' he
    cases h
    exact ⟨he, rfl⟩

theorem find?_others (r : Registry) (owner other : Address) :
    (r.others owner).find? (·.owner = other) = if other = owner then none else r.get? other := by
  rw [others, List.find?_filter]
  split
  · rename_i heq
    refine List.find?_eq_none.2 fun x _ => ?_
    simp [heq]
  · rename_i hne
    unfold get?
    congr 1
    funext x
    by_cases hx : x.owner = other
    · simp [hx, hne]
    · simp [hx]

theorem get?_remove {r r' : Registry} {owner : Address} {e : OracleEntry}
    (h : r.remove owner = .ok (e, r')) (other : Address) :
    r'.get? other = if other = owner then none else r.get? other := by
  rw [get?, (remove_eq_ok h).2]
  exact find?_others r owner other

theorem Unambiguous.remove {r r' : Registry} (h : r.Unambiguous) {owner : Address} {e : OracleEntry}
    (hr : r.remove owner = .ok (e, r')) : r'.Unambiguous := by
  have hsub : r'.entries.Sublist r.entries := by
    rw [(remove_eq_ok hr).2]
    exact List.filter_sublist
  exact ⟨h.owners.sublist (hsub.map _), h.addresses.sublist (hsub.map _)⟩

theorem Unambiguous.setStake {r r' : Registry} (h : r.Unambiguous) {owner : Address} {stake old : Amount}
    {hint : Option PrevHint} (hr : r.setStake owner stake hint = .ok (old, r')) : r'.Unambiguous := by
  unfold Registry.setStake at hr
  split at hr
  · cases hr
  · rename_i e he
    split at hr
    · cases hr
    · cases hr
      exact h.of_perm (identities_restake h (List.mem_map_of_mem (mem_of_get? he)) stake)

theorem Unambiguous.adjustStake {r r' : Registry} (h : r.Unambiguous) {owner : Address} {delta : StakeDelta}
    {hint : Option PrevHint} {stake : Amount} (hr : r.adjustStake owner delta hint = .ok (stake, r')) :
    r'.Unambiguous := by
  unfold Registry.adjustStake at hr
  split at hr
  · cases hr
  · split at hr
    · cases hr
    · rename_i stake' _
      cases hs : r.setStake owner stake' hint with
      | error e =>
        rw [hs] at hr
        cases hr
      | ok x =>
        rw [hs] at hr
        cases hr
        exact h.setStake hs

theorem Unambiguous.setName {r r' : Registry} (h : r.Unambiguous) {owner : Address} {name : String}
    (hr : r.setName owner name = .ok r') : r'.Unambiguous := by
  unfold Registry.setName at hr
  split at hr
  · cases hr
    have howners := map_update r owner (f := ({ · with name })) (g := (·.owner)) fun _ => rfl
    have haddresses := map_update r owner (f := ({ · with name })) (g := (·.address)) fun _ => rfl
    exact ⟨howners ▸ h.owners, haddresses ▸ h.addresses⟩
  · cases hr

/-! ### Reachable registries -/

inductive Call where
  | register (owner address : Address) (name : String) (stake : Amount) (hint : Option PrevHint)
  | setStake (owner : Address) (stake : Amount) (hint : Option PrevHint)
  | adjustStake (owner : Address) (delta : StakeDelta) (hint : Option PrevHint)
  | remove (owner : Address)
  | setName (owner : Address) (name : String)
  | addSubscription (owner : Address) (pair : CoinPair)
  | removeSubscription (owner : Address) (pair : CoinPair)

/-- The outcome of a call, with its answer dropped. -/
def perform (r : Registry) : Call → Except RegistryError Registry
  | .register owner address name stake hint => (r.register owner address name stake hint).map (·.2)
  | .setStake owner stake hint => (r.setStake owner stake hint).map (·.2)
  | .adjustStake owner delta hint => (r.adjustStake owner delta hint).map (·.2)
  | .remove owner => (r.remove owner).map (·.2)
  | .setName owner name => r.setName owner name
  | .addSubscription owner pair => (r.addSubscription owner pair).map (·.2)
  | .removeSubscription owner pair => (r.removeSubscription owner pair).map (·.2)

/-- The registries that calls make from the empty one. Calls that are refused change nothing. -/
inductive Reachable : Registry → Prop
  | empty : Reachable empty
  | call {r r' : Registry} {call : Call} : Reachable r → r.perform call = .ok r' → Reachable r'

theorem Unambiguous.perform {r r' : Registry} (h : r.Unambiguous) {call : Call}
    (hc : r.perform call = .ok r') : r'.Unambiguous := by
  have answered {ε α : Type} {x : Except ε (α × Registry)} (hx : x.map (·.2) = .ok r') :
      ∃ a, x = .ok (a, r') := by
    cases x with
    | error e => cases hx
    | ok y =>
      cases hx
      exact ⟨y.1, rfl⟩
  cases call with
  | register owner address name stake hint =>
    obtain ⟨e, he⟩ := answered hc
    exact h.register he
  | setStake owner stake hint =>
    obtain ⟨old, hs⟩ := answered hc
    exact h.setStake hs
  | adjustStake owner delta hint =>
    obtain ⟨new, hs⟩ := answered hc
    exact h.adjustStake hs
  | remove owner =>
    obtain ⟨e, he⟩ := answered hc
    exact h.remove he
  | setName owner name => exact h.setName hc
  | addSubscription owner pair =>
    obtain ⟨fresh, hs⟩ := answered hc
    unfold addSubscription at hs
    split at hs
    · cases hs
    · cases hs
      exact h.of_perm (.of_eq (identities_enlist r owner pair))
  | removeSubscription owner pair =>
    obtain ⟨listed, hs⟩ := answered hc
    unfold removeSubscription at hs
    split at hs
    · cases hs
    · cases hs
      exact h.of_perm (.of_eq (identities_delist r owner pair))

theorem Reachable.unambiguous {r : Registry} (h : r.Reachable) : r.Unambiguous := by
  induction h with
  | empty => exact unambiguous_empty
  | call _ hc ih => exact ih.perform hc

end Registry

end PriceOracle
