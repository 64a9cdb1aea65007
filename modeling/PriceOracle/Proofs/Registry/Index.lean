import PriceOracle.Proofs.Registry.Enrollment
import PriceOracle.Registry.Index
/-! The indexes tell the registry. Each operation writes three indexes by keys that it computes anew, and
each keeps them telling the entries of the registry: none is missed and none is left over. So whatever is
asked of either, accepted or refused, both give the same answer and list the same oracles. -/
namespace PriceOracle

open Registry (place)

/-! ### Look-ups by address -/

namespace Registry

variable {r r' : Registry}

theorem getByAddress?_eq_some (h : r.Unambiguous) {address : Address} {e : OracleEntry} :
    r.getByAddress? address = some e ↔ e ∈ r.entries ∧ e.address = address := by
  constructor
  · intro hg
    exact ⟨List.mem_of_find?_eq_some hg, by simpa using List.find?_some hg⟩
  · rintro ⟨he, rfl⟩
    cases hg : r.getByAddress? e.address with
    | none =>
      have := List.find?_eq_none.1 hg e he
      simp at this
    | some e' =>
      have hadr : e'.address = e.address := by simpa using List.find?_some hg
      rw [List.inj_on_of_nodup_map h.addresses (List.mem_of_find?_eq_some hg) he hadr]

theorem ownerOf?_eq_some (h : r.Unambiguous) {address owner : Address} :
    r.ownerOf? address = some owner ↔ ∃ e ∈ r.entries, e.address = address ∧ e.owner = owner := by
  simp only [ownerOf?, Option.map_eq_some_iff, getByAddress?_eq_some h, and_assoc]

def reporters (r : Registry) : List (Address × Address) := r.entries.map fun e => (e.owner, e.address)

/-- Who reports from an address is told by the owners and their addresses, in whatever order. -/
theorem ownerOf?_of_perm (h : r.Unambiguous) (hp : r'.reporters.Perm r.reporters) (address : Address) :
    r'.ownerOf? address = r.ownerOf? address := by
  have hfst : ∀ x : Registry, x.reporters.map (·.1) = x.entries.map (·.owner) := fun x => by
    simp [reporters, Function.comp_def]
  have hsnd : ∀ x : Registry, x.reporters.map (·.2) = x.entries.map (·.address) := fun x => by
    simp [reporters, Function.comp_def]
  have h' : r'.Unambiguous := by
    have howners := hp.map (·.1)
    have haddresses := hp.map (·.2)
    rw [hfst, hfst] at howners
    rw [hsnd, hsnd] at haddresses
    exact ⟨howners.nodup_iff.2 h.owners, haddresses.nodup_iff.2 h.addresses⟩
  have told : ∀ {x : Registry}, x.Unambiguous → ∀ owner,
      x.ownerOf? address = some owner ↔ (owner, address) ∈ x.reporters := by
    intro x hx owner
    simp only [ownerOf?_eq_some hx, reporters, List.mem_map, Prod.mk.injEq]
    exact exists_congr fun e => and_congr_right fun _ => and_comm
  apply Option.ext
  intro owner
  rw [told h, told h', hp.mem_iff]

theorem ownerOf?_register (h : r.Unambiguous) {owner address : Address} {name : String} {stake : Amount}
    {hint : Option PrevHint} {entry : OracleEntry}
    (hr : r.register owner address name stake hint = .ok (entry, r')) (a : Address) :
    r'.ownerOf? a = if a = address then some owner else r.ownerOf? a := by
  have hfree := (identities_register hr).2.1
  have hu := h.register hr
  obtain ⟨rfl, rfl⟩ := register_eq_ok hr
  apply Option.ext
  intro o
  rw [ownerOf?_eq_some hu]
  simp only [mem_place, exists_eq_or_imp]
  by_cases ha : a = address
  · subst ha
    have hnone : ¬ ∃ e ∈ r.entries, e.address = a ∧ e.owner = o := by
      rintro ⟨e, he, rfl, -⟩
      simpa using List.find?_eq_none.1 hfree e he
    simp [hnone]
  · rw [if_neg ha, ownerOf?_eq_some h]
    simp [Ne.symm ha]

theorem ownerOf?_remove (h : r.Unambiguous) {owner : Address} {entry : OracleEntry}
    (hr : r.remove owner = .ok (entry, r')) (a : Address) :
    r'.ownerOf? a = if a = entry.address then none else r.ownerOf? a := by
  obtain ⟨hentry, hentries⟩ := remove_eq_ok hr
  obtain ⟨hmem, howner⟩ := (get?_eq_some h).1 hentry
  apply Option.ext
  intro o
  rw [ownerOf?_eq_some (h.remove hr), hentries]
  simp only [others, List.mem_filter, decide_eq_true_eq, and_assoc]
  by_cases ha : a = entry.address
  · rw [if_pos ha]
    refine iff_of_false ?_ (by simp)
    rintro ⟨e, he, hne, hadr, -⟩
    have heq : e = entry := List.inj_on_of_nodup_map h.addresses he hmem (hadr.trans ha)
    exact hne (heq ▸ howner)
  · rw [if_neg ha, ownerOf?_eq_some h]
    refine exists_congr fun e => and_congr_right fun he => and_iff_right_of_imp ?_
    rintro ⟨rfl, -⟩ heq
    exact ha (congrArg _ (List.inj_on_of_nodup_map h.owners he hmem (heq.trans howner.symm)))

def places (r : Registry) : List (OrderKey × Address) := r.entries.map fun e => (e.key, e.owner)

/-- An entry that gets the stake it has stays where it is. -/
theorem entries_restake_self (h : r.Ordered) (hu : r.Unambiguous) {e : OracleEntry}
    (he : r.get? e.owner = some e) : (r.restake e e.stake).entries = r.entries :=
  (h.restake hu he rfl e.stake).entries_eq h ((perm_place e (r.others e.owner)).trans (perm_others hu he))

theorem key_ne_iff (h : r.Ordered) {e : OracleEntry} (he : e ∈ r.entries) :
    ∀ x ∈ r.entries, some x.key ≠ some e.key ↔ x.seq ≠ e.seq := by
  intro x hx
  rw [ne_eq, Option.some.injEq]
  exact not_congr ⟨congrArg OrderKey.seq, fun heq => by rw [seq_eq h hx he heq]⟩

/-- No key has the number of the next registration. -/
theorem key_ne_none_iff (h : r.Ordered) : ∀ x ∈ r.entries, some x.key ≠ none ↔ x.seq ≠ r.nextSeq :=
  fun x hx => iff_of_true (by simp) (Nat.ne_of_lt (h.seq_lt x hx))

end Registry

namespace RegistryIndex

/-! ### The order index -/

theorem map_place {e : OracleEntry} {xs : List OracleEntry} (hnew : ∀ x ∈ xs, x.seq ≠ e.seq) :
    (place e xs).map (fun e => (e.key, e.owner))
      = putKey e.key e.owner (xs.map fun e => (e.key, e.owner)) := by
  induction xs with
  | nil => rfl
  | cons x xs ih =>
    have ih := ih fun y hy => hnew y (by simp [hy])
    have hne : e.key ≠ x.key := fun heq => hnew x (by simp) (congrArg OrderKey.seq heq).symm
    unfold place
    rw [List.map_cons, putKey]
    by_cases hbefore : e.Precedes x.stake x.seq
    · have hlt : e.key.Lt x.key := hbefore
      rw [if_pos hbefore, if_pos hlt]
      rfl
    · have hlt : ¬ e.key.Lt x.key := hbefore
      rw [if_neg hbefore, if_neg hlt, if_neg hne, ← ih]
      rfl

theorem map_others {r : Registry} (ho : r.Ordered) (hu : r.Unambiguous) {e : OracleEntry}
    (he : e ∈ r.entries) :
    (r.others e.owner).map (fun e => (e.key, e.owner)) = dropKey e.key r.places := by
  unfold Registry.others dropKey Registry.places
  rw [List.filter_map]
  congr 1
  apply List.filter_congr
  intro x hx
  rw [Function.comp_apply, decide_eq_decide]
  have howner : x.owner = e.owner ↔ x = e :=
    ⟨fun heq => List.inj_on_of_nodup_map hu.owners hx he heq, fun heq => heq ▸ rfl⟩
  have hkey : x.key = e.key ↔ x = e :=
    ⟨fun heq => Registry.seq_eq ho hx he (congrArg OrderKey.seq heq), fun heq => heq ▸ rfl⟩
  exact not_congr (howner.trans hkey.symm)

/-! ### Telling a registry -/

/-- The indexes tell the entries of a registry. -/
structure Represents (x : RegistryIndex) (r : Registry) : Prop where
  entries : ∀ owner, x.entries.get? owner = r.get? owner
  byAddress : ∀ address, x.byAddress.get? address = r.ownerOf? address
  order : x.order = r.places
  nextSeq : x.nextSeq = r.nextSeq

/-- Both refuse alike, or both accept with the same answer and go on telling the same. -/
inductive Agree {α : Type} :
    Except RegistryError (α × RegistryIndex) → Except RegistryError (α × Registry) → Prop
  | refused (e : RegistryError) : Agree (.error e) (.error e)
  | accepted (a : α) {x : RegistryIndex} {r : Registry} (h : x.Represents r) :
      Agree (.ok (a, x)) (.ok (a, r))

theorem Agree.ite {α : Type} {c : Prop} [Decidable c]
    {a b : Except RegistryError (α × RegistryIndex)} {a' b' : Except RegistryError (α × Registry)}
    (hthen : c → Agree a a') (helse : ¬ c → Agree b b') :
    Agree (if c then a else b) (if c then a' else b') := by
  by_cases hc : c
  · rw [if_pos hc, if_pos hc]
    exact hthen hc
  · rw [if_neg hc, if_neg hc]
    exact helse hc

theorem Agree.map {α β : Type} {a : Except RegistryError (α × RegistryIndex)}
    {b : Except RegistryError (α × Registry)} (h : Agree a b) (f : α → β) :
    Agree (a.map fun y => (f y.1, y.2)) (b.map fun y => (f y.1, y.2)) := by
  cases h with
  | refused e => exact .refused e
  | accepted a h => exact .accepted (f a) h

variable {x : RegistryIndex} {r : Registry} {owner : Address}

theorem represents_empty : empty.Represents .empty := ⟨fun _ => rfl, fun _ => rfl, rfl, rfl⟩

/-! ### Reading -/

theorem Represents.contains (h : x.Represents r) (owner : Address) :
    x.entries.contains owner = r.isRegistered owner := by
  rw [Table.contains, h.entries, Registry.isRegistered]

theorem Represents.contains_byAddress (h : x.Represents r) (address : Address) :
    x.byAddress.contains address = (r.getByAddress? address).isSome := by
  rw [Table.contains, h.byAddress, Registry.ownerOf?, Option.isSome_map]

theorem Represents.getByAddress? (h : x.Represents r) (hu : r.Unambiguous) (address : Address) :
    x.getByAddress? address = r.getByAddress? address := by
  unfold RegistryIndex.getByAddress?
  rw [h.byAddress, Registry.ownerOf?]
  cases hg : r.getByAddress? address with
  | none => rfl
  | some e =>
    rw [Option.map_some, Option.bind_some, h.entries]
    exact (Registry.get?_eq_some hu).2 ⟨((Registry.getByAddress?_eq_some hu).1 hg).1, rfl⟩

theorem Represents.toList (h : x.Represents r) (hu : r.Unambiguous) : x.toList = r.entries := by
  unfold RegistryIndex.toList
  rw [h.order, Registry.places, List.filterMap_map]
  have hfound : ∀ e ∈ r.entries,
      ((fun p : OrderKey × Address => x.entries.get? p.2) ∘ fun e => (e.key, e.owner)) e = some e := by
    intro e he
    rw [Function.comp_apply, h.entries]
    exact (Registry.get?_eq_some hu).2 ⟨he, rfl⟩
  rw [List.filterMap_congr hfound, List.filterMap_some]

theorem Represents.size (h : x.Represents r) (hu : r.Unambiguous) : x.size = r.entries.length := by
  have hkeys : x.entries.keys.Perm (r.entries.map (·.owner)) := by
    refine (List.perm_ext_iff_of_nodup (Table.nodup_keys _) hu.owners).2 fun owner => ?_
    rw [Table.mem_keys, h.contains, Registry.isRegistered, Option.isSome_iff_exists, List.mem_map]
    simp only [Registry.get?_eq_some hu]
  rw [RegistryIndex.size, ← Table.length_keys, hkeys.length_eq, List.length_map]

theorem Represents.head? (h : x.Represents r) (hu : r.Unambiguous) : x.head? = r.head? := by
  unfold RegistryIndex.head? Registry.head?
  rw [h.order, Registry.places, List.head?_map]
  cases hg : r.entries.head? with
  | none => rfl
  | some e =>
    rw [Option.map_some, Option.bind_some, h.entries]
    exact (Registry.get?_eq_some hu).2 ⟨List.mem_of_head? hg, rfl⟩

theorem Represents.next? (h : x.Represents r) (hu : r.Unambiguous) (owner : Address) :
    x.next? owner = r.next? owner := by
  unfold RegistryIndex.next? Registry.next?
  rw [h.entries]
  cases r.get? owner with
  | none => rfl
  | some e =>
    dsimp only
    rw [h.order, Registry.places, List.find?_map]
    show ((r.entries.find? fun y => e.Precedes y.stake y.seq).map _).bind _ = _
    cases hg : r.entries.find? fun y => e.Precedes y.stake y.seq with
    | none => rfl
    | some y =>
      rw [Option.map_some, Option.bind_some, h.entries]
      exact (Registry.get?_eq_some hu).2 ⟨List.mem_of_find?_eq_some hg, rfl⟩

theorem Represents.walkFrom (h : x.Represents r) (hu : r.Unambiguous) (limit : Nat) :
    ∀ start, x.walkFrom limit start = r.walkFrom limit start := by
  induction limit with
  | zero => exact fun _ => rfl
  | succ limit ih =>
    intro start
    cases start with
    | none => rfl
    | some e => rw [RegistryIndex.walkFrom, Registry.walkFrom, h.next? hu, ih]

/-! ### Hints -/

theorem Represents.predecessor? (h : x.Represents r) {stake : Amount} {seq : Nat}
    {excluded : Option OrderKey}
    (hexcluded : ∀ e ∈ r.entries, some e.key ≠ excluded ↔ e.seq ≠ seq) :
    x.predecessor? ⟨stake, seq⟩ excluded = r.predecessor? stake seq := by
  unfold RegistryIndex.predecessor? Registry.predecessor?
  rw [h.order, Registry.places, ← List.head?_filter, List.filter_reverse, List.head?_reverse,
    List.filter_filter, List.filter_map, List.getLast?_map, Option.map_map]
  have hfilter : r.entries.filter ((fun p : OrderKey × Address =>
      decide (some p.1 ≠ excluded) && decide (p.1.Lt ⟨stake, seq⟩)) ∘ fun e => (e.key, e.owner))
      = r.entries.filter (fun e => e.Precedes stake seq ∧ e.seq ≠ seq) := by
    apply List.filter_congr
    intro e he
    rw [Function.comp_apply, ← Bool.decide_and, decide_eq_decide, and_comm]
    exact and_congr_right fun _ => hexcluded e he
  rw [hfilter]
  rfl

theorem Represents.checkPlace (h : x.Represents r) (stake : Amount) {seq : Nat}
    {excluded : Option OrderKey}
    (hexcluded : ∀ e ∈ r.entries, some e.key ≠ excluded ↔ e.seq ≠ seq) (hint : Option PrevHint) :
    x.checkPlace ⟨stake, seq⟩ excluded hint = (r.queryPlace stake seq hint).map fun _ => () := by
  cases hint with
  | none => rfl
  | some hint =>
    unfold RegistryIndex.checkPlace Registry.queryPlace
    dsimp only
    rw [h.predecessor? hexcluded]
    have hcheck : x.checkHint (r.predecessor? stake seq) hint
        = r.checkHint (r.predecessor? stake seq) hint := by
      cases hint with
      | head => rfl
      | after owner =>
        have hregistered : x.isRegistered owner = r.isRegistered owner := h.contains owner
        unfold RegistryIndex.checkHint Registry.checkHint
        dsimp only
        rw [hregistered]
    rw [hcheck]
    cases r.checkHint (r.predecessor? stake seq) hint <;> rfl

/-! ### Writing -/

theorem Represents.registered (h : x.Represents r) (ho : r.Ordered) (hu : r.Unambiguous)
    {owner address : Address} {name : String} {stake : Amount} {hint : Option PrevHint}
    {entry : OracleEntry} {r' : Registry}
    (hr : r.register owner address name stake hint = .ok (entry, r')) :
    Represents ⟨x.entries.insert owner entry, x.byAddress.insert address owner,
      putKey ⟨stake, r.nextSeq⟩ owner x.order, r.nextSeq + 1⟩ r' := by
  have hget := Registry.get?_register hr
  have howner := Registry.ownerOf?_register hu hr
  obtain ⟨hentry, rfl⟩ := Registry.register_eq_ok hr
  refine ⟨fun o => ?_, fun a => ?_, ?_, rfl⟩
  · rw [Table.get?_insert, h.entries, hget, hentry]
  · rw [Table.get?_insert, h.byAddress, howner]
  · have hfresh : ∀ e ∈ r.entries, e.seq ≠ entry.seq := by
      intro e he
      rw [hentry]
      exact Nat.ne_of_lt (ho.seq_lt e he)
    show putKey _ owner x.order = (place entry r.entries).map _
    rw [map_place hfresh, h.order, hentry]
    rfl

theorem Represents.register (h : x.Represents r) (ho : r.Ordered) (hu : r.Unambiguous)
    (owner address : Address) (name : String) (stake : Amount) (hint : Option PrevHint) :
    Agree (x.register owner address name stake hint) (r.register owner address name stake hint) := by
  have hplace := h.checkPlace stake (Registry.key_ne_none_iff ho) hint
  have hregistered : ∀ {entry : OracleEntry} {r' : Registry},
      r.register owner address name stake hint = .ok (entry, r') →
      Represents ⟨x.entries.insert owner entry, x.byAddress.insert address owner,
        putKey ⟨stake, r.nextSeq⟩ owner x.order, r.nextSeq + 1⟩ r' := fun hr => h.registered ho hu hr
  unfold RegistryIndex.register
  unfold Registry.register at hregistered ⊢
  rw [h.contains, h.contains_byAddress, h.nextSeq, hplace]
  refine .ite (fun _ => .refused _) fun hz => .ite (fun _ => .refused _) fun hz' =>
    .ite (fun _ => .refused _) fun hnew => .ite (fun _ => .refused _) fun hfree => ?_
  rw [if_neg hz, if_neg hz', if_neg hnew, if_neg hfree] at hregistered
  cases hq : r.queryPlace stake r.nextSeq hint with
  | error e => exact .refused _
  | ok place =>
    rw [hq] at hregistered
    exact .accepted _ (hregistered rfl)

theorem Represents.restaked (h : x.Represents r) (ho : r.Ordered) (hu : r.Unambiguous)
    {e : OracleEntry} (he : r.get? e.owner = some e) (stake : Amount) :
    Represents { x with
      order := if e.key = ⟨stake, e.seq⟩ then x.order
        else putKey ⟨stake, e.seq⟩ e.owner (dropKey e.key x.order)
      entries := x.entries.insert e.owner { e with stake } } (r.restake e stake) := by
  have hmem := Registry.mem_of_get? he
  refine ⟨fun o => ?_, fun a => ?_, ?_, h.nextSeq⟩
  · rw [Table.get?_insert, h.entries, Registry.get?_restake]
  · have hplace := (Registry.perm_place { e with stake } (r.others e.owner)).map fun e =>
      (e.owner, e.address)
    have hothers := (Registry.perm_others hu he).map fun e => (e.owner, e.address)
    have hperm : (r.restake e stake).reporters.Perm r.reporters := hplace.trans hothers
    rw [Registry.ownerOf?_of_perm hu hperm]
    exact h.byAddress a
  · show (if e.key = ⟨stake, e.seq⟩ then x.order else _) = _
    split
    · rename_i hsame
      have hstake : e.stake = stake := congrArg OrderKey.stake hsame
      rw [h.order, Registry.places, Registry.places, ← hstake, Registry.entries_restake_self ho hu he]
    · have hfresh : ∀ y ∈ r.others e.owner, y.seq ≠ ({ e with stake } : OracleEntry).seq := by
        intro y hy heq
        obtain ⟨hy, hne⟩ := List.mem_filter.1 hy
        rw [decide_eq_true_eq] at hne
        exact hne (congrArg _ (Registry.seq_eq ho hy hmem heq))
      show _ = (place { e with stake } (r.others e.owner)).map _
      rw [map_place hfresh, map_others ho hu hmem, h.order]
      rfl

theorem Represents.setStake (h : x.Represents r) (ho : r.Ordered) (hu : r.Unambiguous)
    (owner : Address) (stake : Amount) (hint : Option PrevHint) :
    Agree (x.setStake owner stake hint) (r.setStake owner stake hint) := by
  unfold RegistryIndex.setStake Registry.setStake
  rw [h.entries]
  cases he : r.get? owner with
  | none => exact .refused _
  | some e =>
    obtain rfl := Registry.owner_of_get? he
    have hmem := Registry.mem_of_get? he
    have hplace := h.checkPlace stake (Registry.key_ne_iff ho hmem) hint
    dsimp only
    rw [hplace]
    cases hq : r.queryPlace stake e.seq hint with
    | error err => exact .refused _
    | ok place => exact .accepted _ (h.restaked ho hu he stake)

theorem Represents.adjustStake (h : x.Represents r) (ho : r.Ordered) (hu : r.Unambiguous)
    (owner : Address) (delta : StakeDelta) (hint : Option PrevHint) :
    Agree (x.adjustStake owner delta hint) (r.adjustStake owner delta hint) := by
  unfold RegistryIndex.adjustStake Registry.adjustStake
  rw [h.entries]
  cases r.get? owner with
  | none => exact .refused _
  | some e =>
    dsimp only
    cases delta.applyTo e.stake with
    | error err => exact .refused _
    | ok stake => exact (h.setStake ho hu owner stake hint).map fun _ => stake

theorem Represents.remove (h : x.Represents r) (ho : r.Ordered) (hu : r.Unambiguous) (owner : Address) :
    Agree (x.remove owner) (r.remove owner) := by
  have hremoved : ∀ {e : OracleEntry} {r' : Registry}, r.remove owner = .ok (e, r') →
      Represents { x with
        entries := x.entries.erase owner
        byAddress := x.byAddress.erase e.address
        order := dropKey e.key x.order } r' := by
    intro e r' hr
    have hget := Registry.get?_remove hr
    have howner := Registry.ownerOf?_remove hu hr
    obtain ⟨he, hentries⟩ := Registry.remove_eq_ok hr
    have hnext : r'.nextSeq = r.nextSeq := by
      unfold Registry.remove at hr
      rw [he] at hr
      cases hr
      rfl
    refine ⟨fun o => ?_, fun a => ?_, ?_, by rw [hnext, h.nextSeq]⟩
    · rw [Table.get?_erase, h.entries, hget]
    · rw [Table.get?_erase, h.byAddress, howner]
    · obtain rfl := Registry.owner_of_get? he
      show dropKey e.key x.order = r'.entries.map _
      rw [h.order, hentries, map_others ho hu (Registry.mem_of_get? he)]
  unfold RegistryIndex.remove
  unfold Registry.remove at hremoved ⊢
  rw [h.entries]
  cases hg : r.get? owner with
  | none => exact .refused _
  | some e =>
    rw [hg] at hremoved
    exact .accepted _ (hremoved rfl)

theorem Represents.modify (h : x.Represents r) (hu : r.Unambiguous) (owner : Address)
    {f : OracleEntry → OracleEntry} (howner : ∀ e, (f e).owner = e.owner)
    (haddress : ∀ e, (f e).address = e.address) (hkey : ∀ e, (f e).key = e.key) :
    (r.get? owner = none ∧ x.modify owner f = .error (.notRegistered owner)) ∨
      ∃ e x', r.get? owner = some e ∧ x.modify owner f = .ok (e, x') ∧
        x'.Represents (r.update owner f) := by
  unfold RegistryIndex.modify
  rw [h.entries]
  cases he : r.get? owner with
  | none => exact .inl ⟨rfl, rfl⟩
  | some e =>
    refine .inr ⟨e, _, rfl, rfl, fun o => ?_, fun a => ?_, ?_, h.nextSeq⟩
    · rw [Table.get?_insert, h.entries, Registry.get?_update r owner howner]
      by_cases heq : o = owner
      · rw [if_pos heq, heq, he, Option.map_some, if_pos rfl]
      · rw [if_neg heq]
        simp [heq]
    · have hreporters : (r.update owner f).reporters = r.reporters :=
        Registry.map_update r owner fun e => by rw [haddress, howner]
      rw [Registry.ownerOf?_of_perm hu (.of_eq hreporters)]
      exact h.byAddress a
    · rw [h.order]
      exact (Registry.map_update r owner (g := fun e => (e.key, e.owner)) fun e => by
        rw [hkey, howner]).symm

/-! ### Runs -/

def perform (x : RegistryIndex) : Registry.Call → Except RegistryError RegistryIndex
  | .register owner address name stake hint => (x.register owner address name stake hint).map (·.2)
  | .setStake owner stake hint => (x.setStake owner stake hint).map (·.2)
  | .adjustStake owner delta hint => (x.adjustStake owner delta hint).map (·.2)
  | .remove owner => (x.remove owner).map (·.2)
  | .setName owner name => x.setName owner name
  | .addSubscription owner pair => (x.addSubscription owner pair).map (·.2)
  | .removeSubscription owner pair => (x.removeSubscription owner pair).map (·.2)

/-- The indexes after a call. One that is refused changes nothing. -/
def after (x : RegistryIndex) (call : Registry.Call) : RegistryIndex := (x.perform call).toOption.getD x

def run (x : RegistryIndex) (calls : List Registry.Call) : RegistryIndex := calls.foldl after x

theorem Agree.dropped {α : Type} {a : Except RegistryError (α × RegistryIndex)}
    {b : Except RegistryError (α × Registry)} (h : Agree a b) :
    (∃ e, a.map (·.2) = .error e ∧ b.map (·.2) = .error e) ∨
      ∃ x r, a.map (·.2) = .ok x ∧ b.map (·.2) = .ok r ∧ x.Represents r := by
  cases h with
  | refused e => exact .inl ⟨e, rfl, rfl⟩
  | accepted a h => exact .inr ⟨_, _, rfl, rfl, h⟩

/-- Any call is refused by both alike, or accepted by both, which go on telling the same. -/
theorem Represents.perform (h : x.Represents r) (ho : r.Ordered) (hu : r.Unambiguous)
    (call : Registry.Call) :
    (∃ e, x.perform call = .error e ∧ r.perform call = .error e) ∨
      ∃ x' r', x.perform call = .ok x' ∧ r.perform call = .ok r' ∧ x'.Represents r' := by
  cases call with
  | register owner address name stake hint => exact (h.register ho hu owner address name stake hint).dropped
  | setStake owner stake hint => exact (h.setStake ho hu owner stake hint).dropped
  | adjustStake owner delta hint => exact (h.adjustStake ho hu owner delta hint).dropped
  | remove owner => exact (h.remove ho hu owner).dropped
  | setName owner name =>
    show (∃ e, x.setName owner name = _ ∧ r.setName owner name = _) ∨ ∃ x' r', x.setName owner name = _ ∧
      r.setName owner name = _ ∧ _
    unfold RegistryIndex.setName Registry.setName Registry.isRegistered
    rcases h.modify hu owner (f := ({ · with name })) (fun _ => rfl) (fun _ => rfl) (fun _ => rfl)
      with ⟨hnone, hx⟩ | ⟨e, x', he, hx, h'⟩
    · rw [hx, hnone]
      exact .inl ⟨_, rfl, rfl⟩
    · rw [hx, he]
      exact .inr ⟨x', _, rfl, rfl, h'⟩
  | addSubscription owner pair =>
    refine Agree.dropped (a := x.addSubscription owner pair) (b := r.addSubscription owner pair) ?_
    unfold RegistryIndex.addSubscription Registry.addSubscription
    rcases h.modify hu owner (f := fun e => { e with subscribedPairs := e.subscribedPairs.add pair })
      (fun _ => rfl) (fun _ => rfl) (fun _ => rfl) with ⟨hnone, hx⟩ | ⟨e, x', he, hx, h'⟩
    · rw [hx, hnone]
      exact .refused _
    · rw [hx, he]
      exact .accepted _ h'
  | removeSubscription owner pair =>
    refine Agree.dropped (a := x.removeSubscription owner pair) (b := r.removeSubscription owner pair) ?_
    unfold RegistryIndex.removeSubscription Registry.removeSubscription
    rcases h.modify hu owner (f := fun e => { e with subscribedPairs := e.subscribedPairs.erase pair })
      (fun _ => rfl) (fun _ => rfl) (fun _ => rfl) with ⟨hnone, hx⟩ | ⟨e, x', he, hx, h'⟩
    · rw [hx, hnone]
      exact .refused _
    · rw [hx, he]
      exact .accepted _ h'

theorem Represents.after (h : x.Represents r) (hr : r.Reachable) (call : Registry.Call) :
    (x.after call).Represents (r.after call) := by
  unfold RegistryIndex.after Registry.after
  rcases h.perform hr.ordered hr.unambiguous call with ⟨e, hx, hr⟩ | ⟨x', r', hx, hr, h'⟩
  · rw [hx, hr]
    exact h
  · rw [hx, hr]
    exact h'

theorem Represents.run (calls : List Registry.Call) : ∀ {x : RegistryIndex} {r : Registry},
    x.Represents r → r.Reachable → (x.run calls).Represents (r.run calls) := by
  induction calls with
  | nil => exact fun h _ => h
  | cons call calls ih => exact fun h hr => ih (h.after hr call) (hr.after call)

end RegistryIndex

/-! ### What both stores tell -/

/-- Oracles strictly by stake, the highest first, and by number among equals, all with numbers, owners and
addresses of their own. -/
structure Ranking (es : List OracleEntry) : Prop where
  sorted : es.Pairwise OracleEntry.Before
  seqs : (es.map (·.seq)).Nodup
  owners : (es.map (·.owner)).Nodup
  addresses : (es.map (·.address)).Nodup

/-- The answers of a store of some oracles: it finds those and no others by owner and by address, counts
them, and walks through them from the first to the last, where the walk ends. -/
structure Answers (es : List OracleEntry) (get? getByAddress? : Address → Option OracleEntry)
    (ownerOf? : Address → Option Address) (size : Nat) (walk : (limit : Nat) → List OracleEntry) :
    Prop where
  get?_eq_some : ∀ owner e, get? owner = some e ↔ e ∈ es ∧ e.owner = owner
  getByAddress?_eq_some : ∀ address e, getByAddress? address = some e ↔ e ∈ es ∧ e.address = address
  ownerOf?_eq_some : ∀ address owner,
    ownerOf? address = some owner ↔ ∃ e ∈ es, e.address = address ∧ e.owner = owner
  size_eq : size = es.length
  walk_eq : ∀ limit, size ≤ limit → walk limit = es

namespace RegistryIndex

/-- After any calls, accepted or refused, with hints or without: the indexes list the oracles of the
registry, in their ranking, and both give the answers of a store of these. The ranking is told by the stakes
now and the order of the registrations alone. A call is refused by both or by neither, and one that is
refused changes neither. -/
theorem ranking_run (calls : List Registry.Call) :
    let r := Registry.empty.run calls
    let x := empty.run calls
    x.toList = r.entries ∧ Ranking r.entries ∧
      Answers r.entries r.get? r.getByAddress? r.ownerOf? r.size (r.walkFrom · r.head?) ∧
      Answers x.toList x.get? x.getByAddress? x.ownerOf? x.size (x.walkFrom · x.head?) ∧
      r.entries.map (·.owner) = Registry.byStake r.stakeOf (Registry.empty.roll [] calls) ∧
      ∀ call, ((∃ e, x.perform call = .error e) ↔ ∃ e, r.perform call = .error e) ∧
        ∀ e, x.perform call = .error e → x.after call = x ∧ r.after call = r := by
  intro r x
  have hr : r.Reachable := Registry.Reachable.empty.run calls
  have hu := hr.unambiguous
  have ho := hr.ordered
  have h : x.Represents r := represents_empty.run calls .empty
  have hlist := h.toList hu
  have hanswers : Answers r.entries r.get? r.getByAddress? r.ownerOf? r.size (r.walkFrom · r.head?) :=
    ⟨fun _ _ => Registry.get?_eq_some hu, fun _ _ => Registry.getByAddress?_eq_some hu,
      fun _ _ => Registry.ownerOf?_eq_some hu, rfl, fun _ hlimit => Registry.walk_eq ho hu hlimit⟩
  refine ⟨hlist, ⟨ho.sorted, ho.seqs, hu.owners, hu.addresses⟩, hanswers, ?_,
    (Registry.enrolled_empty.run calls .empty).owners_eq ho hu, fun call => ?_⟩
  · have hget : x.get? = r.get? := funext h.entries
    have haddress : x.getByAddress? = r.getByAddress? := funext (h.getByAddress? hu)
    have howner : x.ownerOf? = r.ownerOf? := funext h.byAddress
    have hwalk : (x.walkFrom · x.head?) = (r.walkFrom · r.head?) := by
      funext limit
      rw [h.walkFrom hu, h.head? hu]
    rw [hlist, hget, haddress, howner, h.size hu, hwalk]
    exact hanswers
  · rcases h.perform ho hu call with ⟨e, hx, hrefused⟩ | ⟨x', r', hx, haccepted, -⟩
    · refine ⟨iff_of_true ⟨e, hx⟩ ⟨e, hrefused⟩, fun _ _ => ⟨?_, ?_⟩⟩
      · rw [RegistryIndex.after, hx]
        rfl
      · rw [Registry.after, hrefused]
        rfl
    · rw [hx, haccepted]
      exact ⟨by simp, fun e he => by cases he⟩

/-- A wrong hint is refused, a right one moves an oracle behind its equals by registration, and an owner that
leaves and comes back stands behind them all. -/
theorem ranking_run_of_return :
    let a := Address.ofNat 1
    let b := Address.ofNat 2
    let c := Address.ofNat 3
    let calls : List Registry.Call := [
      .register a (.ofNat 11) "a" 5 none,
      .register b (.ofNat 12) "b" 5 (some (.after a)),
      .register c (.ofNat 13) "c" 7 (some .head),
      .setStake c 5 (some .head),
      .adjustStake c (.decrease 2) (some (.after b)),
      .remove a,
      .register a (.ofNat 11) "a" 5 none]
    (empty.run calls).toList.map (·.owner) = [b, c, a] ∧
      Registry.empty.roll [] calls = [b, c, a] ∧
      (empty.run calls).ownerOf? (.ofNat 11) = some a ∧ (empty.run calls).size = 3 := by
  intro a b c calls
  obtain ⟨hlist, -, -, hanswers, hrank, -⟩ := ranking_run calls
  have hroll : Registry.empty.roll [] calls = [b, c, a] := by decide +kernel
  have hstakes : Registry.byStake (Registry.empty.run calls).stakeOf [b, c, a] = [b, c, a] := by
    decide +kernel
  have howner : (empty.run calls).ownerOf? (.ofNat 11) = some a := by decide +kernel
  rw [hroll, hstakes] at hrank
  refine ⟨by rw [hlist, hrank], hroll, howner, ?_⟩
  rw [hanswers.size_eq, hlist, ← List.length_map (·.owner), hrank]
  rfl

end RegistryIndex

end PriceOracle
