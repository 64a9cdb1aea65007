import PriceOracle.Proofs.Registry.Index
/-! Hints. The predecessor of a place is looked up in the order as it stands, where an oracle that is to move is
still at its old place. It is the one that the oracle has after the move, also among equal stakes and where the
oracle moves past itself. So a hint is right exactly if it tells the order that the call leaves: a right one makes
no difference, and with a wrong one the call is refused. -/
namespace PriceOracle

open OracleEntry (Before)

/-- An owner stands first among others, or directly behind another one. -/
def Follows (owners : List Address) (owner : Address) : Option Address → Prop
  | none => owners.head? = some owner
  | some prev => [prev, owner] <:+: owners

/-- Among owners that stand once, one stands behind the last of those before it. -/
theorem follows_append {before behind : List Address} {owner : Address}
    (hnodup : (before ++ owner :: behind).Nodup) (place : Option Address) :
    Follows (before ++ owner :: behind) owner place ↔ place = before.getLast? := by
  have hbefore : owner ∉ before := fun hmem => (List.nodup_append.1 hnodup).2.2 owner hmem owner (by simp) rfl
  have hbehind : owner ∉ behind := (List.nodup_cons.1 (List.nodup_append.1 hnodup).2.1).1
  cases place with
  | none =>
    cases before with
    | nil => simp [Follows]
    | cons a before =>
      have hne : a ≠ owner := fun heq => hbefore (heq ▸ List.mem_cons_self)
      simp [Follows, hne, List.getLast?_cons]
  | some prev =>
    constructor
    · rintro ⟨before', behind', heq⟩
      have hsplit : before ++ owner :: behind = (before' ++ [prev]) ++ owner :: behind' := by simp [← heq]
      obtain ⟨rfl, -, -⟩ := (List.append_cons_inj_of_notMem hbefore hbehind).1 hsplit
      simp
    · intro hlast
      obtain ⟨before', rfl⟩ := List.getLast?_eq_some_iff.1 hlast.symm
      exact ⟨before', behind, by simp⟩

namespace PrevHint

def claimed : PrevHint → Option Address
  | head => none
  | after prev => some prev

/-- What is wrong with a wrong hint: it names an owner without an oracle, or another place than the actual one. -/
def refusal (hint : PrevHint) (registered : Address → Bool) (actual : Option Address) : RegistryError :=
  match hint with
  | head => .wrongPrevEntry actual none
  | after prev => if registered prev then .wrongPrevEntry actual (some prev) else .invalidPrevEntry prev

end PrevHint

/-! ### What is asked of a store -/

section

variable {σ α : Type} (owners : σ → List Address) (registered : Address → Bool)

/-- A call that is accepted without a hint checks a hint and uses it for nothing else. A hint that tells the place of
an owner's oracle in the order that the call leaves makes no difference, and with any other hint the call is refused
for it. -/
def ChecksHint (owner : Address) (call : Option PrevHint → Except RegistryError (α × σ)) : Prop :=
  ∀ answer s, call none = .ok (answer, s) → ∀ hint : PrevHint,
    (Follows (owners s) owner hint.claimed ∧ call (some hint) = .ok (answer, s)) ∨
      (¬ Follows (owners s) owner hint.claimed ∧ ∃ actual, Follows (owners s) owner actual ∧
        call (some hint) = .error (.invalidHint (hint.refusal registered actual)))

/-- A query answers the one place that an owner has among others, and refuses hints that claim another. -/
def TellsPlace (order : List Address) (owner : Address)
    (query : Option PrevHint → Except RegistryError (Option Address)) : Prop :=
  ∃ actual, (∀ place, Follows order owner place ↔ place = actual) ∧ query none = .ok actual ∧
    ∀ hint : PrevHint, query (some hint) =
      if hint.claimed = actual then .ok actual else .error (hint.refusal registered actual)

/-- All calls of a store that take hints check them, and both queries tell places: that of an owner's oracle in the
order, and that of an oracle with some stake in the order that its registration would leave. -/
structure HintsChecked (s : σ)
    (register : Address → Address → String → Amount → Option PrevHint → Except RegistryError (OracleEntry × σ))
    (setStake : Address → Amount → Option PrevHint → Except RegistryError (Amount × σ))
    (adjustStake : Address → StakeDelta → Option PrevHint → Except RegistryError (Amount × σ))
    (queryPrev : Address → Option PrevHint → Except RegistryError (Option Address))
    (queryPrevByStake : Amount → Option PrevHint → Except RegistryError (Option Address)) : Prop where
  checks_register : ∀ owner address name stake,
    ChecksHint owners registered owner (register owner address name stake)
  checks_setStake : ∀ owner stake, ChecksHint owners registered owner (setStake owner stake)
  checks_adjustStake : ∀ owner delta, ChecksHint owners registered owner (adjustStake owner delta)
  tells_queryPrev : ∀ owner, registered owner → TellsPlace registered (owners s) owner (queryPrev owner)
  tells_queryPrevByStake : ∀ owner address name stake entry s',
    register owner address name stake none = .ok (entry, s') →
      TellsPlace registered (owners s') owner (queryPrevByStake stake)

end

/-! ### Places in the order -/

namespace Registry

variable {r r' : Registry} {e : OracleEntry} {stake : Amount}

/-- The owners in their order. -/
def owners (r : Registry) : List Address := r.entries.map (·.owner)

/-- The last of some entries that stand before a place. -/
def lastBefore? (es : List OracleEntry) (stake : Amount) (seq : Nat) : Option Address :=
  (es.filter (·.Precedes stake seq)).getLast?.map (·.owner)

/-- An entry is put between those that stand before it and the others. -/
theorem place_eq {es : List OracleEntry} (hs : es.Pairwise Before) (hnew : ∀ x ∈ es, x.seq ≠ e.seq) :
    ∃ behind, place e es = es.filter (·.Precedes e.stake e.seq) ++ e :: behind := by
  induction es with
  | nil => exact ⟨[], rfl⟩
  | cons x es ih =>
    obtain ⟨hx, hes⟩ := List.pairwise_cons.1 hs
    rw [place]
    by_cases hbefore : e.Precedes x.stake x.seq
    · -- all others stand behind the first one, and so behind the entry
      have hnone : (x :: es).filter (·.Precedes e.stake e.seq) = [] := by
        refine List.filter_eq_nil_iff.2 fun y hy => ?_
        rw [decide_eq_true_eq]
        rcases List.mem_cons.1 hy with rfl | hy
        · exact Before.asymm hbefore
        · exact Before.asymm (Before.trans hbefore (hx y hy))
      rw [if_pos hbefore, hnone]
      exact ⟨x :: es, rfl⟩
    · have hlater : x.Precedes e.stake e.seq := (Before.total (hnew x (by simp))).resolve_right hbefore
      obtain ⟨behind, hrest⟩ := ih hes fun y hy => hnew y (by simp [hy])
      rw [if_neg hbefore, hrest, List.filter_cons_of_pos (by simpa using hlater)]
      exact ⟨behind, rfl⟩

theorem follows_place {es : List OracleEntry} (hs : es.Pairwise Before) (hnew : ∀ x ∈ es, x.seq ≠ e.seq)
    (hnodup : ((place e es).map (·.owner)).Nodup) (p : Option Address) :
    Follows ((place e es).map (·.owner)) e.owner p ↔ p = lastBefore? es e.stake e.seq := by
  obtain ⟨behind, hplace⟩ := place_eq hs hnew
  rw [hplace, List.map_append, List.map_cons] at hnodup ⊢
  rw [follows_append hnodup, List.getLast?_map, lastBefore?]

/-- Nobody has the number of the next registration yet. -/
theorem predecessor?_nextSeq (h : r.Ordered) (stake : Amount) :
    r.predecessor? stake r.nextSeq = lastBefore? r.entries stake r.nextSeq := by
  rw [predecessor?, lastBefore?]
  congr 2
  refine List.filter_congr fun x hx => ?_
  rw [decide_eq_decide, and_iff_left (Nat.ne_of_lt (h.seq_lt x hx))]

/-- An oracle's number is its own, so leaving out its number leaves out its entry. -/
theorem predecessor?_seq (h : r.Ordered) (hu : r.Unambiguous) (he : r.get? e.owner = some e) (stake : Amount) :
    r.predecessor? stake e.seq = lastBefore? (r.others e.owner) stake e.seq := by
  have hmem := mem_of_get? he
  rw [predecessor?, lastBefore?, others, List.filter_filter]
  congr 2
  refine List.filter_congr fun x hx => ?_
  have hsame : x.seq = e.seq ↔ x.owner = e.owner := by
    constructor
    · intro heq
      rw [seq_eq h hx hmem heq]
    · intro heq
      rw [List.inj_on_of_nodup_map hu.owners hx hmem heq]
  rw [← Bool.decide_and, decide_eq_decide, ne_eq, ne_eq, hsame]

/-! ### Claims about places -/

theorem isRegistered_of_predecessor? {seq : Nat} {prev : Address} (h : r.predecessor? stake seq = some prev) :
    r.isRegistered prev := by
  obtain ⟨x, hx, rfl⟩ := Option.map_eq_some_iff.1 h
  have hmem : x ∈ r.entries := List.mem_of_mem_filter (List.mem_of_getLast? hx)
  rw [isRegistered, get?, List.find?_isSome]
  exact ⟨x, hmem, by simp⟩

/-- A claim about a place is right if it names the predecessor there, who is registered. -/
theorem queryPlace_some (r : Registry) (stake : Amount) (seq : Nat) (hint : PrevHint) :
    r.queryPlace stake seq (some hint) =
      if hint.claimed = r.predecessor? stake seq then .ok (r.predecessor? stake seq)
      else .error (hint.refusal r.isRegistered (r.predecessor? stake seq)) := by
  have hregistered : ∀ prev, r.predecessor? stake seq = some prev → r.isRegistered prev :=
    fun prev h => isRegistered_of_predecessor? h
  simp only [queryPlace]
  revert hregistered
  generalize r.predecessor? stake seq = actual
  intro hregistered
  cases hint with
  | head =>
    by_cases hactual : actual = none
    · subst hactual
      rfl
    · simp [checkHint, PrevHint.claimed, PrevHint.refusal, hactual, Ne.symm hactual, Except.map]
  | after prev =>
    by_cases hactual : actual = some prev
    · simp [checkHint, PrevHint.claimed, hactual, hregistered prev hactual, Except.map]
    · by_cases hprev : r.isRegistered prev
      · simp [checkHint, PrevHint.claimed, PrevHint.refusal, hactual, Ne.symm hactual, hprev, Except.map]
      · simp [checkHint, PrevHint.claimed, PrevHint.refusal, Ne.symm hactual, hprev, Except.map]

theorem tellsPlace_queryPlace {order : List Address} {owner : Address} {seq : Nat}
    (hplace : ∀ place, Follows order owner place ↔ place = r.predecessor? stake seq) :
    TellsPlace r.isRegistered order owner (r.queryPlace stake seq) :=
  ⟨_, hplace, rfl, queryPlace_some r stake seq⟩

/-- A call that looks at its hint only through a query of the place it leads to checks it. -/
theorem checksHint_of_queryPlace {α : Type} {owner : Address} {seq : Nat} {answer : α}
    {call : Option PrevHint → Except RegistryError (α × Registry)}
    (hcall : ∀ hint, call hint = match r.queryPlace stake seq hint with
      | .error err => .error (.invalidHint err)
      | .ok _ => .ok (answer, r'))
    (hplace : ∀ place, Follows r'.owners owner place ↔ place = r.predecessor? stake seq) :
    ChecksHint owners r.isRegistered owner call := by
  intro answer' s hnone hint
  rw [hcall] at hnone
  cases hnone
  rw [hcall, queryPlace_some, hplace]
  by_cases hright : hint.claimed = r.predecessor? stake seq
  · rw [if_pos hright]
    exact .inl ⟨hright, rfl⟩
  · rw [if_neg hright]
    exact .inr ⟨hright, _, (hplace _).2 rfl, rfl⟩

/-! ### Calls -/

theorem follows_register (h : r.Ordered) (hu : r.Unambiguous) {owner address : Address} {name : String}
    {hint : Option PrevHint} {entry : OracleEntry}
    (hr : r.register owner address name stake hint = .ok (entry, r')) (p : Option Address) :
    Follows r'.owners owner p ↔ p = r.predecessor? stake r.nextSeq := by
  have howners := (hu.register hr).owners
  obtain ⟨hentry, rfl⟩ := register_eq_ok hr
  have hfresh : ∀ x ∈ r.entries, x.seq ≠ entry.seq := by
    intro x hx
    rw [hentry]
    exact Nat.ne_of_lt (h.seq_lt x hx)
  have hfollows := follows_place h.sorted hfresh howners p
  rw [hentry] at hfollows
  rwa [predecessor?_nextSeq h, owners, hentry]

theorem follows_restake (h : r.Ordered) (hu : r.Unambiguous) (he : r.get? e.owner = some e) (stake : Amount)
    (p : Option Address) : Follows (r.restake e stake).owners e.owner p ↔ p = r.predecessor? stake e.seq := by
  have hmem := mem_of_get? he
  have howners := (hu.of_perm (identities_restake hu (List.mem_map_of_mem hmem) stake)).owners
  have hother : ∀ x ∈ r.others e.owner, x.seq ≠ ({ e with stake } : OracleEntry).seq := by
    intro x hx heq
    obtain ⟨hx, hne⟩ := List.mem_filter.1 hx
    rw [decide_eq_true_eq] at hne
    exact hne (congrArg _ (seq_eq h hx hmem heq))
  rw [predecessor?_seq h hu he]
  exact follows_place (h.sorted.sublist List.filter_sublist) hother howners p

/-- A registration that is accepted without a hint depends on a hint only through the query of its place. -/
theorem register_eq_queryPlace {owner address : Address} {name : String} {entry : OracleEntry}
    (hr : r.register owner address name stake none = .ok (entry, r')) (hint : Option PrevHint) :
    r.register owner address name stake hint = match r.queryPlace stake r.nextSeq hint with
      | .error err => .error (.invalidHint err)
      | .ok _ => .ok (entry, r') := by
  unfold Registry.register at hr ⊢
  split at hr
  · cases hr
  · rename_i howner
    split at hr
    · cases hr
    · rename_i haddress
      split at hr
      · cases hr
      · rename_i hnew
        split at hr
        · cases hr
        · rename_i hfree
          cases hr
          exact (if_neg howner).trans ((if_neg haddress).trans ((if_neg hnew).trans (if_neg hfree)))

theorem checksHint_register (h : r.Ordered) (hu : r.Unambiguous) (owner address : Address) (name : String)
    (stake : Amount) : ChecksHint owners r.isRegistered owner (r.register owner address name stake) := by
  intro entry r' hr
  exact checksHint_of_queryPlace (register_eq_queryPlace hr) (follows_register h hu hr) entry r' hr

theorem checksHint_setStake (h : r.Ordered) (hu : r.Unambiguous) (owner : Address) (stake : Amount) :
    ChecksHint owners r.isRegistered owner (r.setStake owner stake) := by
  intro old r' hr
  obtain ⟨e, he, -, -⟩ := setStake_eq_ok hr
  obtain rfl := owner_of_get? he
  have hcall : ∀ hint, r.setStake e.owner stake hint = match r.queryPlace stake e.seq hint with
      | .error err => .error (.invalidHint err)
      | .ok _ => .ok (e.stake, r.restake e stake) := by
    intro hint
    rw [setStake]
    split
    case h_1 hnone => cases he.symm.trans hnone
    case h_2 hsome =>
      cases he.symm.trans hsome
      rfl
  exact checksHint_of_queryPlace hcall (follows_restake h hu he stake) old r' hr

/-- A stake that is adjusted without a hint is set with any hint. -/
theorem adjustStake_eq_setStake {owner : Address} {delta : StakeDelta} {new : Amount}
    (hr : r.adjustStake owner delta none = .ok (new, r')) (hint : Option PrevHint) :
    r.adjustStake owner delta hint = (r.setStake owner new hint).map fun (_, r) => (new, r) := by
  unfold adjustStake at hr ⊢
  split at hr
  · cases hr
  · split at hr
    · cases hr
    · obtain ⟨_, -, heq⟩ := exists_of_map_eq_ok hr
      cases heq
      rfl

theorem checksHint_adjustStake (h : r.Ordered) (hu : r.Unambiguous) (owner : Address) (delta : StakeDelta) :
    ChecksHint owners r.isRegistered owner (r.adjustStake owner delta) := by
  intro new r' hr hint
  have hset := adjustStake_eq_setStake hr
  rw [hset] at hr ⊢
  obtain ⟨⟨old, r''⟩, hnone, heq⟩ := exists_of_map_eq_ok hr
  cases heq
  rcases checksHint_setStake h hu owner new old r' hnone hint with ⟨hright, hok⟩ | ⟨hwrong, actual, hactual, herr⟩
  · rw [hok]
    exact .inl ⟨hright, rfl⟩
  · rw [herr]
    exact .inr ⟨hwrong, actual, hactual, rfl⟩

/-- An oracle stands where it would be put with the stake it has. -/
theorem tellsPlace_queryPrev (h : r.Ordered) (hu : r.Unambiguous) {owner : Address}
    (hregistered : r.isRegistered owner) : TellsPlace r.isRegistered r.owners owner (r.queryPrev owner) := by
  obtain ⟨e, he⟩ := Option.isSome_iff_exists.1 hregistered
  obtain rfl := owner_of_get? he
  have hquery : r.queryPrev e.owner = r.queryPlace e.stake e.seq := by
    funext hint
    rw [queryPrev, he]
  have hstays : (r.restake e e.stake).owners = r.owners := by rw [owners, entries_restake_self h hu he, owners]
  have hplace := follows_restake h hu he e.stake
  rw [hstays] at hplace
  rw [hquery]
  exact tellsPlace_queryPlace hplace

theorem hintsChecked (h : r.Ordered) (hu : r.Unambiguous) :
    HintsChecked owners r.isRegistered r r.register r.setStake r.adjustStake r.queryPrev r.queryPrevByStake where
  checks_register := checksHint_register h hu
  checks_setStake := checksHint_setStake h hu
  checks_adjustStake := checksHint_adjustStake h hu
  tells_queryPrev _ hregistered := tellsPlace_queryPrev h hu hregistered
  tells_queryPrevByStake _ _ _ _ _ _ hr := tellsPlace_queryPlace (follows_register h hu hr)

end Registry

namespace RegistryIndex

variable {x x' : RegistryIndex} {r : Registry}

def owners (x : RegistryIndex) : List Address := x.order.map (·.2)

/-! ### In the indexes -/

theorem Represents.unique (h : x.Represents r) (h' : x'.Represents r) : x = x' := by
  have hentries : x.entries = x'.entries := Table.ext fun owner => by rw [h.entries, h'.entries]
  have hbyAddress : x.byAddress = x'.byAddress := Table.ext fun address => by rw [h.byAddress, h'.byAddress]
  have horder : x.order = x'.order := h.order.trans h'.order.symm
  have hnext : x.nextSeq = x'.nextSeq := h.nextSeq.trans h'.nextSeq.symm
  cases x
  cases x'
  simp_all

theorem Represents.owners (h : x.Represents r) : x.owners = r.owners := by
  rw [RegistryIndex.owners, h.order, Registry.places, List.map_map]
  rfl

theorem Represents.isRegistered (h : x.Represents r) : x.isRegistered = r.isRegistered := funext h.contains

/-- Calls with the same outcome on a registry and on its indexes check their hints alike. -/
theorem checksHint_of_agree {α : Type} {owner : Address}
    {call : Option PrevHint → Except RegistryError (α × RegistryIndex)}
    {call' : Option PrevHint → Except RegistryError (α × Registry)}
    (hagree : ∀ hint, Agree (call hint) (call' hint)) {registered : Address → Bool}
    (h : ChecksHint Registry.owners registered owner call') : ChecksHint owners registered owner call := by
  intro answer s hnone hint
  have hunhinted := hagree none
  have hhinted := hagree (some hint)
  rw [hnone] at hunhinted
  cases hnone' : call' none with
  | error e =>
    rw [hnone'] at hunhinted
    cases hunhinted
  | ok y =>
    rw [hnone'] at hunhinted
    cases hunhinted with
    | accepted _ hs =>
      rename_i r'
      rw [hs.owners]
      rcases h answer r' hnone' hint with ⟨hright, hok⟩ | ⟨hwrong, actual, hactual, herr⟩
      · refine .inl ⟨hright, ?_⟩
        rw [hok] at hhinted
        cases hcall : call (some hint) with
        | error e =>
          rw [hcall] at hhinted
          cases hhinted
        | ok z =>
          rw [hcall] at hhinted
          cases hhinted with
          | accepted _ hs' => rw [hs.unique hs']
      · refine .inr ⟨hwrong, actual, hactual, ?_⟩
        rw [herr] at hhinted
        cases hcall : call (some hint) with
        | error e =>
          rw [hcall] at hhinted
          cases hhinted
          rfl
        | ok z =>
          rw [hcall] at hhinted
          cases hhinted

theorem Represents.queryPlace (h : x.Represents r) (stake : Amount) {seq : Nat} {excluded : Option OrderKey}
    (hexcluded : ∀ e ∈ r.entries, some e.key ≠ excluded ↔ e.seq ≠ seq) (hint : Option PrevHint) :
    x.queryPlace ⟨stake, seq⟩ excluded hint = r.queryPlace stake seq hint := by
  rw [RegistryIndex.queryPlace, h.checkPlace stake hexcluded, h.predecessor? hexcluded]
  cases hint with
  | none => rfl
  | some hint =>
    rw [Registry.queryPlace]
    cases r.checkHint (r.predecessor? stake seq) hint <;> rfl

theorem Represents.queryPrevByStake (h : x.Represents r) (ho : r.Ordered) (stake : Amount)
    (hint : Option PrevHint) : x.queryPrevByStake stake hint = r.queryPrevByStake stake hint := by
  rw [RegistryIndex.queryPrevByStake, Registry.queryPrevByStake, h.nextSeq,
    h.queryPlace stake (Registry.key_ne_none_iff ho)]

theorem Represents.queryPrev (h : x.Represents r) (ho : r.Ordered) (owner : Address) (hint : Option PrevHint) :
    x.queryPrev owner hint = r.queryPrev owner hint := by
  rw [RegistryIndex.queryPrev, Registry.queryPrev, h.entries]
  cases he : r.get? owner with
  | none => rfl
  | some e => exact h.queryPlace e.stake (Registry.key_ne_iff ho (Registry.mem_of_get? he)) hint

theorem Represents.hintsChecked (h : x.Represents r) (ho : r.Ordered) (hu : r.Unambiguous) :
    HintsChecked RegistryIndex.owners x.isRegistered x x.register x.setStake x.adjustStake x.queryPrev
      x.queryPrevByStake := by
  have hregistry := r.hintsChecked ho hu
  have hprev : x.queryPrev = r.queryPrev := funext fun owner => funext (h.queryPrev ho owner)
  have hbyStake : x.queryPrevByStake = r.queryPrevByStake := funext fun stake => funext (h.queryPrevByStake ho stake)
  rw [h.isRegistered, hprev, hbyStake]
  refine ⟨fun owner address name stake => ?_, fun owner stake => ?_, fun owner delta => ?_,
    fun owner hregistered => ?_, fun owner address name stake entry s hs => ?_⟩
  · exact checksHint_of_agree (h.register ho hu owner address name stake)
      (hregistry.checks_register owner address name stake)
  · exact checksHint_of_agree (h.setStake ho hu owner stake) (hregistry.checks_setStake owner stake)
  · exact checksHint_of_agree (h.adjustStake ho hu owner delta) (hregistry.checks_adjustStake owner delta)
  · rw [h.owners]
    exact hregistry.tells_queryPrev owner hregistered
  · have hagree := h.register ho hu owner address name stake none
    rw [hs] at hagree
    cases hr : r.register owner address name stake none with
    | error e =>
      rw [hr] at hagree
      cases hagree
    | ok y =>
      rw [hr] at hagree
      cases hagree with
      | accepted _ hs' =>
        rw [hs'.owners]
        exact hregistry.tells_queryPrevByStake owner address name stake entry _ hr

/-- After any calls, accepted or refused, on the registry and on its indexes: a registration or a change of stake that
is accepted without a hint is accepted with one exactly if the hint tells the oracle's place in the order that the
call leaves, and then has the same outcome. With any other hint the call is refused for it, with the reason that the
hinted owner has no oracle where that is so. The queries answer the predecessor in the present order and in the order
that a registration would leave. What is refused changes nothing. -/
theorem hints_checked (calls : List Registry.Call) :
    let r := Registry.empty.run calls
    let x := empty.run calls
    HintsChecked Registry.owners r.isRegistered r r.register r.setStake r.adjustStake r.queryPrev
        r.queryPrevByStake ∧
      HintsChecked owners x.isRegistered x x.register x.setStake x.adjustStake x.queryPrev x.queryPrevByStake ∧
      ∀ call, (∀ e, r.perform call = .error e → r.after call = r) ∧
        ∀ e, x.perform call = .error e → x.after call = x := by
  intro r x
  have hr : r.Reachable := Registry.Reachable.empty.run calls
  have h : x.Represents r := represents_empty.run calls .empty
  refine ⟨r.hintsChecked hr.ordered hr.unambiguous, h.hintsChecked hr.ordered hr.unambiguous, fun call =>
    ⟨fun e he => ?_, fun e he => ?_⟩⟩
  · rw [Registry.after, he]
    rfl
  · rw [RegistryIndex.after, he]
    rfl

/-- The first of three oracles falls back to the stake of the others and so behind both. It may claim the last of them
as its predecessor, though it stands before that one now; that it stays first, that it follows the other one, and that
it follows an owner without an oracle are refused. -/
theorem hints_checked_of_tie :
    let a := Address.ofNat 1
    let b := Address.ofNat 2
    let c := Address.ofNat 3
    let d := Address.ofNat 4
    let calls : List Registry.Call := [
      .register a (.ofNat 11) "a" 5 none,
      .register b (.ofNat 12) "b" 5 (some (.after a)),
      .register c (.ofNat 13) "c" 7 (some .head)]
    let x := empty.run calls
    x.owners = [c, a, b] ∧ ∃ x', x.setStake c 5 none = .ok (7, x') ∧ x'.owners = [a, b, c] ∧
      x.setStake c 5 (some (.after b)) = .ok (7, x') ∧
      x.setStake c 5 (some .head) = .error (.invalidHint (.wrongPrevEntry (some b) none)) ∧
      x.setStake c 5 (some (.after a)) = .error (.invalidHint (.wrongPrevEntry (some b) (some a))) ∧
      x.setStake c 5 (some (.after d)) = .error (.invalidHint (.invalidPrevEntry d)) := by
  intro a b c d calls x
  have hmoved : (x.setStake c 5 none).map (fun y => (y.1, y.2.owners)) = .ok (7, [a, b, c]) := by decide +kernel
  obtain ⟨⟨old, x'⟩, hnone, heq⟩ := exists_of_map_eq_ok hmoved
  obtain ⟨rfl, horder⟩ : old = 7 ∧ x'.owners = [a, b, c] := Prod.mk.inj heq
  obtain ⟨-, hx, -⟩ := hints_checked calls
  have hchecks := hx.checks_setStake c 5 7 x' hnone
  rw [horder] at hchecks
  have hplace : ∀ place, Follows [a, b, c] c place ↔ place = some b :=
    follows_append (by decide : ([a, b] ++ [c]).Nodup)
  simp only [hplace] at hchecks
  have hright := hchecks (.after b)
  have hhead := hchecks .head
  have hother := hchecks (.after a)
  have hunknown := hchecks (.after d)
  have ha : (empty.run calls).isRegistered a = true := by decide +kernel
  have hd : (empty.run calls).isRegistered d = false := by decide +kernel
  refine ⟨by decide +kernel, x', hnone, horder, ?_, ?_, ?_, ?_⟩
  · simpa [PrevHint.claimed] using hright
  · simpa [PrevHint.claimed, PrevHint.refusal] using hhead
  · simpa [PrevHint.claimed, PrevHint.refusal, ha, show a ≠ b by decide] using hother
  · simpa [PrevHint.claimed, PrevHint.refusal, hd, show d ≠ b by decide] using hunknown

end RegistryIndex

end PriceOracle
