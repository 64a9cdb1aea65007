import PriceOracle.Network.Basic
import PriceOracle.Proofs.Table
/-! The network as its events tell it. A reader of events keeps a book of the registered oracles and one
page a pair. Events of oracles change the book, events of a pair change its page, and a page is read with
the book as it stands: events name oracles now by their owner, now by their address. -/
namespace PriceOracle

/-! ### Oracles -/

/-- The registered oracles by their owners, each with its address and its name. -/
abbrev OracleBook := Table Address (Address × String)

namespace OracleBook

def addressOf (b : OracleBook) (owner : Address) : Address := (b.get? owner).elim .zero (·.1)

def ownerOf (b : OracleBook) (address : Address) : Address :=
  (b.toList.find? (·.2.1 = address)).elim .zero (·.1)

def apply (b : OracleBook) : Event → OracleBook
  | .oracleRegistered owner address name => b.insert owner (address, name)
  | .oracleNameChanged owner name => (b.get? owner).elim b fun x => b.insert owner (x.1, name)
  | .oracleRemoved owner _ => b.erase owner
  | _ => b

end OracleBook

/-! ### Pairs -/

structure SeatView where
  owner : Address
  address : Address
  points : Nat
deriving DecidableEq, Inhabited

structure PairView where
  subscribed : KeySet Address
  number : Nat
  lockUntil : Nat
  seats : List SeatView
  /-- The last price that was published, and its block. -/
  published : Option (Amount × Nat)
deriving DecidableEq

def Event.Publishes (pair : CoinPair) : Event → Prop
  | .pricePublished told .. | .emergencyPricePublished told .. => told = pair
  | _ => False

namespace PairView

def initial : PairView := ⟨.empty, 1, 0, [], none⟩

def apply (b : OracleBook) (v : PairView) : Event → PairView
  | .oracleSubscribed owner _ => { v with subscribed := v.subscribed.add owner }
  | .oracleUnsubscribed owner _ => { v with subscribed := v.subscribed.erase owner }
  | .oracleJoinedRound owner _ _ => { v with seats := v.seats ++ [⟨owner, b.addressOf owner, 0⟩] }
  | .oracleLeftRound owner _ _ => { v with seats := v.seats.filter (·.owner ≠ owner) }
  | .pricePublished _ sender _ price block =>
    { v with
      seats := v.seats.map fun s => if s.address = sender then { s with points := s.points + 1 } else s
      published := some (price, block) }
  | .emergencyPricePublished _ _ price block => { v with published := some (price, block) }
  | .newRound _ _ number lockUntil selected =>
    { v with number, lockUntil, seats := selected.map fun address => ⟨b.ownerOf address, address, 0⟩ }
  | _ => v

def applyAll (b : OracleBook) (v : PairView) (events : List Event) : PairView := events.foldl (apply b) v

@[simp]
theorem applyAll_nil (b : OracleBook) (v : PairView) : v.applyAll b [] = v := rfl

@[simp]
theorem applyAll_cons (b : OracleBook) (v : PairView) (e : Event) (es : List Event) :
    v.applyAll b (e :: es) = (v.apply b e).applyAll b es := rfl

theorem applyAll_append (b : OracleBook) (v : PairView) (es fs : List Event) :
    v.applyAll b (es ++ fs) = (v.applyAll b es).applyAll b fs :=
  List.foldl_append

theorem isSome_published_of_publishes {e : Event} {pair : CoinPair} (h : e.Publishes pair) (b : OracleBook)
    (v : PairView) : (v.apply b e).published.isSome := by
  cases e <;> first | rfl | cases h

theorem isSome_published_apply {v : PairView} (h : v.published.isSome) (b : OracleBook) (e : Event) :
    (v.apply b e).published.isSome := by
  cases e <;> first | rfl | exact h

end PairView

/-! ### The network -/

structure NetworkView where
  book : OracleBook
  pages : Table CoinPair PairView
deriving DecidableEq

namespace NetworkView

def initial : NetworkView := ⟨.empty, .empty⟩

def page (v : NetworkView) (pair : CoinPair) : PairView := (v.pages.get? pair).getD .initial

def apply (v : NetworkView) (e : Event) : NetworkView where
  book := v.book.apply e
  pages := e.pair?.elim v.pages fun pair => v.pages.insert pair ((v.page pair).apply v.book e)

def replay (v : NetworkView) (events : List Event) : NetworkView := events.foldl apply v

@[simp]
theorem replay_nil (v : NetworkView) : v.replay [] = v := rfl

@[simp]
theorem replay_cons (v : NetworkView) (e : Event) (es : List Event) :
    v.replay (e :: es) = (v.apply e).replay es := rfl

theorem replay_append (v : NetworkView) (es fs : List Event) :
    v.replay (es ++ fs) = (v.replay es).replay fs :=
  List.foldl_append

theorem page_apply (v : NetworkView) (e : Event) (pair : CoinPair) :
    (v.apply e).page pair = if e.pair? = some pair then (v.page pair).apply v.book e else v.page pair := by
  unfold apply page
  cases h : e.pair? with
  | none => simp
  | some told =>
    rw [Option.elim_some, Table.get?_insert]
    by_cases heq : pair = told
    · subst heq
      simp
    · simp [heq, Ne.symm heq]

theorem book_replay {es : List Event} (h : ∀ e ∈ es, e.pair?.isSome) :
    ∀ v : NetworkView, (v.replay es).book = v.book := by
  induction es with
  | nil => intro v; rfl
  | cons e es ih =>
    intro v
    have he := h e (List.mem_cons_self ..)
    rw [replay_cons, ih fun x hx => h x (List.mem_cons_of_mem _ hx)]
    cases e <;> first | rfl | cases he

/-- Of events of pairs, a page tells those of its own pair. -/
theorem page_replay {es : List Event} (h : ∀ e ∈ es, e.pair?.isSome) (pair : CoinPair) :
    ∀ v : NetworkView, (v.replay es).page pair
      = (v.page pair).applyAll v.book (es.filter (·.pair? = some pair)) := by
  induction es with
  | nil => intro v; rfl
  | cons e es ih =>
    intro v
    have hbook : (v.replay [e]).book = v.book := by
      refine book_replay (fun x hx => h x ?_) v
      rw [List.mem_singleton.1 hx]
      exact List.mem_cons_self ..
    rw [replay_cons, ih fun x hx => h x (List.mem_cons_of_mem _ hx), page_apply]
    rw [show (v.apply e).book = v.book from hbook, List.filter_cons]
    by_cases heq : e.pair? = some pair <;> simp [heq]

theorem page_replay_of_ne {es : List Event} {pair : CoinPair} (h : ∀ e ∈ es, e.pair? ≠ some pair) :
    ∀ v : NetworkView, (v.replay es).page pair = v.page pair := by
  induction es with
  | nil => intro v; rfl
  | cons e es ih =>
    intro v
    rw [replay_cons, ih fun x hx => h x (List.mem_cons_of_mem _ hx), page_apply,
      if_neg (h e (List.mem_cons_self ..))]

theorem isSome_published_replay {pair : CoinPair} {es : List Event} : ∀ {v : NetworkView},
    ((v.page pair).published.isSome ∨ ∃ e ∈ es, e.Publishes pair) →
    ((v.replay es).page pair).published.isSome := by
  induction es with
  | nil =>
    intro v h
    exact h.resolve_right fun ⟨e, he, _⟩ => nomatch he
  | cons e es ih =>
    intro v h
    rw [replay_cons]
    apply ih
    rw [page_apply]
    by_cases hpub : e.Publishes pair
    · have htold : e.pair? = some pair := by
        cases e <;> first | exact congrArg some hpub | cases hpub
      rw [if_pos htold]
      exact .inl (PairView.isSome_published_of_publishes hpub ..)
    · rcases h with h | ⟨x, hx, hxpub⟩
      · left
        split
        · exact PairView.isSome_published_apply h ..
        · exact h
      · rcases List.mem_cons.1 hx with rfl | hx
        · exact absurd hxpub hpub
        · exact .inr ⟨x, hx, hxpub⟩

end NetworkView

/-! ### Events of a table of pairs -/

/-- A list of what some entries give is each entry's own list, one after the other. -/
theorem flatMap_filterMap {α β γ : Type} (f : α → Option β) (g : β → List γ) (xs : List α) :
    (xs.filterMap f).flatMap g = xs.flatMap fun x => (f x).elim [] g := by
  induction xs with
  | nil => rfl
  | cons x xs ih =>
    rw [List.filterMap_cons, List.flatMap_cons]
    cases f x with
    | none => exact ih
    | some y => rw [Option.elim_some, List.flatMap_cons, ih]

/-- A list of what the entries with some property give is their lists, one after the other. -/
theorem map_filter_eq_flatMap {α β : Type} (p : α → Bool) (f : α → β) (xs : List α) :
    (xs.filter p).map f = xs.flatMap fun x => if p x then [f x] else [] := by
  induction xs with
  | nil => rfl
  | cons x xs ih =>
    rw [List.filter_cons, List.flatMap_cons, ← ih]
    split <;> rfl

/-- If each entry of a table gives events of its own key, the events of one key are those of its entry. -/
theorem filter_flatMap_toList {α : Type} (t : Table CoinPair α) {g : CoinPair → α → List Event}
    (hg : ∀ pair a, ∀ e ∈ g pair a, e.pair? = some pair) (pair : CoinPair) :
    (t.toList.flatMap fun x => g x.1 x.2).filter (·.pair? = some pair)
      = (t.get? pair).elim [] (g pair) := by
  have own (told : CoinPair) (a : α) :
      (g told a).filter (·.pair? = some pair) = if told = pair then g told a else [] := by
    split
    · rename_i heq
      subst heq
      exact List.filter_eq_self.2 fun e he => by simpa using hg told a e he
    · rename_i hne
      exact List.filter_eq_nil_iff.2 fun e he => by simp [hg told a e he, hne]
  obtain ⟨xs, hs⟩ := t
  simp only [Table.get?]
  induction xs with
  | nil => rfl
  | cons x xs ih =>
    obtain ⟨hx, hxs⟩ := List.pairwise_cons.1 hs
    rw [List.flatMap_cons, List.filter_append, ih hxs, own, Table.find]
    by_cases heq : x.1 = pair
    · subst heq
      have hnone : Table.find x.1 xs = none := Table.find_eq_none_of_lt hx
      simp [hnone]
    · simp [heq, Ne.symm heq]

end PriceOracle
