import PriceOracle.Registry.Basic
/-! The registry as three indexes: the entries by owner, the owners by reporting address, and the owners by
their places in the order. An operation looks nothing up by searching, and writes each index on its own;
that the indexes always tell the same oracles, in the order of the registry, is for the proofs. -/
namespace PriceOracle

/-- A place in the order of oracles. -/
structure OrderKey where
  stake : Amount
  seq : Nat
deriving DecidableEq, Inhabited

/-- The higher stake comes first, and of equal stakes the earlier registration. -/
def OrderKey.Lt (a b : OrderKey) : Prop := b.stake < a.stake ∨ a.stake = b.stake ∧ a.seq < b.seq

instance (a b : OrderKey) : Decidable (a.Lt b) := inferInstanceAs (Decidable (_ ∨ _))

def OracleEntry.key (e : OracleEntry) : OrderKey := ⟨e.stake, e.seq⟩

structure RegistryIndex where
  entries : Table Address OracleEntry
  byAddress : Table Address Address
  /-- Owners by ascending places. -/
  order : List (OrderKey × Address)
  nextSeq : Nat
deriving DecidableEq, Inhabited

namespace RegistryIndex

def empty : RegistryIndex := ⟨.empty, .empty, [], 0⟩

/-! ### Reading -/

def size (x : RegistryIndex) : Nat := x.entries.size

def get? (x : RegistryIndex) (owner : Address) : Option OracleEntry := x.entries.get? owner

def ownerOf? (x : RegistryIndex) (address : Address) : Option Address := x.byAddress.get? address

def getByAddress? (x : RegistryIndex) (address : Address) : Option OracleEntry :=
  (x.byAddress.get? address).bind x.entries.get?

def isRegistered (x : RegistryIndex) (owner : Address) : Bool := x.entries.contains owner

def head? (x : RegistryIndex) : Option OracleEntry := x.order.head?.bind (x.entries.get? ·.2)

/-- The oracle at the first place behind an owner's one. -/
def next? (x : RegistryIndex) (owner : Address) : Option OracleEntry :=
  match x.entries.get? owner with
  | none => none
  | some e => (x.order.find? (fun p => e.key.Lt p.1)).bind (x.entries.get? ·.2)

/-- The oracles in the order of their places. -/
def toList (x : RegistryIndex) : List OracleEntry := x.order.filterMap (x.entries.get? ·.2)

def walkFrom (x : RegistryIndex) : (limit : Nat) → Option OracleEntry → List OracleEntry
  | 0, _ | _, none => []
  | limit + 1, some e => e :: x.walkFrom limit (x.next? e.owner)

/-- The owner at the last place before a key, other than an excluded one. -/
def predecessor? (x : RegistryIndex) (key : OrderKey) (excluded : Option OrderKey) : Option Address :=
  ((x.order.filter (·.1.Lt key)).reverse.find? (some ·.1 ≠ excluded)).map (·.2)

def checkHint (x : RegistryIndex) (expected : Option Address) : PrevHint → Except RegistryError Unit
  | .head => if expected = none then .ok () else .error (.wrongPrevEntry expected none)
  | .after owner =>
    if ¬ x.isRegistered owner then .error (.invalidPrevEntry owner)
    else if expected = some owner then .ok ()
    else .error (.wrongPrevEntry expected (some owner))

/-- Checks a claim about a place, if there is one. -/
def checkPlace (x : RegistryIndex) (key : OrderKey) (excluded : Option OrderKey) :
    Option PrevHint → Except RegistryError Unit
  | none => .ok ()
  | some hint => x.checkHint (x.predecessor? key excluded) hint

/-- The predecessor of a place. A claim about it, if there is one, must be right. -/
def queryPlace (x : RegistryIndex) (key : OrderKey) (excluded : Option OrderKey) (hint : Option PrevHint) :
    Except RegistryError (Option Address) :=
  (x.checkPlace key excluded hint).map fun () => x.predecessor? key excluded

def queryPrevByStake (x : RegistryIndex) (stake : Amount) (hint : Option PrevHint) :
    Except RegistryError (Option Address) :=
  x.queryPlace ⟨stake, x.nextSeq⟩ none hint

def queryPrev (x : RegistryIndex) (owner : Address) (hint : Option PrevHint) :
    Except RegistryError (Option Address) :=
  match x.entries.get? owner with
  | none => .error (.notRegistered owner)
  | some e => x.queryPlace e.key (some e.key) hint

/-! ### Writing -/

/-- Puts an owner at a place, instead of who was there. -/
def putKey (key : OrderKey) (owner : Address) : List (OrderKey × Address) → List (OrderKey × Address)
  | [] => [(key, owner)]
  | p :: ps =>
    if key.Lt p.1 then (key, owner) :: p :: ps
    else if key = p.1 then (key, owner) :: ps
    else p :: putKey key owner ps

/-- Clears a place. -/
def dropKey (key : OrderKey) (order : List (OrderKey × Address)) : List (OrderKey × Address) :=
  order.filter (·.1 ≠ key)

def register (x : RegistryIndex) (owner address : Address) (name : String) (stake : Amount)
    (hint : Option PrevHint) : Except RegistryError (OracleEntry × RegistryIndex) :=
  if owner.isZero then .error .zeroOwner
  else if address.isZero then .error .zeroReporter
  else if x.entries.contains owner then .error (.ownerAlreadyRegistered owner)
  else if x.byAddress.contains address then .error (.addressAlreadyRegistered address)
  else
    match x.checkPlace ⟨stake, x.nextSeq⟩ none hint with
    | .error e => .error (.invalidHint e)
    | .ok () =>
      let entry := ⟨owner, address, name, stake, .empty, x.nextSeq⟩
      .ok (entry, {
        entries := x.entries.insert owner entry
        byAddress := x.byAddress.insert address owner
        order := putKey ⟨stake, x.nextSeq⟩ owner x.order
        nextSeq := x.nextSeq + 1 })

/-- Sets an oracle's stake, moves it to its place and answers the stake it had. An oracle that keeps its
place is not moved. -/
def setStake (x : RegistryIndex) (owner : Address) (stake : Amount) (hint : Option PrevHint) :
    Except RegistryError (Amount × RegistryIndex) :=
  match x.entries.get? owner with
  | none => .error (.notRegistered owner)
  | some e =>
    let key : OrderKey := ⟨stake, e.seq⟩
    match x.checkPlace key (some e.key) hint with
    | .error err => .error (.invalidHint err)
    | .ok () => .ok (e.stake, { x with
        order := if e.key = key then x.order else putKey key owner (dropKey e.key x.order)
        entries := x.entries.insert owner { e with stake } })

def adjustStake (x : RegistryIndex) (owner : Address) (delta : StakeDelta) (hint : Option PrevHint) :
    Except RegistryError (Amount × RegistryIndex) :=
  match x.entries.get? owner with
  | none => .error (.notRegistered owner)
  | some e =>
    match delta.applyTo e.stake with
    | .error err => .error err
    | .ok stake => (x.setStake owner stake hint).map fun (_, x) => (stake, x)

/-- Removes an oracle from every index. -/
def remove (x : RegistryIndex) (owner : Address) : Except RegistryError (OracleEntry × RegistryIndex) :=
  match x.entries.get? owner with
  | none => .error (.notRegistered owner)
  | some e => .ok (e, { x with
      entries := x.entries.erase owner
      byAddress := x.byAddress.erase e.address
      order := dropKey e.key x.order })

/-- Changes an owner's entry, whose address and place stay. -/
def modify (x : RegistryIndex) (owner : Address) (f : OracleEntry → OracleEntry) :
    Except RegistryError (OracleEntry × RegistryIndex) :=
  match x.entries.get? owner with
  | none => .error (.notRegistered owner)
  | some e => .ok (e, { x with entries := x.entries.insert owner (f e) })

def setName (x : RegistryIndex) (owner : Address) (name : String) : Except RegistryError RegistryIndex :=
  (x.modify owner ({ · with name })).map (·.2)

def addSubscription (x : RegistryIndex) (owner : Address) (pair : CoinPair) :
    Except RegistryError (Bool × RegistryIndex) :=
  (x.modify owner fun e => { e with subscribedPairs := e.subscribedPairs.add pair }).map
    fun (e, x) => (!e.isSubscribed pair, x)

def removeSubscription (x : RegistryIndex) (owner : Address) (pair : CoinPair) :
    Except RegistryError (Bool × RegistryIndex) :=
  (x.modify owner fun e => { e with subscribedPairs := e.subscribedPairs.erase pair }).map
    fun (e, x) => (e.isSubscribed pair, x)

end RegistryIndex

end PriceOracle
