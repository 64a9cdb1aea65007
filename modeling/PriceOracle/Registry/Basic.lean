import PriceOracle.Pair
import PriceOracle.Registry.Error
/-! The registry of oracles. Entries stand in the order of their stakes, the highest first, and of equal
stakes the one that registered first stands first. A caller may claim an entry's predecessor, and a call
with a wrong claim changes nothing. -/
namespace PriceOracle

/-- A registered oracle. -/
structure OracleEntry where
  /-- The account that registered the oracle and is paid its rewards. -/
  owner : Address
  /-- The address that the oracle signs and submits with. -/
  address : Address
  /-- The name of the host that the oracle runs on. -/
  name : String
  stake : Amount
  subscribedPairs : KeySet CoinPair
  /-- How many oracles had registered before. -/
  seq : Nat
deriving DecidableEq, Inhabited

namespace OracleEntry

/-- Whether an entry stands before the place of a stake and a sequence number. -/
def Precedes (e : OracleEntry) (stake : Amount) (seq : Nat) : Prop :=
  stake < e.stake ∨ e.stake = stake ∧ e.seq < seq

instance (e : OracleEntry) (stake : Amount) (seq : Nat) : Decidable (e.Precedes stake seq) :=
  inferInstanceAs (Decidable (_ ∨ _))

/-- Whether the oracle lists a pair as subscribed. -/
def isSubscribed (e : OracleEntry) (pair : CoinPair) : Bool := e.subscribedPairs.contains pair

end OracleEntry

/-- A claim about the predecessor of a place in the order. -/
inductive PrevHint where
  /-- There is none. -/
  | head
  /-- It is this owner's oracle. -/
  | after (owner : Address)
deriving DecidableEq, Inhabited

inductive StakeDelta where
  | increase (amount : Amount)
  | decrease (amount : Amount)
deriving DecidableEq, Inhabited

def StakeDelta.applyTo (stake : Amount) : StakeDelta → Except RegistryError Amount
  | .increase amount =>
    match Amount.add? stake amount with
    | some sum => .ok sum
    | none => .error .overflow
  | .decrease amount =>
    match Amount.sub? stake amount with
    | some rest => .ok rest
    | none => .error (.stakeUnderflow stake amount)

/-- All registered oracles, in their order. -/
structure Registry where
  entries : List OracleEntry
  /-- How many oracles ever registered. -/
  nextSeq : Nat
deriving DecidableEq, Inhabited

namespace Registry

def empty : Registry := ⟨[], 0⟩

/-! ### Reading -/

def get? (r : Registry) (owner : Address) : Option OracleEntry := r.entries.find? (·.owner = owner)

/-- The oracle that reports from an address. -/
def getByAddress? (r : Registry) (address : Address) : Option OracleEntry :=
  r.entries.find? (·.address = address)

/-- The owner of the oracle that reports from an address. -/
def ownerOf? (r : Registry) (address : Address) : Option Address :=
  (r.getByAddress? address).map (·.owner)

def isRegistered (r : Registry) (owner : Address) : Bool := (r.get? owner).isSome

def size (r : Registry) : Nat := r.entries.length

/-- The oracle with the highest stake. -/
def head? (r : Registry) : Option OracleEntry := r.entries.head?

/-- The oracle directly behind an owner's one. -/
def next? (r : Registry) (owner : Address) : Option OracleEntry :=
  match r.get? owner with
  | none => none
  | some e => r.entries.find? (fun x => e.Precedes x.stake x.seq)

/-- The oracles met on the way from one to the end, at most `limit` of them. -/
def walkFrom (r : Registry) : (limit : Nat) → Option OracleEntry → List OracleEntry
  | 0, _ | _, none => []
  | limit + 1, some e => e :: r.walkFrom limit (r.next? e.owner)

/-- The oracles met on the way from the head to the end. -/
def walk (r : Registry) : List OracleEntry := r.walkFrom r.size r.head?

/-- The predecessor of a place in the order, other than the entry with this sequence number. -/
def predecessor? (r : Registry) (stake : Amount) (seq : Nat) : Option Address :=
  (r.entries.filter (fun e => e.Precedes stake seq ∧ e.seq ≠ seq)).getLast?.map (·.owner)

/-- Compares a claim with the actual predecessor. -/
def checkHint (r : Registry) (expected : Option Address) : PrevHint → Except RegistryError Unit
  | .head => if expected = none then .ok () else .error (.wrongPrevEntry expected none)
  | .after owner =>
    if ¬ r.isRegistered owner then .error (.invalidPrevEntry owner)
    else if expected = some owner then .ok ()
    else .error (.wrongPrevEntry expected (some owner))

/-- The predecessor of a place in the order. A claim about it, if there is one, must be right. -/
def queryPlace (r : Registry) (stake : Amount) (seq : Nat) (hint : Option PrevHint) :
    Except RegistryError (Option Address) :=
  let expected := r.predecessor? stake seq
  match hint with
  | none => .ok expected
  | some hint => (r.checkHint expected hint).map fun _ => expected

/-- The predecessor that an oracle registered now with a given stake would have. -/
def queryPrevByStake (r : Registry) (stake : Amount) (hint : Option PrevHint) :
    Except RegistryError (Option Address) :=
  r.queryPlace stake r.nextSeq hint

def queryPrev (r : Registry) (owner : Address) (hint : Option PrevHint) :
    Except RegistryError (Option Address) :=
  match r.get? owner with
  | none => .error (.notRegistered owner)
  | some e => r.queryPlace e.stake e.seq hint

/-! ### Writing -/

/-- Puts an entry in its place. -/
def place (e : OracleEntry) : List OracleEntry → List OracleEntry
  | [] => [e]
  | x :: xs => if e.Precedes x.stake x.seq then e :: x :: xs else x :: place e xs

/-- The entries of other owners. -/
def others (r : Registry) (owner : Address) : List OracleEntry := r.entries.filter (·.owner ≠ owner)

/-- Changes an owner's entry where it stands. -/
def update (r : Registry) (owner : Address) (f : OracleEntry → OracleEntry) : Registry :=
  { r with entries := r.entries.map fun e => if e.owner = owner then f e else e }

/-- Gives an entry another stake, and moves it to its place. -/
def restake (r : Registry) (e : OracleEntry) (stake : Amount) : Registry :=
  { r with entries := place { e with stake } (r.others e.owner) }

/-- Lists a pair as subscribed, where an owner has an oracle. -/
def enlist (r : Registry) (owner : Address) (pair : CoinPair) : Registry :=
  r.update owner fun e => { e with subscribedPairs := e.subscribedPairs.add pair }

/-- Lists a pair as subscribed no more. -/
def delist (r : Registry) (owner : Address) (pair : CoinPair) : Registry :=
  r.update owner fun e => { e with subscribedPairs := e.subscribedPairs.erase pair }

def register (r : Registry) (owner address : Address) (name : String) (stake : Amount)
    (hint : Option PrevHint) : Except RegistryError (OracleEntry × Registry) :=
  if owner.isZero then .error .zeroOwner
  else if address.isZero then .error .zeroReporter
  else if r.isRegistered owner then .error (.ownerAlreadyRegistered owner)
  else if (r.getByAddress? address).isSome then .error (.addressAlreadyRegistered address)
  else
    match r.queryPlace stake r.nextSeq hint with
    | .error e => .error (.invalidHint e)
    | .ok _ =>
      let entry := ⟨owner, address, name, stake, .empty, r.nextSeq⟩
      .ok (entry, ⟨place entry r.entries, r.nextSeq + 1⟩)

/-- Sets an oracle's stake, moves it to its place and answers the stake it had. -/
def setStake (r : Registry) (owner : Address) (stake : Amount) (hint : Option PrevHint) :
    Except RegistryError (Amount × Registry) :=
  match r.get? owner with
  | none => .error (.notRegistered owner)
  | some e =>
    match r.queryPlace stake e.seq hint with
    | .error err => .error (.invalidHint err)
    | .ok _ => .ok (e.stake, r.restake e stake)

/-- Changes an oracle's stake, moves it to its place and answers the new stake. -/
def adjustStake (r : Registry) (owner : Address) (delta : StakeDelta) (hint : Option PrevHint) :
    Except RegistryError (Amount × Registry) :=
  match r.get? owner with
  | none => .error (.notRegistered owner)
  | some e =>
    match delta.applyTo e.stake with
    | .error err => .error err
    | .ok stake => (r.setStake owner stake hint).map fun (_, r) => (stake, r)

/-- Removes an oracle. Whether it may leave is for the caller to know. -/
def remove (r : Registry) (owner : Address) : Except RegistryError (OracleEntry × Registry) :=
  match r.get? owner with
  | none => .error (.notRegistered owner)
  | some e => .ok (e, { r with entries := r.others owner })

def setName (r : Registry) (owner : Address) (name : String) : Except RegistryError Registry :=
  if r.isRegistered owner then .ok (r.update owner ({ · with name }))
  else .error (.notRegistered owner)

/-- Lists a pair as subscribed and answers whether it was not. -/
def addSubscription (r : Registry) (owner : Address) (pair : CoinPair) :
    Except RegistryError (Bool × Registry) :=
  match r.get? owner with
  | none => .error (.notRegistered owner)
  | some e => .ok (!e.isSubscribed pair, r.enlist owner pair)

/-- Lists a pair as subscribed no more and answers whether it was. -/
def removeSubscription (r : Registry) (owner : Address) (pair : CoinPair) :
    Except RegistryError (Bool × Registry) :=
  match r.get? owner with
  | none => .error (.notRegistered owner)
  | some e => .ok (e.isSubscribed pair, r.delist owner pair)

end Registry

end PriceOracle
