import PriceOracle.Address
/-! A round: the oracles that hold seats in it, with the points they earned. Quorums count all seats.
A member that unsubscribes is marked as excluded; it goes on publishing and keeps its points, and only
the next round does without it. -/
namespace PriceOracle

structure Seat where
  /-- The owner of the oracle, who is paid its reward. -/
  owner : Address
  /-- The address that its signatures recover to. -/
  address : Address
  /-- How many publications it proposed in this round. -/
  points : Nat
  /-- It unsubscribed during the round. -/
  excluded : Bool
deriving DecidableEq, Inhabited

def Seat.fresh (owner address : Address) : Seat := ⟨owner, address, 0, false⟩

/-- The running round of a pair. -/
structure Round where
  number : Nat
  /-- The round may be switched after this moment. -/
  lockUntil : Nat
  /-- The seats in the order they were taken: by selection from the highest stake down, then by joining. -/
  seats : List Seat
  /-- Fewer oracles were selected than the parameters ask for. -/
  belowMinimum : Bool
deriving DecidableEq, Inhabited

namespace Round

/-- The first round: nobody is in it, and it may be switched at once. -/
def initial : Round := ⟨1, 0, [], false⟩

/-- The seat of the oracle that reports from an address. -/
def seatByAddress? (r : Round) (address : Address) : Option Seat :=
  r.seats.find? (·.address = address)

def seatByOwner? (r : Round) (owner : Address) : Option Seat := r.seats.find? (·.owner = owner)

def seatsOwner (r : Round) (owner : Address) : Bool := (r.seatByOwner? owner).isSome

def seatsAddress (r : Round) (address : Address) : Bool := (r.seatByAddress? address).isSome

def totalPoints (r : Round) : Nat := r.seats.foldr (fun s n => s.points + n) 0

def update (r : Round) (owner : Address) (f : Seat → Seat) : Round :=
  { r with seats := r.seats.map fun s => if s.owner = owner then f s else s }

/-- Marks an owner's seat as excluded, or takes the mark away. -/
def setExcluded (r : Round) (owner : Address) (excluded : Bool) : Round :=
  r.update owner ({ · with excluded })

/-- Gives an owner's seat one more point. -/
def award (r : Round) (owner : Address) : Round :=
  r.update owner fun s => { s with points := s.points + 1 }

def unseat (r : Round) (owner : Address) : Round :=
  { r with seats := r.seats.filter (·.owner ≠ owner) }

/-- Adds a seat at the end. -/
def seat (r : Round) (owner address : Address) : Round :=
  { r with seats := r.seats ++ [.fresh owner address] }

end Round

end PriceOracle
