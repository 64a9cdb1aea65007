import PriceOracle.Wire.Network
/-! Telling subscribers of committed events. Each event gets the next number of one sequence. A bus keeps
only the latest notifications; a subscriber who reads too late misses the oldest ones. -/
namespace PriceOracle

/-- An event as subscribers see it. -/
structure Notification where
  /-- The place in the sequence, from 1. -/
  sequence : Nat
  /-- The block in which the event was committed. -/
  block : Nat
  event : Event
deriving DecidableEq, Inhabited

def Notification.toJson (n : Notification) : Json :=
  .obj [("sequence", .nat n.sequence), ("block", .nat n.block), ("event", n.event.toJson)]

/-- Which events a subscriber wants. -/
structure EventFilter where
  /-- The names of the wanted kinds; all kinds if there is no list. -/
  types : Option (List String) := none
  /-- The wanted pair. Events that are about no pair are wanted in any case. -/
  pair : Option String := none
deriving DecidableEq, Inhabited

namespace EventFilter

def ofJson? (j : Json) : Option EventFilter := do
  let f ← Json.Fields.of? ["types", "pair"] j
  return {
    types := ← f.getD "types" (Json.Fields.nullable (Json.listOf? Json.str?)) none
    pair := ← f.getD "pair" (Json.Fields.nullable Json.str?) none }

/-- Whether an event is wanted. -/
def admits (f : EventFilter) (e : Event) : Bool :=
  f.types.all (·.contains e.name)
    && f.pair.all fun wanted => e.pair?.all fun pair => pair.name = wanted

end EventFilter

/-! ### The bus -/

/-- Numbers events and keeps the latest ones. -/
structure EventBus where
  capacity : Nat
  /-- The number of the last event. -/
  sequence : Nat
  /-- The latest notifications, the last one first. -/
  recent : List Notification
deriving DecidableEq, Inhabited

namespace EventBus

/-- A bus that keeps at least `n` notifications: the next power of two. -/
def new (n : Nat) : EventBus := ⟨n.nextPowerOfTwo, 0, []⟩

def emit (b : EventBus) (block : Nat) (event : Event) : EventBus :=
  { b with
    sequence := b.sequence + 1
    recent := (⟨b.sequence + 1, block, event⟩ :: b.recent).take b.capacity }

def emitAll (b : EventBus) (block : Nat) (events : List Event) : EventBus :=
  events.foldl (·.emit block ·) b

/-- For a reader who has read up to the number `seen`: how many later notifications are gone, and those
that are left, in order. -/
def since (b : EventBus) (seen : Nat) : Nat × List Notification :=
  let left := (b.recent.takeWhile (seen < ·.sequence)).reverse
  (b.sequence - seen - left.length, left)

end EventBus

/-- A subscription: what is wanted, and how far it has been read. -/
structure EventStream where
  filter : EventFilter
  seen : Nat
deriving DecidableEq, Inhabited

namespace EventStream

/-- A subscription to the events after those that are on the bus. -/
def start (b : EventBus) (filter : EventFilter) : EventStream := ⟨filter, b.sequence⟩

/-- Reads on to the end of the bus. -/
def receive (s : EventStream) (b : EventBus) : List Notification × EventStream :=
  ((b.since s.seen).2.filter (s.filter.admits ·.event), { s with seen := b.sequence })

end EventStream

end PriceOracle
