import PriceOracle.Service.Basic
/-! The connections of a service. A connection sends requests, one a line, until it subscribes to
events. From then on it is sent notifications, and its lines are passed over. -/
namespace PriceOracle

/-- A service with those of its connections that are subscribed to events. -/
structure Server where
  service : Service
  streams : Table Nat EventStream

namespace Server

def new (service : Service) : Server := ⟨service, .empty⟩

/-- The filter that parameters spell. Without parameters all events are wanted. -/
def filterOf : Json → Except CallError EventFilter
  | .null => .ok {}
  | params =>
    match EventFilter.ofJson? params with
    | some filter => .ok filter
    | none => .error (.badParams "filter")

def subscribe (s : Server) (connection : Nat) (params : Json) : Except CallError Json × Server :=
  match filterOf params with
  | .error e => (.error e, s)
  | .ok filter =>
    let bus := s.service.bus
    (.ok (.obj [("subscribed", .bool true), ("sequence", .nat bus.sequence)]),
      { s with streams := s.streams.insert connection (.start bus filter) })

def answer (s : Server) (now connection : Nat) (r : Request) : Except CallError Json × Server :=
  if r.method = "subscribe_events" then s.subscribe connection r.params
  else
    let (outcome, service) := s.service.dispatch now r
    (outcome, { s with service })

/-- Takes a line from a connection. -/
def receive (s : Server) (now connection : Nat) (line : String) : Option Reply × Server :=
  if s.streams.contains connection then (none, s)
  else
    match Request.ofText? line.toList with
    | none => (some ⟨.null, .error .unreadable⟩, s)
    | some r =>
      let (outcome, s) := s.answer now connection r
      (some ⟨r.id, outcome⟩, s)

/-- The notifications that wait for each subscribed connection, and the server after they are sent. -/
def deliver (s : Server) : List (Nat × List Notification) × Server :=
  (s.streams.toList.map fun x => (x.1, (x.2.receive s.service.bus).1),
    { s with streams := s.streams.map fun _ stream => (stream.receive s.service.bus).2 })

end Server

/-- A notification as a message to a subscribed connection. -/
def Notification.message (n : Notification) : Json :=
  .obj [("jsonrpc", .str "2.0"), ("method", .str "event"), ("params", n.toJson)]

end PriceOracle
