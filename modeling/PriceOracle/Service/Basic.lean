import PriceOracle.Service.Command
import PriceOracle.Service.Credentials
import PriceOracle.Service.Genesis
import PriceOracle.Service.Notification
import PriceOracle.Service.Request
/-! The service: a network run by a block clock and commanded by requests. Requests are carried out one
after the other, each in the block of its time. The events that a command records are put on the bus
before its reply is given, also when it was refused. -/
namespace PriceOracle

structure Service where
  clock : BlockClock
  socketPath : String
  network : Network
  /-- Whether the network still takes commands. -/
  running : Bool
  bus : EventBus
  nonces : Nonces
  /-- Whether the service was asked to stop. -/
  stopping : Bool

/-- What a request asks for. -/
inductive Task where
  | command (c : Command)
  | encodeMessage (message : PriceMessage)
  | status
  | shutdown
deriving Inhabited

/-- What a method with its parameters asks for. -/
def Task.ofMethod (method : String) (params : Json) : Except CallError Task :=
  match method with
  | "list_oracles" => .ok (.command (.ask .oracles))
  | "get_status" => .ok .status
  | "shutdown" => .ok .shutdown
  | "encode_price_message" =>
    match (Json.Fields.of? ["message"] params).bind (·.get "message" PriceMessage.ofJson?) with
    | some message => .ok (.encodeMessage message)
    | none => .error (.badParams "message")
  | _ =>
    match Command.reader? method with
    | none => .error (.unknownMethod method)
    | some read =>
      match read params with
      | some c => .ok (.command c)
      | none => .error (.badParams "params")

/-- A message's bytes and the hash to sign, as a record. -/
def PriceMessage.encodedJson (m : PriceMessage) : Json :=
  .obj [("encoded", .str (String.ofList ('0' :: 'x' :: Hex.ofBytes m.encode))),
    ("signing_hash", m.signingHash.toJson)]

namespace Service

/-- The version that a service tells of itself. -/
def version : String := "0.1.0"

/-- How many notifications the bus of a service keeps. -/
def busCapacity : Nat := 1000

/-- Takes the events that the network recorded, and puts them on the bus. -/
def publish (s : Service) (block : Nat) : Service :=
  let (events, network) := s.network.takeEvents
  { s with network, bus := s.bus.emitAll block events }

def start (settings : Settings) (env : Environment) (capacity now : Nat) : Except NetworkError Service :=
  let clock := BlockClock.start now settings.chain.genesisTimestamp settings.chain.blockTimeSecs
  let ctx := clock.blockAt now
  match settings.bootstrap ctx with
  | .error e => .error e
  | .ok network =>
    let s : Service := {
      clock
      socketPath := settings.socketPath env
      network
      running := true
      bus := .new capacity
      nonces := .empty
      stopping := false }
    .ok (s.publish ctx.number)

def stop (s : Service) : Service := { s with running := false }

/-- Carries out a command in the block of the time. -/
def run (s : Service) (now : Nat) (c : Command) : Except CallError Json × Service :=
  if s.running then
    let ctx := s.clock.blockAt now
    let x := c.run s.network ctx
    (x.result.mapError .ofNetwork, { s with network := x.state }.publish ctx.number)
  else (.error .stopped, s)

/-- The state of the service as a record, around the summary of its network. -/
def statusJson (s : Service) (summary : Json) : Json :=
  .obj [("version", .str version), ("block_time_secs", .nat s.clock.blockTime),
    ("genesis_timestamp", .nat s.clock.genesis), ("socket_path", .str s.socketPath),
    ("event_sequence", .nat s.bus.sequence), ("network", summary)]

def perform (s : Service) (now : Nat) : Task → Except CallError Json × Service
  | .command c => s.run now c
  | .encodeMessage message => (.ok message.encodedJson, s)
  | .status =>
    let (result, s) := s.run now (.ask .summary)
    (result.map s.statusJson, s)
  | .shutdown => (.ok (.obj [("stopping", .bool true)]), { s with stopping := true })

/-- Carries out a request, once it is clear who makes it. A nonce stays used up whatever comes of the
request. -/
def dispatch (s : Service) (now : Nat) (r : Request) : Except CallError Json × Service :=
  if r.version ≠ "2.0" then (.error .wrongVersion, s)
  else
    match authenticate s.nonces r.method r.params with
    | .error e => (.error e, s)
    | .ok (params, nonces) =>
      let s := { s with nonces }
      match Task.ofMethod r.method params with
      | .error e => (.error e, s)
      | .ok task => s.perform now task

end Service

end PriceOracle
