import PriceOracle.Service.Connections
import Std.Time.DateTime.Timestamp
/-! The program: a service with one connection, which is standard input and output. The settings are the
text of the first argument. Everything the program decides is decided by the service; here lines are read
and printed, and the time is taken. -/
namespace PriceOracle

/-- The time in seconds since the epoch. -/
def unixTime : IO Nat := do
  return (← Std.Time.Timestamp.now).toSecondsSinceUnixEpoch.val.toNat

def printMessage (output : IO.FS.Stream) (message : Json) : IO Unit := do
  output.putStr (message.text ++ "\n")
  output.flush

/-- Answers the lines of a connection until it ends or the service is asked to stop. -/
partial def serve (input output : IO.FS.Stream) (server : Server) : IO Unit := do
  let line ← input.getLine
  if line.isEmpty then return
  let (reply, server) := server.receive (← unixTime) 0 line
  if let some reply := reply then printMessage output reply.toJson
  let (waiting, server) := server.deliver
  for (_, notifications) in waiting do
    for notification in notifications do
      printMessage output notification.message
  unless server.service.stopping do serve input output server

/-- Starts a service and serves it; the answer is the exit code. -/
def runService (settings : String) : IO UInt32 := do
  let errors ← IO.getStderr
  match Settings.ofToml settings with
  | .error e => errors.putStrLn e.message
  | .ok settings =>
    match Service.start settings {} Service.busCapacity (← unixTime) with
    | .error e => errors.putStrLn e.message
    | .ok service =>
      serve (← IO.getStdin) (← IO.getStdout) (.new service)
      return 0
  return 1

end PriceOracle

def main (args : List String) : IO UInt32 := PriceOracle.runService (args.headD "")
