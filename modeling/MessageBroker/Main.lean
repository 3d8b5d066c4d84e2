/-
  MessageBroker.Main — the command line program.

  Serves one client over standard input and output; what is logged goes to standard
  error. Everything that is decided is decided by the modules it calls.
-/

import MessageBroker.CommandLine.Launch
import MessageBroker.Loopback.Handler
import MessageBroker.Transport.Run

namespace MessageBroker.CommandLine

open Transport

def defaultWorkers : UInt64 := 4

/-- Steps between two looks at the input. -/
def stepsAtOnce : Nat := 1000000

def ioError : IO.Error → IoError
  | .noFileOrDirectory .. => .noSuchFile
  | .inappropriateType .. => .fileIsDirectory
  | e => .worded .other (toString e)

def readFile (path : String) : IO (Except IoError Wire.Bytes) := do
  try
    return .ok (← IO.FS.readBinFile path).data.toList
  catch e => return .error (ioError e)

/-- Deliver input until it ends, and write what the service sends. -/
partial def serve (input output : IO.FS.Stream) (s : Service Loopback.Client) (sent : Nat) :
    IO (Service Loopback.Client) := do
  let data ← input.read 65536
  let s := s.deliver stepsAtOnce 0 data.data.toList
  let all := (s.served.head?.map (·.sent)).getD []
  output.write ⟨(all.drop sent).toArray⟩
  output.flush
  if data.isEmpty || s.served.all (·.connection.closed) then return s else serve input output s all.length

def runBroker (o : Options) (s : Settings) : IO UInt32 := do
  match Service.start s.transport Loopback.handler (.ok s.transport.endpoint) with
  | .error e =>
    IO.eprintln s!"Error: {(LaunchError.transport e).inspect}"
    return 1
  | .ok service =>
    if o.shows [] then (boxed (banner s service.listening)).forM IO.eprintln
    let engine := Loopback.Engine.new (s.prefetchLimit.map (·.toNat)) s.deliveryBatch.toNat
    let served ← serve (← IO.getStdin) (← IO.getStdout) (service.connect stepsAtOnce { engine }) 0
    let (_, ended) := served.shutdown
    let pool := poolNumbers ended.pool.metrics
    let engines := engineNumbers (Loopback.total (ended.served.map (·.connection.handler)))
    if o.shows pool then IO.eprintln s!"scheduler {totals pool}"
    if o.shows engines then IO.eprintln s!"engine {totals engines}"
    return 0

def runWords (words : List String) : IO UInt32 := do
  match parse words with
  | .error misuse =>
    IO.eprintln s!"error: {misuse.message}"
    return 2
  | .ok .help =>
    IO.println usage
    return 0
  | .ok .version =>
    IO.println versionLine
    return 0
  | .ok (.run o) =>
    let content ← match o.config with
      | some path => readFile path
      | none => pure (.error .noSuchFile)
    match o.settings defaultWorkers fun _ => content with
    | .error e =>
      IO.eprintln s!"Error: {e.inspect}"
      return 1
    | .ok s => runBroker o s

end MessageBroker.CommandLine

def main (args : List String) : IO UInt32 := MessageBroker.CommandLine.runWords args
