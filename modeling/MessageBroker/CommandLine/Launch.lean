/-
  MessageBroker.CommandLine.Launch — from the options to a broker that is to be started,
  and what is said about it.

  The options override the settings of the file, and the result is validated as a whole.
-/

import MessageBroker.CommandLine.Options
import MessageBroker.Inspect
import MessageBroker.Logging.Filter
import MessageBroker.Loopback.Counters
import MessageBroker.Pool.Metrics
import MessageBroker.Settings.Document

namespace MessageBroker.CommandLine

open Network

def programName : String := "hmq-broker"

def programVersion : String := "0.3.0"

def versionLine : String := programName ++ " " ++ programVersion

inductive LaunchError where
  | settings (e : SettingsError)
  /-- The option's value is no address. -/
  | notAnAddress (text : String)
  | transport (e : Error)
  deriving DecidableEq, Repr

def LaunchError.inspect : LaunchError → String
  | settings e => e.inspect
  | notAnAddress _ => Text.tagged "AddrParseError" "Ip"
  | transport e => e.inspect

namespace Options

def override (o : Options) (s : Settings) : Except LaunchError Settings := do
  let s := match o.port with
    | some port => { s with port }
    | none => s
  let s ← match o.bind with
    | some text =>
      match Address.ofText? text with
      | some bindAddress => pure { s with bindAddress }
      | none => throw (.notAnAddress text)
    | none => pure s
  match o.workers with
  | some workers => return { s with workers }
  | none => return s

/-- The settings to start with, on a host that runs `workers` threads at once and has
    the file of settings with this content. -/
def settings (o : Options) (workers : UInt64) (file : String → Except IoError Wire.Bytes) :
    Except LaunchError Settings := do
  let base ← match o.config with
    | some path => (Settings.load workers (file path)).mapError .settings
    | none => pure (.defaults workers)
  let s ← o.override base
  s.validate.mapError fun f => .settings f.toError
  return s

def shows (o : Options) (numbers : List (String × Nat)) : Bool :=
  (Logging.Filter.ofText o.logLevel).shows
    { target := "hmq_broker", level := .info, fields := "message" :: numbers.map (·.1) }

end Options

def banner (s : Settings) (listening : Endpoint) : List (String × String) :=
  [("Bind", listening.text), ("Workers", toString s.workers),
   ("Prefetch", (s.prefetchLimit.map toString).getD "unlimited"), ("Batch", toString s.deliveryBatch)]

def padded (width : Nat) (s : String) : String :=
  s ++ String.ofList (List.replicate (width - s.length) ' ')

def boxed (lines : List (String × String)) : List String :=
  let edge := "+" ++ String.ofList (List.replicate 52 '-') ++ "+"
  let title := padded 52 s!"       HMQ Broker v{programVersion}"
  [edge, "|" ++ title ++ "|", edge]
    ++ (lines.map fun (name, value) => "|  " ++ padded 10 (name ++ ":") ++ padded 38 value ++ " |")
    ++ [edge]

def usage : String :=
  "HMQ Broker - loopback delivery server\n\n" ++
  "Usage: hmq-broker [OPTIONS]\n\n" ++
  "Options:\n" ++
  "  -p, --port <PORT>            TCP port to listen on (overrides config file)\n" ++
  "  -b, --bind <BIND>            Bind address (overrides config file)\n" ++
  "  -w, --workers <WORKERS>      Worker pool size (overrides config file)\n" ++
  "  -c, --config <CONFIG>        Configuration file (JSON format)\n" ++
  "      --log-level <LOG_LEVEL>  Log level (trace, debug, info, warn, error) [default: info]\n" ++
  "  -h, --help                   Print help\n" ++
  "  -V, --version                Print version"

def totals (numbers : List (String × Nat)) : String :=
  "totals " ++ " ".intercalate (numbers.map fun (name, n) => s!"{name}={n}")

def poolNumbers (m : Pool.Metrics) : List (String × Nat) :=
  [("scheduled", m.scheduled), ("inline_reruns", m.inlineReruns), ("resubmits", m.resubmits),
    ("handed_back", m.handedBack), ("closed", m.closed), ("worker_faults", m.workerFaults)]

def engineNumbers (c : Loopback.Counters) : List (String × Nat) :=
  [("published", c.published), ("delivered", c.delivered), ("acknowledged", c.acknowledged),
    ("requeued", c.requeued)]

end MessageBroker.CommandLine
