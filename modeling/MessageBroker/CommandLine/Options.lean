/-
  MessageBroker.CommandLine.Options — what the words of a command line ask for.

    -p, --port PORT          -c, --config FILE         -h, --help
    -b, --bind ADDRESS           --log-level LEVEL     -V, --version
    -w, --workers N

  The value of an option is the next word, or stands behind `=`, or behind the letter of
  a short option. A word that starts with a hyphen is no value unless it is a hyphen
  alone. Each option is given at most once. Words are looked at in order, so a request
  for help is met unless something before it is wrong.
-/

import MessageBroker.Text.Digits

namespace MessageBroker.CommandLine

open Text

inductive Switch where
  | port
  | bind
  | workers
  | config
  | logLevel
  deriving DecidableEq, Repr

structure Options where
  port : Option UInt16 := none
  bind : Option String := none
  workers : Option UInt64 := none
  /-- The file that holds the settings. -/
  config : Option String := none
  logLevel : String := "info"
  deriving DecidableEq, Repr

inductive Invocation where
  | help
  | version
  | run (options : Options)
  deriving DecidableEq, Repr

inductive Misuse where
  | unexpected (word : String)
  | missingValue (switch : Switch)
  | invalidValue (switch : Switch) (value : String)
  | repeated (switch : Switch)
  /-- A flag that takes no value was given one. -/
  | needlessValue (flag : String)
  deriving DecidableEq, Repr

namespace Switch

def name : Switch → String
  | port => "port"
  | bind => "bind"
  | workers => "workers"
  | config => "config"
  | logLevel => "log-level"

def all : List Switch := [port, bind, workers, config, logLevel]

def ofName? (name : List Char) : Option Switch := all.find? (·.name.toList == name)

def ofLetter? : Char → Option Switch
  | 'p' => some port
  | 'b' => some bind
  | 'w' => some workers
  | 'c' => some config
  | _ => none

end Switch

def Misuse.message : Misuse → String
  | unexpected word => s!"unexpected argument: {word}"
  | missingValue switch => s!"--{switch.name} needs a value"
  | invalidValue switch value => s!"not a value for --{switch.name}: {value}"
  | repeated switch => s!"--{switch.name} is given more than once"
  | needlessValue flag => s!"unexpected value: {flag}"

/-! ## Values -/

/-- A whole number with a sign or without. -/
def integer? : List Char → Option Int
  | '-' :: digits => (natural? digits).map fun n => -(n : Int)
  | '+' :: digits => (natural? digits).map (↑·)
  | digits => (natural? digits).map (↑·)

def port? (value : List Char) : Option UInt16 :=
  match integer? value with
  | some n => if 0 ≤ n ∧ n < UInt16.size then some (UInt16.ofNat n.toNat) else none
  | none => none

/-- A count; it may have a plus sign, but no minus sign. -/
def count? (value : List Char) : Option UInt64 :=
  let digits := match value with
    | '+' :: digits => digits
    | digits => digits
  ((natural? digits).filter (· < UInt64.size)).map UInt64.ofNat

def Options.set? (o : Options) (switch : Switch) (value : List Char) : Option Options :=
  match switch with
  | .port => (port? value).map fun n => { o with port := some n }
  | .bind => some { o with bind := some (String.ofList value) }
  | .workers => (count? value).map fun n => { o with workers := some n }
  | .config => if value.isEmpty then none else some { o with config := some (String.ofList value) }
  | .logLevel => some { o with logLevel := String.ofList value }

/-! ## Words -/

structure Draft where
  options : Options := {}
  given : List Switch := []
  /-- The switch whose value comes next. -/
  awaiting : Option Switch := none

inductive Word where
  /-- Two hyphens: no options follow. -/
  | endOfOptions
  | long (name : List Char) (value : Option (List Char))
  /-- A letter and what stands behind it. -/
  | short (letter : Char) (rest : List Char)
  | plain (text : List Char)
  deriving DecidableEq, Repr

def Word.ofText : List Char → Word
  | ['-', '-'] => .endOfOptions
  | '-' :: '-' :: body =>
    match body.dropWhile (· != '=') with
    | '=' :: value => .long (body.takeWhile (· != '=')) (some value)
    | _ => .long body none
  | '-' :: letter :: rest => .short letter rest
  | text => .plain text

namespace Draft

def settled (d : Draft) : Except Misuse Draft :=
  match d.awaiting with
  | none => .ok d
  | some switch => .error (.missingValue switch)

def set (d : Draft) (switch : Switch) (value : List Char) : Except Misuse Draft :=
  if switch ∈ d.given then .error (.repeated switch)
  else
    match d.options.set? switch value with
    | some options => .ok { options, given := switch :: d.given, awaiting := none }
    | none => .error (.invalidValue switch (String.ofList value))

/-- A switch is named; its value is here or comes next. -/
def name (d : Draft) (switch : Switch) (value : Option (List Char)) : Except Misuse Draft := do
  let d ← d.settled
  match value with
  | some value => d.set switch value
  | none => return { d with awaiting := some switch }

def read (d : Draft) : List String → Except Misuse Invocation
  | [] => do return .run (← d.settled).options
  | word :: words =>
    match Word.ofText word.toList with
    | .endOfOptions => do
      match words with
      | [] => return .run (← d.settled).options
      | word :: _ => throw (.unexpected word)
    | .long name value => do
      if name = "help".toList ∨ name = "version".toList then
        let _ ← d.settled
        if value.isSome then throw (.needlessValue word)
        return if name = "help".toList then .help else .version
      match Switch.ofName? name with
      | some switch => (← d.name switch value).read words
      | none => throw (.unexpected word)
    | .short letter rest => do
      if letter = 'h' ∨ letter = 'V' then
        let _ ← d.settled
        return if letter = 'h' then .help else .version
      let value := match rest with
        | [] => none
        | '=' :: value => some value
        | value => some value
      match Switch.ofLetter? letter with
      | some switch => (← d.name switch value).read words
      | none => throw (.unexpected word)
    | .plain text =>
      match d.awaiting with
      | some switch => do (← d.set switch text).read words
      | none => .error (.unexpected word)

end Draft

def parse (words : List String) : Except Misuse Invocation := ({} : Draft).read words

end MessageBroker.CommandLine
