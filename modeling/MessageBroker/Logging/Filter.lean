/-
  MessageBroker.Logging.Filter — which events a log shows.

  A filter is a list of rules with commas between them. A rule is one of

    LEVEL          TARGET=LEVEL          [{FIELD}]=LEVEL          TARGET[{FIELD}]=LEVEL

  where a level left out stands for all levels, and so does a target that stands alone.
  A rule speaks of the events whose target begins with its target and which have its
  field. Of the rules that speak of an event the most specific one decides: the one with
  the longest target, then one with a field, of two fields the later in the alphabet, and
  of two rules alike the later in the text. What is no rule is passed over, and so are
  rules about spans or about the values of fields: no event here has either.
-/

import MessageBroker.Text.Digits

namespace MessageBroker.Logging

inductive Level where
  | off
  | error
  | warn
  | info
  | debug
  | trace
  deriving DecidableEq, Repr

namespace Level

def rank : Level → Nat
  | off => 0
  | error => 1
  | warn => 2
  | info => 3
  | debug => 4
  | trace => 5

def name : Level → String
  | off => "off"
  | error => "error"
  | warn => "warn"
  | info => "info"
  | debug => "debug"
  | trace => "trace"

def all : List Level := [off, error, warn, info, debug, trace]

/-- A level is spelled by its rank, perhaps with zeros or a plus sign before it, or by its name in letters
    of either case. -/
def read (s : List Char) : Option Level :=
  let digits := match s with
    | '+' :: digits => digits
    | digits => digits
  match Text.natural? digits with
  | some n => all.find? (·.rank == n)
  | none => all.find? (·.name.toList == s.map Char.toLower)

end Level

structure Event where
  /-- The part of the program that says it. -/
  target : String
  level : Level
  /-- The names of the values that it carries. -/
  fields : List String
  deriving DecidableEq, Repr

structure Rule where
  /-- Nothing speaks of every target. -/
  target : List Char := []
  field : Option String := none
  level : Level
  deriving DecidableEq, Repr

namespace Rule

def speaksOf (r : Rule) (e : Event) : Bool :=
  r.target.isPrefixOf e.target.toList && r.field.all e.fields.contains

def isAsSpecificAs (r s : Rule) : Bool :=
  match compare r.target.length s.target.length with
  | .gt => true
  | .lt => false
  | .eq =>
    match r.field, s.field with
    | _, none => true
    | none, some _ => false
    | some x, some y => y ≤ x

/-! ## Reading -/

def readLevel (s : List Char) : Option Level :=
  if s.isEmpty then some .trace else Level.read s

def readField (target : List Char) (s : List Char) : Option Rule :=
  match s with
  | '{' :: s =>
    let field := s.takeWhile (· != '}')
    if field.isEmpty || field.contains '=' then none
    else
      match s.drop field.length with
      | '}' :: ']' :: '=' :: level =>
        (readLevel level).map fun level => { target, field := some (String.ofList field), level }
      | '}' :: ']' :: blanks =>
        if blanks.all Char.isWhitespace then some { target, field := some (String.ofList field), level := .trace }
        else none
      | _ => none
  | _ => none

/-- The rule that a text spells. A name begins with a letter, a digit, or one of the marks that names have. -/
def read (s : List Char) : Option Rule :=
  let name := s.takeWhile fun c => c != '=' && c != '['
  let rest := s.drop name.length
  match name with
  | [] =>
    match rest with
    | '[' :: s => readField [] s
    | _ => none
  | first :: _ =>
    if first.isAlphanum || ['-', ':', '_'].contains first then
      match rest with
      | '=' :: level => (readLevel level).map fun level => { target := name, level }
      | '[' :: s => readField name s
      | _ => some (((Level.read name).map ({ level := · })).getD { target := name, level := .trace })
    else none

end Rule

structure Filter where
  rules : List Rule
  deriving DecidableEq, Repr

namespace Filter

/-- Without rules, errors are shown. -/
def read (s : List Char) : Filter :=
  match (s.splitOn ',').filterMap Rule.read with
  | [] => ⟨[{ level := .error }]⟩
  | rules => ⟨rules⟩

def ofText (text : String) : Filter := read text.toList

def decisive (f : Filter) (e : Event) : Option Rule :=
  (f.rules.filter (·.speaksOf e)).foldl (fun best r =>
    match best with
    | some b => if r.isAsSpecificAs b then some r else best
    | none => some r) none

def shows (f : Filter) (e : Event) : Bool :=
  (f.decisive e).any fun r => e.level.rank ≤ r.level.rank

end Filter

end MessageBroker.Logging
