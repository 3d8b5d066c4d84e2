/-
  MessageBroker.Json.Value — JSON documents.

  Reading goes through the tokens once, with a stack of the containers that are open,
  so the nesting of a document is bounded by nothing but its length. Writing puts every
  item and every member on a line of its own, two spaces further in than its container.
-/

import MessageBroker.Json.Token

namespace MessageBroker.Json

inductive Value where
  | null
  | bool (b : Bool)
  | number (n : Number)
  | text (atoms : List Atom)
  | array (items : List Value)
  /-- The members as they stand, keys that occur twice included. -/
  | object (members : List (List Atom × Value))
  deriving Repr

abbrev Member := List Atom × Value

namespace Value

def ofText (s : String) : Value := text (s.toList.map .char)

/-! ## Reading -/

/-- A container that is open: what it holds so far, last first. -/
inductive Open where
  | array (items : List Value)
  /-- The value of `key` comes next. -/
  | object (members : List Member) (key : List Atom)
  deriving Repr

/-- What may come next, inside the containers that are open, innermost first. -/
inductive Reader where
  /-- A value. -/
  | value (stack : List Open)
  /-- The first item of an array or its end. -/
  | firstItem (stack : List Open)
  /-- The first key of an object or its end. -/
  | firstKey (stack : List Open)
  | key (members : List Member) (stack : List Open)
  | colon (members : List Member) (key : List Atom) (stack : List Open)
  /-- A comma or the end of what is open; `v` has just been read. -/
  | more (v : Value) (stack : List Open)
  deriving Repr

def begin? (stack : List Open) : Token → Option Reader
  | .null => some (.more .null stack)
  | .bool b => some (.more (.bool b) stack)
  | .number n => some (.more (.number n) stack)
  | .text atoms => some (.more (.text atoms) stack)
  | .openArray => some (.firstItem stack)
  | .openObject => some (.firstKey stack)
  | _ => none

def Reader.step : Reader → Token → Option Reader
  | value stack, t => begin? stack t
  | firstItem stack, .closeArray => some (.more (.array []) stack)
  | firstItem stack, t => begin? (.array [] :: stack) t
  | firstKey stack, .closeObject => some (.more (.object []) stack)
  | firstKey stack, .text k => some (.colon [] k stack)
  | key members stack, .text k => some (.colon members k stack)
  | colon members k stack, .colon => some (.value (.object members k :: stack))
  | more v (.array items :: stack), .comma => some (.value (.array (v :: items) :: stack))
  | more v (.array items :: stack), .closeArray => some (.more (.array (v :: items).reverse) stack)
  | more v (.object members k :: stack), .comma => some (.key ((k, v) :: members) stack)
  | more v (.object members k :: stack), .closeObject =>
    some (.more (.object ((k, v) :: members).reverse) stack)
  | _, _ => none

def ofTokens? (ts : List Token) : Option Value :=
  match ts.foldlM Reader.step (.value []) with
  | some (.more v []) => some v
  | _ => none

/-- The value that a text spells, with nothing but blanks before and after it. -/
def parse (s : List Char) : Option Value := tokens s >>= ofTokens?

/-! ## Writing -/

def writeNumber (n : Number) : List Char :=
  (if n.negative then ['-'] else []) ++ n.whole
    ++ (match n.fraction with
      | some digits => '.' :: digits
      | none => [])
    ++ (match n.exponent with
      | some (negative, digits) => 'e' :: (if negative then '-' :: digits else digits)
      | none => [])

def newLine (depth : Nat) : List Char := '\n' :: List.replicate (2 * depth) ' '

mutual

def write (depth : Nat) : Value → List Char
  | null => ['n', 'u', 'l', 'l']
  | bool true => ['t', 'r', 'u', 'e']
  | bool false => ['f', 'a', 'l', 's', 'e']
  | number n => writeNumber n
  | text atoms => writeAtoms atoms
  | array [] => ['[', ']']
  | array (v :: rest) =>
    '[' :: newLine (depth + 1) ++ write (depth + 1) v ++ writeItems (depth + 1) rest ++ newLine depth ++ [']']
  | object [] => ['\x7b', '\x7d']
  | object ((k, v) :: rest) =>
    '\x7b' :: newLine (depth + 1) ++ writeAtoms k ++ [':', ' '] ++ write (depth + 1) v
      ++ writeMembers (depth + 1) rest ++ newLine depth ++ ['\x7d']

def writeItems (depth : Nat) : List Value → List Char
  | [] => []
  | v :: rest => ',' :: newLine depth ++ write depth v ++ writeItems depth rest

def writeMembers (depth : Nat) : List Member → List Char
  | [] => []
  | (k, v) :: rest =>
    ',' :: newLine depth ++ writeAtoms k ++ [':', ' '] ++ write depth v ++ writeMembers depth rest

end

def render (v : Value) : List Char := v.write 0

end Value

end MessageBroker.Json
