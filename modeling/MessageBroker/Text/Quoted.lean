/-
  MessageBroker.Text.Quoted — the inspection form of values.

  Values are shown to developers as `Name(value)` and `Name { field: value }`, texts
  in double quotes. In a quoted text the quote and the backslash follow a backslash,
  NUL, tab, line feed and carriage return have letters, and any other character
  without a picture of its own is written by its number in base sixteen.
-/

import MessageBroker.Text.Unprintable

namespace MessageBroker.Text

/-- The digits of `n` in base sixteen, lower case, without leading zeros. -/
def hexDigits (n : Nat) : List Char := Nat.toDigits 16 n

def quotedChar (c : Char) : List Char :=
  match c with
  | '\x00' => ['\\', '0']
  | '\t' => ['\\', 't']
  | '\n' => ['\\', 'n']
  | '\r' => ['\\', 'r']
  | '"' => ['\\', '"']
  | '\\' => ['\\', '\\']
  | c =>
    if 32 ≤ c.toNat ∧ c.toNat < 127 then [c]
    else if isUnprintable c then ['\\', 'u', '\x7b'] ++ hexDigits c.toNat ++ ['\x7d']
    else [c]

def quoted (s : String) : String :=
  String.ofList ('"' :: s.toList.flatMap quotedChar ++ ['"'])

def tagged (name value : String) : String := name ++ "(" ++ value ++ ")"

def record (name : String) (fields : List (String × String)) : String :=
  name ++ " \x7b " ++ ", ".intercalate (fields.map fun (field, value) => field ++ ": " ++ value)
    ++ " \x7d"

def optional : Option String → String
  | some value => tagged "Some" value
  | none => "None"

end MessageBroker.Text
