/-
  MessageBroker.Text.Digits — numbers spelled with digits, in any base up to 36.
-/

namespace MessageBroker.Text

/-- The value of a digit in base `radix`; letters are digits of either case. -/
def digitValue? (radix : Nat) (c : Char) : Option Nat :=
  let value? :=
    if '0' ≤ c ∧ c ≤ '9' then some (c.toNat - '0'.toNat)
    else if 'a' ≤ c ∧ c ≤ 'z' then some (c.toNat - 'a'.toNat + 10)
    else if 'A' ≤ c ∧ c ≤ 'Z' then some (c.toNat - 'A'.toNat + 10)
    else none
  value?.filter (· < radix)

def isDigit (radix : Nat) (c : Char) : Bool := (digitValue? radix c).isSome

def ofDigits (radix : Nat) (digits : List Char) : Nat :=
  digits.foldl (fun n c => n * radix + (digitValue? radix c).getD 0) 0

def natural? (s : List Char) : Option Nat :=
  if s.isEmpty ∨ !s.all (isDigit 10) then none else some (ofDigits 10 s)

end MessageBroker.Text
