/-
  MessageBroker.Network.Address — addresses of the internet protocol and their text.

  IPv4 is written as four decimal numbers with points between them. IPv6 is written as
  eight groups of hexadecimal digits with colons between them: the longest run of at
  least two zero groups, the first of several, is left out between two colons, and an
  address that maps an IPv4 address ends in that address.
  Reading is more lenient: `::` may stand for any run of zero groups, a single one too,
  groups may have leading zeros and capitals, and any IPv6 address may end in an IPv4
  one; numbers of an IPv4 address have no leading zeros.
-/

import MessageBroker.Text.Digits

namespace MessageBroker.Network

open Text

structure Ipv4 where
  a : UInt8
  b : UInt8
  c : UInt8
  d : UInt8
  deriving DecidableEq, Repr

structure Ipv6 where
  groups : List UInt16
  eight : groups.length = 8
  deriving DecidableEq, Repr

inductive Address where
  | v4 (address : Ipv4)
  | v6 (address : Ipv6)
  deriving DecidableEq, Repr

/-! ## Writing -/

namespace Ipv4

def unspecified : Ipv4 := ⟨0, 0, 0, 0⟩

def loopback : Ipv4 := ⟨127, 0, 0, 1⟩

def render (x : Ipv4) : List Char :=
  let number (n : UInt8) : List Char := Nat.toDigits 10 n.toNat
  number x.a ++ '.' :: number x.b ++ '.' :: number x.c ++ '.' :: number x.d

def toGroups (x : Ipv4) : List UInt16 :=
  [x.a.toUInt16 * 256 + x.b.toUInt16, x.c.toUInt16 * 256 + x.d.toUInt16]

def ofGroups (g h : UInt16) : Ipv4 :=
  ⟨(g / 256).toUInt8, g.toUInt8, (h / 256).toUInt8, h.toUInt8⟩

end Ipv4

namespace Ipv6

structure Run where
  start : Nat := 0
  length : Nat := 0
  deriving DecidableEq, Repr

/-- The longest run of zero groups from position `position` on, the first of several; `found`
    is the longest so far and `current` the run that ends here. -/
def longestRunFrom (position : Nat) (found current : Run) : List UInt16 → Run
  | [] => found
  | g :: rest =>
    if g = 0 then
      let current := if current.length = 0 then ⟨position, 1⟩ else { current with length := current.length + 1 }
      longestRunFrom (position + 1) (if found.length < current.length then current else found) current rest
    else longestRunFrom (position + 1) found {} rest

def longestRun (groups : List UInt16) : Run := longestRunFrom 0 {} {} groups

def renderGroups (groups : List UInt16) : List Char :=
  [':'].intercalate (groups.map fun g => Nat.toDigits 16 g.toNat)

def mapped? (x : Ipv6) : Option Ipv4 :=
  match x.groups with
  | [0, 0, 0, 0, 0, 0xffff, g, h] => some (.ofGroups g h)
  | _ => none

def render (x : Ipv6) : List Char :=
  match x.mapped? with
  | some v4 => "::ffff:".toList ++ v4.render
  | none =>
    let run := longestRun x.groups
    if 1 < run.length then
      renderGroups (x.groups.take run.start) ++ ':' :: ':'
        :: renderGroups (x.groups.drop (run.start + run.length))
    else renderGroups x.groups

end Ipv6

namespace Address

def render : Address → List Char
  | v4 x => x.render
  | v6 x => x.render

def text (x : Address) : String := String.ofList x.render

end Address

structure Endpoint where
  address : Address
  port : UInt16
  deriving DecidableEq, Repr

/-- The text of an endpoint; an IPv6 address stands in brackets. -/
def Endpoint.text (e : Endpoint) : String :=
  match e.address with
  | .v4 _ => s!"{e.address.text}:{e.port}"
  | .v6 _ => s!"[{e.address.text}]:{e.port}"

/-! ## Reading -/

/-- A number at the start of `s`: all digits there, at least one and at most `most`, and
    no leading zero unless `zeroFirst` allows it. -/
def readNumber (radix most : Nat) (zeroFirst : Bool) (s : List Char) : Option (Nat × List Char) :=
  let digits := s.takeWhile (isDigit radix)
  if digits.isEmpty || most < digits.length then none
  else if !zeroFirst && digits.head? == some '0' && 1 < digits.length then none
  else some (ofDigits radix digits, s.dropWhile (isDigit radix))

def readOctet (s : List Char) : Option (UInt8 × List Char) :=
  match readNumber 10 3 false s with
  | some (n, rest) => if n < 256 then some (UInt8.ofNat n, rest) else none
  | none => none

def after (c : Char) : List Char → Option (List Char)
  | x :: rest => if x = c then some rest else none
  | [] => none

def readIpv4 (s : List Char) : Option (Ipv4 × List Char) := do
  let (a, s) ← readOctet s
  let (b, s) ← after '.' s >>= readOctet
  let (c, s) ← after '.' s >>= readOctet
  let (d, s) ← after '.' s >>= readOctet
  return (⟨a, b, c, d⟩, s)

structure Groups where
  groups : List UInt16
  /-- The last two groups were written as an IPv4 address. -/
  endsInIpv4 : Bool
  rest : List Char

/-- At most `limit` groups at the start of `s`, each but the first behind a colon. An
    IPv4 address counts as two groups and ends them. -/
def readGroups (first : Bool) : Nat → List Char → Groups
  | 0, s => ⟨[], false, s⟩
  | limit + 1, s =>
    let here := if first then some s else after ':' s
    match if 1 ≤ limit then here >>= readIpv4 else none with
    | some (v4, rest) => ⟨v4.toGroups, true, rest⟩
    | none =>
      match here >>= readNumber 16 4 true with
      | some (g, rest) =>
        let more := readGroups false limit rest
        { more with groups := UInt16.ofNat g :: more.groups }
      | none => ⟨[], false, s⟩

theorem length_readGroups (first : Bool) (limit : Nat) (s : List Char) :
    (readGroups first limit s).groups.length ≤ limit := by
  induction limit generalizing first s with
  | zero => simp [readGroups]
  | succ limit ih =>
    unfold readGroups
    simp only
    split
    · rename_i v4 rest h
      split at h
      · simp only [Ipv4.toGroups, List.length_cons, List.length_nil]; omega
      · cases h
    · split
      · rename_i g rest _
        simp only [List.length_cons]
        have := ih false rest
        omega
      · simp

def readIpv6 (s : List Char) : Option (Ipv6 × List Char) :=
  let head := readGroups true 8 s
  if h : head.groups.length = 8 then some (⟨head.groups, h⟩, head.rest)
  else if head.endsInIpv4 then none
  else
    match head.rest with
    | ':' :: ':' :: rest =>
      let tail := readGroups true (8 - (head.groups.length + 1)) rest
      let zeros := List.replicate (8 - head.groups.length - tail.groups.length) 0
      some (⟨head.groups ++ zeros ++ tail.groups, by
        have hhead := length_readGroups true 8 s
        have htail := length_readGroups true (8 - (head.groups.length + 1)) rest
        simp only [zeros, tail, head, List.length_append, List.length_replicate] at *
        omega⟩, tail.rest)
    | _ => none

/-- The address that a text spells, with nothing before or after it. -/
def Address.parse (s : List Char) : Option Address :=
  match readIpv4 s with
  | some (x, []) => some (.v4 x)
  | some (_, _ :: _) => none
  | none =>
    match readIpv6 s with
    | some (x, []) => some (.v6 x)
    | _ => none

def Address.ofText? (text : String) : Option Address := Address.parse text.toList

end MessageBroker.Network
