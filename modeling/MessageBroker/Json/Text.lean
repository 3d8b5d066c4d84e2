/-
  MessageBroker.Json.Text — texts in quotes, as JSON spells them.

  A spelled text is a list of atoms: characters, and the 16-bit units of `\u` escapes.
  A unit outside the surrogate range stands for a character, and so do two units that
  are a high and a low surrogate; an atom that is any other surrogate stands for
  nothing. So not every spelled text has characters (`decode?`), but every text has a
  spelling (`writeAtoms`).
-/

import MessageBroker.Text.Digits

namespace MessageBroker.Json

open Text

inductive Atom where
  | char (c : Char)
  /-- A `\u` escape. -/
  | unit (u : UInt16)
  deriving DecidableEq, Repr

/-- Where a 16-bit unit stands in the encoding of characters by one or two of them. -/
inductive UnitKind where
  | single
  | high
  | low
  deriving DecidableEq, Repr

def unitKind (u : UInt16) : UnitKind :=
  if u < 0xd800 then .single else if u < 0xdc00 then .high else if u < 0xe000 then .low else .single

def ofPair (high low : UInt16) : Char :=
  Char.ofNat (0x10000 + (high.toNat - 0xd800) * 0x400 + (low.toNat - 0xdc00))

def decode? : List Atom → Option (List Char)
  | [] => some []
  | .char c :: rest => (decode? rest).map (c :: ·)
  | .unit u :: rest =>
    match unitKind u with
    | .single => (decode? rest).map (Char.ofNat u.toNat :: ·)
    | .low => none
    | .high =>
      match rest with
      | .unit v :: rest =>
        if unitKind v = .low then (decode? rest).map (ofPair u v :: ·) else none
      | _ => none

/-! ## Reading -/

def escaped? : Char → Option Char
  | '"' => some '"'
  | '\\' => some '\\'
  | '/' => some '/'
  | 'b' => some '\x08'
  | 'f' => some '\x0c'
  | 'n' => some '\n'
  | 'r' => some '\r'
  | 't' => some '\t'
  | _ => none

def unit? (digits : List Char) : Option UInt16 :=
  if digits.all (isDigit 16) then some (UInt16.ofNat (ofDigits 16 digits)) else none

/-- The atoms up to the closing quote, and what follows it. Control characters are
    refused: they have to be escaped. -/
def readText : List Char → Option (List Atom × List Char)
  | [] => none
  | '"' :: rest => some ([], rest)
  | '\\' :: 'u' :: a :: b :: c :: d :: rest => do
    let u ← unit? [a, b, c, d]
    let (atoms, rest) ← readText rest
    some (.unit u :: atoms, rest)
  | '\\' :: c :: rest => do
    let c ← escaped? c
    let (atoms, rest) ← readText rest
    some (.char c :: atoms, rest)
  | c :: rest =>
    if c.toNat < 0x20 ∨ c = '\\' then none
    else do
      let (atoms, rest) ← readText rest
      some (.char c :: atoms, rest)

theorem length_readText {s rest : List Char} {atoms : List Atom}
    (h : readText s = some (atoms, rest)) : rest.length < s.length := by
  fun_induction readText s generalizing atoms rest with
  | case1 => cases h
  | case2 => cases h; simp
  | case3 a b c d tail ih =>
    simp only [Option.bind_eq_bind, Option.bind_eq_some_iff] at h
    obtain ⟨u, -, ⟨found, left⟩, hread, hend⟩ := h
    cases hend
    have := ih hread
    simp only [List.length_cons]
    omega
  | case4 c tail _ ih =>
    simp only [Option.bind_eq_bind, Option.bind_eq_some_iff] at h
    obtain ⟨u, -, ⟨found, left⟩, hread, hend⟩ := h
    cases hend
    have := ih hread
    simp only [List.length_cons]
    omega
  | case5 => cases h
  | case6 c tail _ _ _ _ ih =>
    simp only [Option.bind_eq_bind, Option.bind_eq_some_iff] at h
    obtain ⟨⟨found, left⟩, hread, hend⟩ := h
    cases hend
    have := ih hread
    simp only [List.length_cons]
    omega

/-! ## Writing -/

def writeChar (c : Char) : List Char :=
  match c with
  | '"' => ['\\', '"']
  | '\\' => ['\\', '\\']
  | '\x08' => ['\\', 'b']
  | '\x0c' => ['\\', 'f']
  | '\n' => ['\\', 'n']
  | '\r' => ['\\', 'r']
  | '\t' => ['\\', 't']
  | c =>
    if c.toNat < 0x20 then
      ['\\', 'u', '0', '0', Nat.digitChar (c.toNat / 16), Nat.digitChar (c.toNat % 16)]
    else [c]

def writeAtom : Atom → List Char
  | .char c => writeChar c
  | .unit u =>
    let digit (place : Nat) := Nat.digitChar (u.toNat / place % 16)
    ['\\', 'u', digit 4096, digit 256, digit 16, digit 1]

def writeAtoms (atoms : List Atom) : List Char := '"' :: atoms.flatMap writeAtom ++ ['"']

end MessageBroker.Json
