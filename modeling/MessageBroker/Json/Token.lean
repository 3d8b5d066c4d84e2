/-
  MessageBroker.Json.Token — the smallest meaningful pieces of a JSON text.

  Between tokens may stand spaces, tabs, line feeds and carriage returns. A number is
  kept as it is spelled: which numbers fit where is for the reader of the document to
  say.
-/

import MessageBroker.Json.Text

namespace MessageBroker.Json

open Text

structure Number where
  negative : Bool := false
  /-- The digits before the point, without a leading zero unless it is the only one. -/
  whole : List Char
  /-- The digits behind the point. -/
  fraction : Option (List Char) := none
  /-- The exponent has a minus sign, and its digits. -/
  exponent : Option (Bool × List Char) := none
  deriving DecidableEq, Repr

namespace Number

def ofNat (n : Nat) : Number := { whole := Nat.toDigits 10 n }

/-- The natural number that is spelled without sign, fraction or exponent. -/
def nat? (n : Number) : Option Nat :=
  if n.negative ∨ n.fraction.isSome ∨ n.exponent.isSome then none else some (ofDigits 10 n.whole)

end Number

inductive Token where
  | openObject
  | closeObject
  | openArray
  | closeArray
  | colon
  | comma
  | null
  | bool (b : Bool)
  | number (n : Number)
  | text (atoms : List Atom)
  deriving DecidableEq, Repr

def isBlank (c : Char) : Bool := c == ' ' || c == '\n' || c == '\t' || c == '\r'

/-! ## Numbers -/

def readDigits (s : List Char) : Option (List Char × List Char) :=
  let digits := s.takeWhile (isDigit 10)
  if digits.isEmpty then none else some (digits, s.dropWhile (isDigit 10))

def readFraction : List Char → Option (Option (List Char) × List Char)
  | '.' :: s => (readDigits s).map fun (digits, s) => (some digits, s)
  | s => some (none, s)

def readSigned : List Char → Option ((Bool × List Char) × List Char)
  | '-' :: s => (readDigits s).map fun (digits, s) => ((true, digits), s)
  | '+' :: s => (readDigits s).map fun (digits, s) => ((false, digits), s)
  | s => (readDigits s).map fun (digits, s) => ((false, digits), s)

def readExponent : List Char → Option (Option (Bool × List Char) × List Char)
  | 'e' :: s | 'E' :: s => (readSigned s).map fun (exponent, s) => (some exponent, s)
  | s => some (none, s)

def readUnsigned (negative : Bool) (s : List Char) : Option (Number × List Char) := do
  let (whole, s) ← readDigits s
  if whole.head? = some '0' ∧ whole.length ≠ 1 then none
  else do
    let (fraction, s) ← readFraction s
    let (exponent, s) ← readExponent s
    some ({ negative, whole, fraction, exponent }, s)

def readNumber : List Char → Option (Number × List Char)
  | '-' :: s => readUnsigned true s
  | s => readUnsigned false s

/-! ## Tokens -/

def afterWord (word s : List Char) : Option (List Char) :=
  if word.isPrefixOf s then some (s.drop word.length) else none

def readToken (s : List Char) : Option (Token × List Char) :=
  match s with
  | [] => none
  | '\x7b' :: rest => some (.openObject, rest)
  | '\x7d' :: rest => some (.closeObject, rest)
  | '[' :: rest => some (.openArray, rest)
  | ']' :: rest => some (.closeArray, rest)
  | ':' :: rest => some (.colon, rest)
  | ',' :: rest => some (.comma, rest)
  | '"' :: rest => (readText rest).map fun (atoms, rest) => (.text atoms, rest)
  | 'n' :: _ => (afterWord ['n', 'u', 'l', 'l'] s).map (.null, ·)
  | 't' :: _ => (afterWord ['t', 'r', 'u', 'e'] s).map (.bool true, ·)
  | 'f' :: _ => (afterWord ['f', 'a', 'l', 's', 'e'] s).map (.bool false, ·)
  | s => (readNumber s).map fun (n, rest) => (.number n, rest)

/-! ## Each token takes something off the text -/

theorem length_readDigits {s digits rest : List Char} (h : readDigits s = some (digits, rest)) :
    rest.length < s.length := by
  unfold readDigits at h
  simp only at h
  split at h
  · cases h
  · rename_i hne
    cases h
    have split := congrArg List.length (List.takeWhile_append_dropWhile (p := isDigit 10) (l := s))
    rw [List.length_append] at split
    have : (s.takeWhile (isDigit 10)).length ≠ 0 := by
      intro hz
      rw [List.length_eq_zero_iff.mp hz] at hne
      exact hne rfl
    omega

theorem length_readFraction {s rest : List Char} {fraction : Option (List Char)}
    (h : readFraction s = some (fraction, rest)) : rest.length ≤ s.length := by
  unfold readFraction at h
  split at h
  · obtain ⟨⟨digits, left⟩, hread, hend⟩ := Option.map_eq_some_iff.mp h
    cases hend
    have := length_readDigits hread
    simp only [List.length_cons]
    omega
  · cases h
    exact Nat.le_refl _

theorem length_readSigned {s rest : List Char} {exponent : Bool × List Char}
    (h : readSigned s = some (exponent, rest)) : rest.length < s.length := by
  unfold readSigned at h
  split at h
  case h_3 =>
    obtain ⟨⟨digits, left⟩, hread, hend⟩ := Option.map_eq_some_iff.mp h
    cases hend
    exact length_readDigits hread
  all_goals
    obtain ⟨⟨digits, left⟩, hread, hend⟩ := Option.map_eq_some_iff.mp h
    cases hend
    have := length_readDigits hread
    simp only [List.length_cons]
    omega

theorem length_readExponent {s rest : List Char} {exponent : Option (Bool × List Char)}
    (h : readExponent s = some (exponent, rest)) : rest.length ≤ s.length := by
  unfold readExponent at h
  split at h
  · obtain ⟨⟨digits, left⟩, hread, hend⟩ := Option.map_eq_some_iff.mp h
    cases hend
    have := length_readSigned hread
    simp only [List.length_cons]
    omega
  · obtain ⟨⟨digits, left⟩, hread, hend⟩ := Option.map_eq_some_iff.mp h
    cases hend
    have := length_readSigned hread
    simp only [List.length_cons]
    omega
  · cases h
    exact Nat.le_refl _

theorem length_readUnsigned {negative : Bool} {s rest : List Char} {n : Number}
    (h : readUnsigned negative s = some (n, rest)) : rest.length < s.length := by
  simp only [readUnsigned, Option.bind_eq_bind, Option.bind_eq_some_iff] at h
  obtain ⟨⟨whole, s₁⟩, hwhole, h⟩ := h
  simp only at h
  split at h
  · cases h
  · simp only [Option.bind_eq_some_iff] at h
    obtain ⟨⟨fraction, s₂⟩, hfraction, ⟨exponent, s₃⟩, hexponent, hend⟩ := h
    cases hend
    have h₁ := length_readDigits hwhole
    have h₂ := length_readFraction hfraction
    have h₃ := length_readExponent hexponent
    simp only at *
    omega

theorem length_readNumber {s rest : List Char} {n : Number} (h : readNumber s = some (n, rest)) :
    rest.length < s.length := by
  unfold readNumber at h
  split at h
  · have := length_readUnsigned h
    simp only [List.length_cons]
    omega
  · exact length_readUnsigned h

theorem length_afterWord {word s rest : List Char} (hword : word ≠ []) (h : afterWord word s = some rest) :
    rest.length < s.length := by
  unfold afterWord at h
  split at h
  · rename_i hstart
    cases h
    have hle := (List.isPrefixOf_iff_prefix.mp hstart).length_le
    have := List.length_pos_iff.mpr hword
    simp only [List.length_drop]
    omega
  · cases h

theorem length_readToken {s rest : List Char} {t : Token} (h : readToken s = some (t, rest)) :
    rest.length < s.length := by
  unfold readToken at h
  split at h
  case h_1 => cases h
  case h_8 =>
    obtain ⟨⟨atoms, left⟩, hread, hend⟩ := Option.map_eq_some_iff.mp h
    cases hend
    have := length_readText hread
    simp only [List.length_cons]
    omega
  case h_12 =>
    obtain ⟨⟨n, left⟩, hread, hend⟩ := Option.map_eq_some_iff.mp h
    cases hend
    exact length_readNumber hread
  case h_9 | h_10 | h_11 =>
    obtain ⟨left, hread, hend⟩ := Option.map_eq_some_iff.mp h
    cases hend
    exact length_afterWord (by simp) hread
  all_goals
    cases h
    simp

/-- The tokens of a text, or `none` if some part of it is no token. -/
def tokens (s : List Char) : Option (List Token) :=
  match s with
  | [] => some []
  | c :: rest =>
    if isBlank c then tokens rest
    else
      match _ : readToken (c :: rest) with
      | some (t, rest) => (tokens rest).map (t :: ·)
      | none => none
termination_by s.length
decreasing_by
  · simp
  · exact length_readToken ‹_›

end MessageBroker.Json
