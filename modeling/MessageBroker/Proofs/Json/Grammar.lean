/-
  MessageBroker.Proofs.Json.Grammar — which texts spell which values.

  The grammar is stated apart from the reader. A text of tokens is their spellings one after the
  other, with any blanks before, between and behind them (`SpelledTokens`); an atom, a number and a
  token each have their own spellings, an atom and an exponent more than one. A text spells a value
  if it spells the tokens of the value (`Value.Spelled`).
  The reader takes as many characters as it can for a number, and the grammar does not say where a
  number ends. It need not: in a value no two numbers stand side by side (`isChain_toTokens`), and
  nothing else that may follow a number goes on with it (`SpelledTokens.stops`).
  - `tokens_of_spelled`, `spelled_of_tokens`: texts and their tokens.
  - `parse_eq_some_iff`: a text is read as a value if and only if it spells the value.
-/

import Mathlib.Data.List.Chain
import MessageBroker.Proofs.Json.Tokens
import MessageBroker.Proofs.Text.Numerals

namespace MessageBroker.Json

open Text

/-! ## Spellings -/

/-- Characters stand for themselves or behind a backslash as a letter, units are four digits. -/
inductive Atom.Spelled : Atom → List Char → Prop
  | plain {c : Char} (quote : c ≠ '"') (backslash : c ≠ '\\') (printable : 0x20 ≤ c.toNat) : Spelled (.char c) [c]
  | letter {l c : Char} (h : escaped? l = some c) : Spelled (.char c) ['\\', l]
  | unit {a b c d : Char} {u : UInt16} (h : unit? [a, b, c, d] = some u) : Spelled (.unit u) ['\\', 'u', a, b, c, d]

inductive SpelledAtoms : List Atom → List Char → Prop
  | nil : SpelledAtoms [] []
  | cons {a : Atom} {atoms : List Atom} {piece s : List Char} (first : a.Spelled piece) (rest : SpelledAtoms atoms s) :
    SpelledAtoms (a :: atoms) (piece ++ s)

def Digits (digits : List Char) : Prop := digits ≠ [] ∧ ∀ c ∈ digits, isDigit 10 c = true

inductive SpelledFraction : Option (List Char) → List Char → Prop
  | none : SpelledFraction none []
  | some {digits : List Char} (h : Digits digits) : SpelledFraction (some digits) ('.' :: digits)

inductive SpelledExponent : Option (Bool × List Char) → List Char → Prop
  | none : SpelledExponent none []
  | minus {mark : Char} {digits : List Char} (hmark : mark = 'e' ∨ mark = 'E') (h : Digits digits) :
    SpelledExponent (some (true, digits)) (mark :: '-' :: digits)
  | plus {mark : Char} {digits : List Char} (hmark : mark = 'e' ∨ mark = 'E') (h : Digits digits) :
    SpelledExponent (some (false, digits)) (mark :: '+' :: digits)
  | unsigned {mark : Char} {digits : List Char} (hmark : mark = 'e' ∨ mark = 'E') (h : Digits digits) :
    SpelledExponent (some (false, digits)) (mark :: digits)

/-- No whole part but zero starts with a zero. -/
inductive Number.Spelled : Number → List Char → Prop
  | mk {negative : Bool} {whole fraction exponent : List Char} {f : Option (List Char)} {e : Option (Bool × List Char)}
    (hwhole : Digits whole) (hzero : whole.head? = some '0' → whole.length = 1)
    (hfraction : SpelledFraction f fraction) (hexponent : SpelledExponent e exponent) :
    Spelled ⟨negative, whole, f, e⟩ ((if negative then ['-'] else []) ++ whole ++ fraction ++ exponent)

inductive Token.Spelled : Token → List Char → Prop
  | openObject : Spelled .openObject ['\x7b']
  | closeObject : Spelled .closeObject ['\x7d']
  | openArray : Spelled .openArray ['[']
  | closeArray : Spelled .closeArray [']']
  | colon : Spelled .colon [':']
  | comma : Spelled .comma [',']
  | null : Spelled .null ['n', 'u', 'l', 'l']
  | boolTrue : Spelled (.bool true) ['t', 'r', 'u', 'e']
  | boolFalse : Spelled (.bool false) ['f', 'a', 'l', 's', 'e']
  | number {n : Number} {s : List Char} (h : n.Spelled s) : Spelled (.number n) s
  | text {atoms : List Atom} {s : List Char} (h : SpelledAtoms atoms s) : Spelled (.text atoms) ('"' :: s ++ ['"'])

inductive SpelledTokens : List Token → List Char → Prop
  | nil : SpelledTokens [] []
  | blank {c : Char} {ts : List Token} {s : List Char} (h : isBlank c = true) (rest : SpelledTokens ts s) :
    SpelledTokens ts (c :: s)
  | token {t : Token} {ts : List Token} {piece s : List Char} (first : t.Spelled piece) (rest : SpelledTokens ts s) :
    SpelledTokens (t :: ts) (piece ++ s)

/-- The text spells the value, and there is nothing else in it but blanks. -/
def Value.Spelled (v : Value) (s : List Char) : Prop := SpelledTokens v.toTokens s

theorem SpelledTokens.append {ts ts' : List Token} {s s' : List Char} (h : SpelledTokens ts s)
    (h' : SpelledTokens ts' s') : SpelledTokens (ts ++ ts') (s ++ s') := by
  induction h with
  | nil => exact h'
  | blank hblank _ ih => exact .blank hblank ih
  | token first _ ih =>
    rw [List.append_assoc]
    exact .token first ih

theorem SpelledTokens.single {t : Token} {s : List Char} (h : t.Spelled s) : SpelledTokens [t] s := by
  have hspelled := SpelledTokens.token h .nil
  rwa [List.append_nil] at hspelled

/-! ## Atoms -/

def isPlain (c : Char) : Bool := c != '"' && c != '\\' && 0x20 ≤ c.toNat

theorem spelledAtoms_plain {s : List Char} (h : s.all isPlain = true) : SpelledAtoms (s.map .char) s := by
  induction s with
  | nil => exact .nil
  | cons c s ih =>
    rw [List.all_cons, Bool.and_eq_true] at h
    obtain ⟨hplain, hrest⟩ := h
    simp only [isPlain, Bool.and_eq_true, bne_iff_ne, decide_eq_true_eq] at hplain
    exact .cons (.plain hplain.1.1 hplain.1.2 hplain.2) (ih hrest)

theorem readText_plain {c : Char} (hquote : c ≠ '"') (hslash : c ≠ '\\') (hplain : 0x20 ≤ c.toNat)
    (rest : List Char) :
    readText (c :: rest) = (readText rest).map fun (atoms, rest) => (.char c :: atoms, rest) := by
  have hread : readText (c :: rest) = (readText rest).bind fun (atoms, rest) => some (.char c :: atoms, rest) := by
    rw [readText.eq_def]
    split
    case h_5 =>
      rename_i heq
      cases heq
      rw [if_neg (by simp [hslash, hplain])]
      rfl
    all_goals simp_all
  rw [hread]
  cases readText rest <;> rfl

theorem readText_letter {letter c : Char} (h : escaped? letter = some c) (rest : List Char) :
    readText ('\\' :: letter :: rest) = (readText rest).map fun (atoms, rest) => (.char c :: atoms, rest) := by
  have hunit : letter ≠ 'u' := fun hu => absurd (hu ▸ h) nofun
  have hread : readText ('\\' :: letter :: rest) =
      (readText rest).bind fun (atoms, rest) => some (.char c :: atoms, rest) := by
    rw [readText]
    · simp [h]
    · exact fun _ _ _ _ _ hu => absurd hu hunit
  rw [hread]
  cases readText rest <;> rfl

theorem readText_spelled {a : Atom} {piece : List Char} (h : a.Spelled piece) (rest : List Char) :
    readText (piece ++ rest) = (readText rest).map fun (atoms, rest) => (a :: atoms, rest) := by
  cases h with
  | plain quote backslash printable => exact readText_plain quote backslash printable rest
  | letter h => exact readText_letter h rest
  | unit h =>
    simp only [List.cons_append, List.nil_append, readText, h]
    cases readText rest <;> rfl

/-- Atoms are read up to the closing quote. -/
theorem readText_spelledAtoms {atoms : List Atom} {s : List Char} (h : SpelledAtoms atoms s) (rest : List Char) :
    readText (s ++ '"' :: rest) = some (atoms, rest) := by
  induction h with
  | nil => rfl
  | cons first _ ih =>
    rw [List.append_assoc, readText_spelled first, ih]
    rfl

theorem spelledAtoms_of_readText {s rest : List Char} {atoms : List Atom} (h : readText s = some (atoms, rest)) :
    ∃ spelling, SpelledAtoms atoms spelling ∧ s = spelling ++ '"' :: rest := by
  fun_induction readText s generalizing atoms rest with
  | case1 => cases h
  | case2 tail =>
    cases h
    exact ⟨[], .nil, rfl⟩
  | case3 a b c d tail ih =>
    simp only [Option.bind_eq_bind, Option.bind_eq_some_iff] at h
    obtain ⟨u, hu, ⟨found, left⟩, hread, hend⟩ := h
    cases hend
    obtain ⟨spelling, hspelled, rfl⟩ := ih hread
    exact ⟨_, .cons (.unit hu) hspelled, rfl⟩
  | case4 c tail _ ih =>
    simp only [Option.bind_eq_bind, Option.bind_eq_some_iff] at h
    obtain ⟨u, hu, ⟨found, left⟩, hread, hend⟩ := h
    cases hend
    obtain ⟨spelling, hspelled, rfl⟩ := ih hread
    exact ⟨_, .cons (.letter hu) hspelled, rfl⟩
  | case5 => cases h
  | case6 c tail hquote _ _ hplain ih =>
    simp only [Option.bind_eq_bind, Option.bind_eq_some_iff] at h
    obtain ⟨⟨found, left⟩, hread, hend⟩ := h
    cases hend
    obtain ⟨spelling, hspelled, rfl⟩ := ih hread
    rw [not_or, Nat.not_lt] at hplain
    exact ⟨_, .cons (.plain hquote hplain.2 hplain.1) hspelled, rfl⟩

/-! ## Numbers -/

/-- What follows a number does not go on with it. -/
structure Stops (rest : List Char) : Prop where
  ends : Ends 10 rest
  point : rest.head? ≠ some '.'
  exponent : rest.head? ≠ some 'e' ∧ rest.head? ≠ some 'E'

theorem stops_nil : Stops [] := ⟨ends_nil, nofun, nofun, nofun⟩

theorem stops_cons {c : Char} {rest : List Char}
    (h : isDigit 10 c = false ∧ c ≠ '.' ∧ c ≠ 'e' ∧ c ≠ 'E') : Stops (c :: rest) := by
  obtain ⟨hdigit, hpoint, he, hE⟩ := h
  exact ⟨ends_cons hdigit, by simpa using hpoint, by simpa using he, by simpa using hE⟩

theorem digit_ne_sign {c : Char} (h : isDigit 10 c = true) : c ≠ '-' ∧ c ≠ '+' := by
  constructor <;> rintro rfl <;> revert h <;> decide

theorem readDigits_digits {digits rest : List Char} (h : Digits digits) (hrest : Ends 10 rest) :
    readDigits (digits ++ rest) = some (digits, rest) := by
  simp [readDigits, takeWhile_digits h.2 hrest, dropWhile_digits h.2 hrest, h.1]

theorem digits_of_readDigits {s digits rest : List Char} (h : readDigits s = some (digits, rest)) :
    Digits digits ∧ s = digits ++ rest := by
  unfold readDigits at h
  simp only at h
  split at h
  · cases h
  · rename_i hsome
    cases h
    exact ⟨⟨by simpa using hsome, List.all_eq_true.mp List.all_takeWhile⟩, List.takeWhile_append_dropWhile.symm⟩

theorem readFraction_spelled {f : Option (List Char)} {s rest : List Char} (h : SpelledFraction f s)
    (hrest : Ends 10 rest) (hpoint : rest.head? ≠ some '.') : readFraction (s ++ rest) = some (f, rest) := by
  cases h with
  | none =>
    rw [List.nil_append]
    unfold readFraction
    split
    · exact absurd rfl hpoint
    · rfl
  | some h => simp [readFraction, readDigits_digits h hrest]

theorem spelled_of_readFraction {s rest : List Char} {f : Option (List Char)}
    (h : readFraction s = some (f, rest)) : ∃ spelling, SpelledFraction f spelling ∧ s = spelling ++ rest := by
  unfold readFraction at h
  split at h
  · obtain ⟨⟨digits, left⟩, hread, hend⟩ := Option.map_eq_some_iff.mp h
    cases hend
    obtain ⟨hdigits, rfl⟩ := digits_of_readDigits hread
    exact ⟨_, .some hdigits, rfl⟩
  · cases h
    exact ⟨[], .none, rfl⟩

theorem readSigned_digits {digits rest : List Char} (h : Digits digits) (hrest : Ends 10 rest) :
    readSigned (digits ++ rest) = some ((false, digits), rest) := by
  have hread := readDigits_digits h hrest
  obtain ⟨d, digits, rfl⟩ := List.exists_cons_of_ne_nil h.1
  obtain ⟨hminus, hplus⟩ := digit_ne_sign (h.2 d List.mem_cons_self)
  rw [List.cons_append] at hread ⊢
  unfold readSigned
  split
  · simp_all
  · simp_all
  · rw [hread]
    rfl

theorem readExponent_mark {mark : Char} (hmark : mark = 'e' ∨ mark = 'E') (s : List Char) :
    readExponent (mark :: s) = (readSigned s).map fun (exponent, s) => (some exponent, s) := by
  rcases hmark with rfl | rfl <;> rfl

theorem readExponent_spelled {e : Option (Bool × List Char)} {s rest : List Char} (h : SpelledExponent e s)
    (hrest : Stops rest) : readExponent (s ++ rest) = some (e, rest) := by
  cases h with
  | none =>
    rw [List.nil_append]
    unfold readExponent
    split
    · exact absurd rfl hrest.exponent.1
    · exact absurd rfl hrest.exponent.2
    · rfl
  | minus hmark h => simp [readExponent_mark hmark, readSigned, readDigits_digits h hrest.ends]
  | plus hmark h => simp [readExponent_mark hmark, readSigned, readDigits_digits h hrest.ends]
  | unsigned hmark h => simp [readExponent_mark hmark, readSigned_digits h hrest.ends]

theorem spelled_of_readSigned {mark : Char} (hmark : mark = 'e' ∨ mark = 'E') {s rest : List Char}
    {e : Bool × List Char} (h : readSigned s = some (e, rest)) :
    ∃ spelling, SpelledExponent (some e) spelling ∧ mark :: s = spelling ++ rest := by
  unfold readSigned at h
  split at h
  all_goals
    obtain ⟨⟨digits, left⟩, hread, hend⟩ := Option.map_eq_some_iff.mp h
    cases hend
    obtain ⟨hdigits, rfl⟩ := digits_of_readDigits hread
  · exact ⟨_, .minus hmark hdigits, rfl⟩
  · exact ⟨_, .plus hmark hdigits, rfl⟩
  · exact ⟨_, .unsigned hmark hdigits, rfl⟩

theorem spelled_of_readExponent {s rest : List Char} {e : Option (Bool × List Char)}
    (h : readExponent s = some (e, rest)) : ∃ spelling, SpelledExponent e spelling ∧ s = spelling ++ rest := by
  unfold readExponent at h
  split at h
  · obtain ⟨⟨e, left⟩, hread, hend⟩ := Option.map_eq_some_iff.mp h
    cases hend
    exact spelled_of_readSigned (.inl rfl) hread
  · obtain ⟨⟨e, left⟩, hread, hend⟩ := Option.map_eq_some_iff.mp h
    cases hend
    exact spelled_of_readSigned (.inr rfl) hread
  · cases h
    exact ⟨[], .none, rfl⟩

theorem SpelledExponent.ends {e : Option (Bool × List Char)} {s rest : List Char} (h : SpelledExponent e s)
    (hrest : Stops rest) : Ends 10 (s ++ rest) ∧ (s ++ rest).head? ≠ some '.' := by
  cases h with
  | none => exact ⟨hrest.ends, hrest.point⟩
  | minus hmark | plus hmark | unsigned hmark =>
    rcases hmark with rfl | rfl <;> exact ⟨ends_cons (by decide), by simp⟩

theorem readUnsigned_spelled {negative : Bool} {whole fraction exponent rest : List Char} {f : Option (List Char)}
    {e : Option (Bool × List Char)} (hwhole : Digits whole) (hzero : whole.head? = some '0' → whole.length = 1)
    (hfraction : SpelledFraction f fraction) (hexponent : SpelledExponent e exponent) (hrest : Stops rest) :
    readUnsigned negative (whole ++ (fraction ++ (exponent ++ rest))) = some (⟨negative, whole, f, e⟩, rest) := by
  obtain ⟨hends, hpoint⟩ := hexponent.ends hrest
  have hfollow : Ends 10 (fraction ++ (exponent ++ rest)) := by
    cases hfraction with
    | none => exact hends
    | some h => exact ends_cons (by decide)
  have hleading : ¬(whole.head? = some '0' ∧ whole.length ≠ 1) := fun hz => hz.2 (hzero hz.1)
  simp only [readUnsigned, readDigits_digits hwhole hfollow, Option.bind_eq_bind, Option.bind_some, if_neg hleading,
    readFraction_spelled hfraction hends hpoint, readExponent_spelled hexponent hrest]

/-- A number is read up to what does not go on with it. -/
theorem readNumber_spelled {n : Number} {s rest : List Char} (h : n.Spelled s) (hrest : Stops rest) :
    readNumber (s ++ rest) = some (n, rest) := by
  cases h with
  | @mk negative whole fraction exponent f e hwhole hzero hfraction hexponent =>
    have hunsigned : readUnsigned negative (whole ++ fraction ++ exponent ++ rest) =
        some (⟨negative, whole, f, e⟩, rest) := by
      rw [List.append_assoc, List.append_assoc]
      exact readUnsigned_spelled hwhole hzero hfraction hexponent hrest
    cases negative with
    | true => exact hunsigned
    | false =>
      obtain ⟨d, digits, rfl⟩ := List.exists_cons_of_ne_nil hwhole.1
      have hsign := (digit_ne_sign (hwhole.2 d List.mem_cons_self)).1
      show readNumber (d :: _) = _
      unfold readNumber
      split
      · simp_all
      · exact hunsigned

theorem spelled_of_readUnsigned {negative : Bool} {s rest : List Char} {n : Number}
    (h : readUnsigned negative s = some (n, rest)) :
    ∃ spelling, n.Spelled spelling ∧ (if negative then ['-'] else []) ++ s = spelling ++ rest := by
  simp only [readUnsigned, Option.bind_eq_bind, Option.bind_eq_some_iff] at h
  obtain ⟨⟨whole, s₁⟩, hwhole, h⟩ := h
  simp only at h
  split at h
  · cases h
  · rename_i hzero
    simp only [Option.bind_eq_some_iff] at h
    obtain ⟨⟨f, s₂⟩, hf, ⟨e, s₃⟩, he, hend⟩ := h
    cases hend
    obtain ⟨hdigits, rfl⟩ := digits_of_readDigits hwhole
    obtain ⟨fraction, hfraction, rfl⟩ := spelled_of_readFraction hf
    obtain ⟨exponent, hexponent, rfl⟩ := spelled_of_readExponent he
    have hone : whole.head? = some '0' → whole.length = 1 := fun hhead => by_contra fun hne => hzero ⟨hhead, hne⟩
    exact ⟨_, .mk hdigits hone hfraction hexponent, by simp⟩

theorem spelled_of_readNumber {s rest : List Char} {n : Number} (h : readNumber s = some (n, rest)) :
    ∃ spelling, n.Spelled spelling ∧ s = spelling ++ rest := by
  unfold readNumber at h
  split at h
  · exact spelled_of_readUnsigned h
  · exact spelled_of_readUnsigned h

/-! ## Tokens -/

def Token.isNumber : Token → Bool
  | .number _ => true
  | _ => false

theorem Number.Spelled.head {n : Number} {s : List Char} (h : n.Spelled s) :
    ∃ c tail, s = c :: tail ∧ (c = '-' ∨ isDigit 10 c = true) := by
  cases h with
  | @mk negative whole fraction exponent f e hwhole =>
    obtain ⟨d, digits, rfl⟩ := List.exists_cons_of_ne_nil hwhole.1
    cases negative with
    | true => exact ⟨_, _, rfl, .inl rfl⟩
    | false => exact ⟨_, _, rfl, .inr (hwhole.2 d List.mem_cons_self)⟩

theorem readToken_number {c : Char} (h : c = '-' ∨ isDigit 10 c = true) (s : List Char) :
    readToken (c :: s) = (readNumber (c :: s)).map fun (n, rest) => (.number n, rest) := by
  unfold readToken
  split
  case h_1 heq => cases heq
  case h_12 => rfl
  all_goals
    rename_i heq
    cases heq
    exact absurd h (by decide)

/-- A token is read up to its end; if it is a number, what follows must not go on with it. -/
theorem readToken_spelled {t : Token} {piece rest : List Char} (h : t.Spelled piece)
    (hrest : t.isNumber = true → Stops rest) : readToken (piece ++ rest) = some (t, rest) := by
  cases h with
  | openObject | closeObject | openArray | closeArray | colon | comma | null | boolTrue | boolFalse => rfl
  | number h =>
    have hread := readNumber_spelled h (hrest rfl)
    obtain ⟨c, tail, rfl, hc⟩ := h.head
    rw [List.cons_append] at hread ⊢
    rw [readToken_number hc, hread]
    rfl
  | @text atoms s h =>
    rw [List.append_assoc]
    show (readText (s ++ '"' :: rest)).map _ = _
    rw [readText_spelledAtoms h]
    rfl

/-- No token starts with a blank, and none but a number goes on with a number. -/
theorem Token.Spelled.head {t : Token} {piece : List Char} (h : t.Spelled piece) :
    ∃ c tail, piece = c :: tail ∧ isBlank c = false ∧
      (t.isNumber = false → isDigit 10 c = false ∧ c ≠ '.' ∧ c ≠ 'e' ∧ c ≠ 'E') := by
  cases h with
  | number h =>
    obtain ⟨c, tail, rfl, hc⟩ := h.head
    refine ⟨c, tail, rfl, ?_, nofun⟩
    by_cases hblank : isBlank c = true
    · simp only [isBlank, Bool.or_eq_true, beq_iff_eq] at hblank
      rcases hblank with ((rfl | rfl) | rfl) | rfl <;> exact absurd hc (by decide)
    · exact Bool.eq_false_iff.mpr hblank
  | _ => exact ⟨_, _, rfl, by decide, fun _ => by decide⟩

theorem eq_of_afterWord {word s rest : List Char} (h : afterWord word s = some rest) : s = word ++ rest := by
  unfold afterWord at h
  split at h
  · rename_i hstart
    cases h
    obtain ⟨tail, rfl⟩ := List.isPrefixOf_iff_prefix.mp hstart
    rw [List.drop_left]
  · cases h

theorem spelled_of_readToken {s rest : List Char} {t : Token} (h : readToken s = some (t, rest)) :
    ∃ piece, t.Spelled piece ∧ s = piece ++ rest := by
  unfold readToken at h
  split at h
  case h_1 => cases h
  case h_2 => cases h; exact ⟨_, .openObject, rfl⟩
  case h_3 => cases h; exact ⟨_, .closeObject, rfl⟩
  case h_4 => cases h; exact ⟨_, .openArray, rfl⟩
  case h_5 => cases h; exact ⟨_, .closeArray, rfl⟩
  case h_6 => cases h; exact ⟨_, .colon, rfl⟩
  case h_7 => cases h; exact ⟨_, .comma, rfl⟩
  case h_8 =>
    obtain ⟨⟨atoms, left⟩, hread, hend⟩ := Option.map_eq_some_iff.mp h
    cases hend
    obtain ⟨spelling, hspelled, rfl⟩ := spelledAtoms_of_readText hread
    exact ⟨_, .text hspelled, by simp⟩
  case h_9 =>
    obtain ⟨left, hread, hend⟩ := Option.map_eq_some_iff.mp h
    cases hend
    exact ⟨_, .null, eq_of_afterWord hread⟩
  case h_10 =>
    obtain ⟨left, hread, hend⟩ := Option.map_eq_some_iff.mp h
    cases hend
    exact ⟨_, .boolTrue, eq_of_afterWord hread⟩
  case h_11 =>
    obtain ⟨left, hread, hend⟩ := Option.map_eq_some_iff.mp h
    cases hend
    exact ⟨_, .boolFalse, eq_of_afterWord hread⟩
  case h_12 =>
    obtain ⟨⟨n, left⟩, hread, hend⟩ := Option.map_eq_some_iff.mp h
    cases hend
    obtain ⟨spelling, hspelled, rfl⟩ := spelled_of_readNumber hread
    exact ⟨_, .number hspelled, rfl⟩

/-! ## Texts of tokens -/

theorem tokens_blank {c : Char} (h : isBlank c = true) (s : List Char) : tokens (c :: s) = tokens s := by
  rw [tokens]
  simp [h]

theorem tokens_token {c : Char} {s rest : List Char} {t : Token} (hblank : isBlank c = false)
    (hread : readToken (c :: s) = some (t, rest)) : tokens (c :: s) = (tokens rest).map (t :: ·) := by
  rw [tokens]
  simp only [hblank, Bool.false_eq_true, if_false]
  split
  · rename_i t' rest' hfound
    obtain ⟨rfl, rfl⟩ : t = t' ∧ rest = rest' := by simpa [hread] using hfound
    rfl
  · rename_i hnone
    rw [hread] at hnone
    cases hnone

theorem SpelledTokens.stops {ts : List Token} {s : List Char} (h : SpelledTokens ts s)
    (hnumber : ∀ t ∈ ts.head?, t.isNumber = false) : Stops s := by
  induction h with
  | nil => exact stops_nil
  | @blank c ts s hblank _ _ =>
    apply stops_cons
    simp only [isBlank, Bool.or_eq_true, beq_iff_eq] at hblank
    rcases hblank with ((rfl | rfl) | rfl) | rfl <;> decide
  | token first _ _ =>
    obtain ⟨c, tail, rfl, -, hc⟩ := first.head
    exact stops_cons (hc (hnumber _ rfl))

/-- Two tokens that may stand side by side without a blank. -/
def Apart (t u : Token) : Prop := t.isNumber = true → u.isNumber = false

/-- The tokens of a text are those it spells. -/
theorem tokens_of_spelled {ts : List Token} {s : List Char} (h : SpelledTokens ts s) (hapart : ts.IsChain Apart) :
    tokens s = some ts := by
  induction h with
  | nil => rw [tokens]
  | blank hblank _ ih =>
    rw [tokens_blank hblank]
    exact ih hapart
  | @token t ts piece s first rest ih =>
    obtain ⟨hnext, hapart⟩ := List.isChain_cons.mp hapart
    have hstops : t.isNumber = true → Stops s := fun ht => rest.stops fun u hu => hnext u hu ht
    have hread := readToken_spelled first hstops
    obtain ⟨c, tail, rfl, hblank, -⟩ := first.head
    rw [List.cons_append] at hread ⊢
    rw [tokens_token hblank hread, ih hapart]
    rfl

/-- A text spells its tokens. -/
theorem spelled_of_tokens {ts : List Token} {s : List Char} (h : tokens s = some ts) : SpelledTokens ts s := by
  fun_induction tokens s generalizing ts with
  | case1 =>
    cases h
    exact .nil
  | case2 c rest hblank ih => exact .blank hblank (ih h)
  | case3 c rest hblank t left hread ih =>
    obtain ⟨later, hlater, rfl⟩ := Option.map_eq_some_iff.mp h
    obtain ⟨piece, hspelled, hsplit⟩ := spelled_of_readToken hread
    rw [hsplit]
    exact .token hspelled (ih hlater)
  | case4 => cases h

/-! ## Values -/

namespace Value

def Follows (ts : List Token) : Prop := ts.IsChain Apart ∧ ∀ t ∈ ts.head?, t.isNumber = false

theorem Follows.cons {t : Token} (ht : t.isNumber = false) {ts : List Token} (h : ts.IsChain Apart) :
    Follows (t :: ts) := by
  refine ⟨List.isChain_cons.mpr ⟨?_, h⟩, fun u hu => Option.some.inj hu ▸ ht⟩
  intro u _ hnumber
  exact absurd (ht.symm.trans hnumber) (by decide)

theorem Follows.number {n : Number} {ts : List Token} (h : Follows ts) : (Token.number n :: ts).IsChain Apart :=
  List.isChain_cons.mpr ⟨fun u hu _ => h.2 u hu, h.1⟩

mutual

/-- No two numbers of a value stand side by side, nor the last one and what follows. -/
theorem isChain_value (v : Value) {ts : List Token} (h : Follows ts) : (v.toTokens ++ ts).IsChain Apart := by
  match v with
  | .null | .bool _ | .text _ => exact (Follows.cons rfl h.1).1
  | .number _ => exact h.number
  | .array [] | .object [] => exact (Follows.cons rfl (Follows.cons rfl h.1).1).1
  | .array (v :: items) =>
    have hclose : Follows (.closeArray :: ts) := .cons rfl h.1
    have hitems := isChain_value v (follows_items items hclose)
    simp only [toTokens, List.cons_append, List.append_assoc, List.nil_append]
    exact (Follows.cons rfl hitems).1
  | .object ((k, v) :: members) =>
    have hclose : Follows (.closeObject :: ts) := .cons rfl h.1
    have hmembers := isChain_value v (follows_members members hclose)
    simp only [toTokens, List.cons_append, List.append_assoc, List.nil_append]
    exact (Follows.cons rfl (Follows.cons rfl (Follows.cons rfl hmembers).1).1).1

theorem follows_items (items : List Value) {ts : List Token} (h : Follows ts) : Follows (itemTokens items ++ ts) := by
  match items with
  | [] => exact h
  | v :: items =>
    have hitems := isChain_value v (follows_items items h)
    simp only [itemTokens, List.cons_append, List.append_assoc]
    exact .cons rfl hitems

theorem follows_members (members : List Member) {ts : List Token} (h : Follows ts) :
    Follows (memberTokens members ++ ts) := by
  match members with
  | [] => exact h
  | (k, v) :: members =>
    have hmembers := isChain_value v (follows_members members h)
    simp only [memberTokens, List.cons_append, List.append_assoc]
    exact .cons rfl (Follows.cons rfl (Follows.cons rfl hmembers).1).1

end

theorem isChain_toTokens (v : Value) : v.toTokens.IsChain Apart := by
  have hnil : Follows [] := ⟨.nil, nofun⟩
  have hchain := isChain_value v hnil
  rwa [List.append_nil] at hchain

/-- A text is read as a value if and only if it spells the value. -/
theorem parse_eq_some_iff {s : List Char} {v : Value} : parse s = some v ↔ v.Spelled s := by
  unfold parse Value.Spelled
  rw [Option.bind_eq_bind, Option.bind_eq_some_iff]
  constructor
  · rintro ⟨ts, hread, hvalue⟩
    rw [ofTokens?_eq_some_iff] at hvalue
    exact hvalue ▸ spelled_of_tokens hread
  · intro h
    exact ⟨v.toTokens, tokens_of_spelled h v.isChain_toTokens, ofTokens?_toTokens v⟩

end Value

end MessageBroker.Json
