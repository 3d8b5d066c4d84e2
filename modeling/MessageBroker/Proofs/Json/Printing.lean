/-
  MessageBroker.Proofs.Json.Printing — every document comes back from its text.

  What is written is one of the texts that spell the value: an atom and a number are written in a
  spelling of theirs, and a value as the spellings of its tokens with blanks between some of them
  (`spelled_write`). A control character that stands for itself is written as an escape, and comes
  back as one: a value is `Kept` if it has no such characters but those that have a letter, and its
  numbers are spelled as JSON spells them.
  - `parse_render`: the text of a value that is kept spells that value.
-/

import MessageBroker.Proofs.Json.Grammar

namespace MessageBroker.Json

open Text

/-! ## Atoms -/

/-- An atom that comes back as it is written: no control character but those that a letter stands for. -/
def Atom.Kept : Atom → Prop
  | .char c => 0x20 ≤ c.toNat ∨ c ∈ ['\x08', '\x0c', '\n', '\r', '\t']
  | .unit _ => True

theorem unit?_digits (u : UInt16) :
    unit? [Nat.digitChar (u.toNat / 4096 % 16), Nat.digitChar (u.toNat / 256 % 16),
      Nat.digitChar (u.toNat / 16 % 16), Nat.digitChar (u.toNat / 1 % 16)] = some u := by
  have hdigit (n : Nat) : n % 16 < 16 := Nat.mod_lt n (by decide)
  have hu := u.toNat_lt
  have hvalue : u.toNat / 4096 % 16 * 4096 + u.toNat / 256 % 16 * 256 + u.toNat / 16 % 16 * 16 + u.toNat % 16 =
      u.toNat := by omega
  simp only [unit?, List.all_cons, List.all_nil, isDigit_digitChar (hdigit _) (Nat.le_refl 16), Bool.and_self, if_true,
    ofDigits, List.foldl_cons, List.foldl_nil, digitValue?_digitChar (hdigit _) (Nat.le_refl 16), Option.getD_some]
  refine congrArg some (UInt16.toNat_inj.mp ?_)
  simp
  omega

theorem spelled_writeChar {c : Char} (h : (Atom.char c).Kept) : (Atom.char c).Spelled (writeChar c) := by
  unfold writeChar
  split
  case h_8 =>
    rename_i hquote hslash _ _ _ _ _
    have hplain : 0x20 ≤ c.toNat := h.elim id fun hletter => by simp_all
    rw [if_neg (Nat.not_lt.mpr hplain)]
    exact .plain hquote hslash hplain
  all_goals exact .letter rfl

theorem spelled_writeAtom {a : Atom} (h : a.Kept) : a.Spelled (writeAtom a) := by
  cases a with
  | char c => exact spelled_writeChar h
  | unit u => exact .unit (unit?_digits u)

theorem spelled_writeAtoms {atoms : List Atom} (h : ∀ a ∈ atoms, a.Kept) :
    (Token.text atoms).Spelled (writeAtoms atoms) := by
  refine .text ?_
  induction atoms with
  | nil => exact .nil
  | cons a atoms ih =>
    rw [List.flatMap_cons]
    exact .cons (spelled_writeAtom (h a List.mem_cons_self)) (ih fun b hb => h b (List.mem_cons_of_mem a hb))

theorem decode?_chars (s : List Char) : decode? (s.map .char) = some s := by
  induction s with
  | nil => rfl
  | cons c s ih => simp [decode?, ih]

/-! ## Numbers -/

/-- A number as JSON spells it. -/
structure Number.Kept (n : Number) : Prop where
  whole : Digits n.whole
  zero : n.whole.head? = some '0' → n.whole.length = 1
  fraction : ∀ digits, n.fraction = some digits → Digits digits
  exponent : ∀ negative digits, n.exponent = some (negative, digits) → Digits digits

theorem Number.kept_ofNat (n : Nat) : (ofNat n).Kept where
  whole := ⟨Nat.toDigits_ne_nil, fun _ => isDigit_of_mem_toDigits (by decide) (by decide)⟩
  zero := length_of_head_toDigits (by decide)
  fraction := nofun
  exponent := nofun

theorem Number.nat?_ofNat (n : Nat) : (ofNat n).nat? = some n := by
  simp [nat?, ofNat, ofDigits_toDigits]

def writeFraction : Option (List Char) → List Char
  | some digits => '.' :: digits
  | none => []

def writeExponent : Option (Bool × List Char) → List Char
  | some (negative, digits) => 'e' :: (if negative then '-' :: digits else digits)
  | none => []

theorem writeNumber_eq (n : Number) :
    Value.writeNumber n =
      (if n.negative then ['-'] else []) ++ n.whole ++ writeFraction n.fraction ++ writeExponent n.exponent := rfl

theorem spelled_writeFraction {f : Option (List Char)} (h : ∀ digits, f = some digits → Digits digits) :
    SpelledFraction f (writeFraction f) := by
  cases f with
  | none => exact .none
  | some digits => exact .some (h digits rfl)

theorem spelled_writeExponent {e : Option (Bool × List Char)}
    (h : ∀ negative digits, e = some (negative, digits) → Digits digits) : SpelledExponent e (writeExponent e) := by
  match e with
  | none => exact .none
  | some (true, digits) => exact .minus (.inl rfl) (h true digits rfl)
  | some (false, digits) => exact .unsigned (.inl rfl) (h false digits rfl)

theorem spelled_writeNumber {n : Number} (h : n.Kept) : n.Spelled (Value.writeNumber n) := by
  rw [writeNumber_eq]
  exact .mk h.whole h.zero (spelled_writeFraction h.fraction) (spelled_writeExponent h.exponent)

/-! ## Tokens -/

def Token.Kept : Token → Prop
  | .number n => n.Kept
  | .text atoms => ∀ a ∈ atoms, a.Kept
  | _ => True

theorem SpelledTokens.newLine {ts : List Token} {s : List Char} (h : SpelledTokens ts s) (depth : Nat) :
    SpelledTokens ts (Value.newLine depth ++ s) := by
  have hspaces : ∀ n, SpelledTokens ts (List.replicate n ' ' ++ s) := by
    intro n
    induction n with
    | zero => exact h
    | succ n ih => exact .blank (by decide) ih
  exact .blank (by decide) (hspaces (2 * depth))

/-! ## Values -/

namespace Value

def Kept (v : Value) : Prop := ∀ t ∈ v.toTokens, t.Kept

theorem spelled_member {k : List Atom} (hk : ∀ a ∈ k, a.Kept) {v : Value} {s rest : List Char} {ts : List Token}
    (hv : v.Spelled s) (hrest : SpelledTokens ts rest) :
    SpelledTokens (.text k :: .colon :: (v.toTokens ++ ts)) (writeAtoms k ++ ':' :: ' ' :: (s ++ rest)) :=
  .token (spelled_writeAtoms hk) (.token .colon (.blank (by decide) (SpelledTokens.append hv hrest)))

mutual

theorem spelled_write (v : Value) (h : ∀ t ∈ v.toTokens, t.Kept) (depth : Nat) : v.Spelled (v.write depth) := by
  match v with
  | .null => exact .single .null
  | .bool true => exact .single .boolTrue
  | .bool false => exact .single .boolFalse
  | .number n => exact .single (.number (spelled_writeNumber (h (.number n) List.mem_cons_self)))
  | .text atoms => exact .single (spelled_writeAtoms (h (.text atoms) List.mem_cons_self))
  | .array [] => exact .token .openArray (.token .closeArray .nil)
  | .object [] => exact .token .openObject (.token .closeObject .nil)
  | .array (v :: items) =>
    have hv : ∀ t ∈ v.toTokens, t.Kept := fun t ht => h t (by simp [toTokens, ht])
    have hitems : ∀ t ∈ itemTokens items, t.Kept := fun t ht => h t (by simp [toTokens, ht])
    have hclose : SpelledTokens [.closeArray] (newLine depth ++ [']']) :=
      (SpelledTokens.single .closeArray).newLine depth
    have hrest := (spelled_writeItems items hitems (depth + 1)).append hclose
    have hall := (SpelledTokens.append (spelled_write v hv (depth + 1)) hrest).newLine (depth + 1)
    simp only [Spelled, write, toTokens, List.append_assoc, List.cons_append]
    exact .token .openArray hall
  | .object ((k, v) :: members) =>
    have hk : ∀ a ∈ k, a.Kept := h (.text k) (by simp [toTokens])
    have hv : ∀ t ∈ v.toTokens, t.Kept := fun t ht => h t (by simp [toTokens, ht])
    have hmembers : ∀ t ∈ memberTokens members, t.Kept := fun t ht => h t (by simp [toTokens, ht])
    have hclose : SpelledTokens [.closeObject] (newLine depth ++ ['\x7d']) :=
      (SpelledTokens.single .closeObject).newLine depth
    have hrest := (spelled_writeMembers members hmembers (depth + 1)).append hclose
    have hall := (spelled_member hk (spelled_write v hv (depth + 1)) hrest).newLine (depth + 1)
    simp only [Spelled, write, toTokens, List.append_assoc, List.cons_append, List.nil_append]
    exact .token .openObject hall

theorem spelled_writeItems (items : List Value) (h : ∀ t ∈ itemTokens items, t.Kept) (depth : Nat) :
    SpelledTokens (itemTokens items) (writeItems depth items) := by
  match items with
  | [] => exact .nil
  | v :: items =>
    have hv : ∀ t ∈ v.toTokens, t.Kept := fun t ht => h t (by simp [itemTokens, ht])
    have hitems : ∀ t ∈ itemTokens items, t.Kept := fun t ht => h t (by simp [itemTokens, ht])
    have hall := (SpelledTokens.append (spelled_write v hv depth) (spelled_writeItems items hitems depth)).newLine depth
    simp only [writeItems, itemTokens, List.append_assoc, List.cons_append]
    exact .token .comma hall

theorem spelled_writeMembers (members : List Member) (h : ∀ t ∈ memberTokens members, t.Kept) (depth : Nat) :
    SpelledTokens (memberTokens members) (writeMembers depth members) := by
  match members with
  | [] => exact .nil
  | (k, v) :: members =>
    have hk : ∀ a ∈ k, a.Kept := h (.text k) (by simp [memberTokens])
    have hv : ∀ t ∈ v.toTokens, t.Kept := fun t ht => h t (by simp [memberTokens, ht])
    have hmembers : ∀ t ∈ memberTokens members, t.Kept := fun t ht => h t (by simp [memberTokens, ht])
    have hrest := spelled_writeMembers members hmembers depth
    have hall := (spelled_member hk (spelled_write v hv depth) hrest).newLine depth
    simp only [writeMembers, memberTokens, List.append_assoc, List.cons_append, List.nil_append]
    exact .token .comma hall

end

theorem kept_number (n : Nat) : (number (.ofNat n)).Kept := by
  intro t ht
  obtain rfl : t = .number (.ofNat n) := List.mem_singleton.mp ht
  exact Number.kept_ofNat n

theorem kept_text {s : List Char} (h : ∀ c ∈ s, 0x20 ≤ c.toNat) : (text (s.map .char)).Kept := by
  intro t ht
  obtain rfl : t = .text (s.map .char) := List.mem_singleton.mp ht
  intro a ha
  obtain ⟨c, hc, rfl⟩ := List.mem_map.mp ha
  exact .inl (h c hc)

theorem kept_memberTokens {members : List Member} (h : ∀ m ∈ members, (text m.1).Kept ∧ m.2.Kept) :
    ∀ t ∈ memberTokens members, t.Kept := by
  induction members with
  | nil => nofun
  | cons m members ih =>
    obtain ⟨hk, hv⟩ := h m List.mem_cons_self
    intro t ht
    simp only [memberTokens, List.mem_cons, List.mem_append] at ht
    rcases ht with rfl | rfl | rfl | ht | ht
    · trivial
    · exact hk _ List.mem_cons_self
    · trivial
    · exact hv t ht
    · exact ih (fun m hm => h m (List.mem_cons_of_mem _ hm)) t ht

theorem kept_object {members : List Member} (h : ∀ m ∈ members, (text m.1).Kept ∧ m.2.Kept) :
    (object members).Kept := by
  intro t ht
  rw [toTokens_object, List.mem_cons, List.mem_append, List.mem_singleton] at ht
  rcases ht with rfl | ht | rfl
  · trivial
  · exact kept_memberTokens h t (List.mem_of_mem_tail ht)
  · trivial

/-- The text of a value spells it. -/
theorem parse_render {v : Value} (h : v.Kept) : parse v.render = some v := parse_eq_some_iff.mpr (spelled_write v h 0)

end Value

end MessageBroker.Json
