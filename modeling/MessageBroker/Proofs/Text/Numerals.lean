/-
  MessageBroker.Proofs.Text.Numerals — numbers come back from their digits.

  A number is written by `Nat.toDigits`, in base ten or sixteen: without leading zeros, and with
  small letters. It is read by taking digits as long as there are any, so what follows it must not
  start with one (`Ends`).
  - `ofDigits_toDigits`: the digits spell the number.
  - `head_toDigits`: only zero starts with a zero.
  - `takeWhile_digits` / `dropWhile_digits`: reading digits stops where the number ends.
-/

import MessageBroker.Text.Digits

namespace MessageBroker.Text

variable {radix : Nat}

def Ends (radix : Nat) (rest : List Char) : Prop := ∀ c, rest.head? = some c → isDigit radix c = false

theorem ends_nil : Ends radix [] := nofun

theorem ends_cons {c : Char} {rest : List Char} (h : isDigit radix c = false) : Ends radix (c :: rest) := by
  intro c' hc'
  rw [List.head?_cons, Option.some.injEq] at hc'
  exact hc' ▸ h

theorem Ends.decimal {rest : List Char} (h : Ends 16 rest) : Ends 10 rest := by
  intro c hc
  have hnot := h c hc
  simp only [isDigit, digitValue?] at hnot ⊢
  grind

theorem digitValue?_digitChar {d : Nat} (hd : d < radix) (hradix : radix ≤ 16) :
    digitValue? radix (Nat.digitChar d) = some d := by
  have hplain : ∀ d < 16, ((if '0' ≤ Nat.digitChar d ∧ Nat.digitChar d ≤ '9' then
        some ((Nat.digitChar d).toNat - '0'.toNat)
      else if 'a' ≤ Nat.digitChar d ∧ Nat.digitChar d ≤ 'z' then some ((Nat.digitChar d).toNat - 'a'.toNat + 10)
      else if 'A' ≤ Nat.digitChar d ∧ Nat.digitChar d ≤ 'Z' then some ((Nat.digitChar d).toNat - 'A'.toNat + 10)
      else none) : Option Nat) = some d := by decide
  unfold digitValue?
  rw [hplain d (by omega)]
  simp [hd]

theorem isDigit_digitChar {d : Nat} (hd : d < radix) (hradix : radix ≤ 16) :
    isDigit radix (Nat.digitChar d) = true := by
  rw [isDigit, digitValue?_digitChar hd hradix]
  rfl

theorem printable_of_isDigit {c : Char} (h : isDigit radix c = true) : 0x20 ≤ c.toNat := by
  have hvalue : ('0' ≤ c ∧ c ≤ '9') ∨ ('a' ≤ c ∧ c ≤ 'z') ∨ ('A' ≤ c ∧ c ≤ 'Z') := by
    simp only [isDigit, digitValue?] at h
    grind
  rcases hvalue with ⟨h, -⟩ | ⟨h, -⟩ | ⟨h, -⟩
  all_goals
    have hle := UInt32.le_iff_toNat_le.mp h
    exact Nat.le_trans (by decide) hle

theorem ofDigits_snoc (digits : List Char) (c : Char) :
    ofDigits radix (digits ++ [c]) = ofDigits radix digits * radix + (digitValue? radix c).getD 0 := by
  simp only [ofDigits, List.foldl_append, List.foldl_cons, List.foldl_nil]

theorem isDigit_of_mem_toDigits (hone : 1 < radix) (hradix : radix ≤ 16) {n : Nat} {c : Char}
    (h : c ∈ Nat.toDigits radix n) : isDigit radix c = true := by
  -- the last digit comes off the end
  induction n using Nat.strongRecOn with
  | ind n ih =>
    rw [Nat.toDigits_eq_if hone] at h
    split at h
    · rename_i hlt
      rw [List.mem_singleton.mp h]
      exact isDigit_digitChar hlt hradix
    · rename_i hge
      have hless : n / radix < n := Nat.div_lt_self (by omega) hone
      rcases List.mem_append.mp h with h | h
      · exact ih (n / radix) hless h
      · rw [List.mem_singleton.mp h]
        exact isDigit_digitChar (Nat.mod_lt n (by omega)) hradix

theorem ofDigits_toDigits (hone : 1 < radix) (hradix : radix ≤ 16) (n : Nat) :
    ofDigits radix (Nat.toDigits radix n) = n := by
  induction n using Nat.strongRecOn with
  | ind n ih =>
    rw [Nat.toDigits_eq_if hone]
    split
    · rename_i hlt
      simp only [ofDigits, List.foldl_cons, List.foldl_nil, digitValue?_digitChar hlt hradix]
      simp
    · rename_i hge
      have hless : n / radix < n := Nat.div_lt_self (by omega) hone
      rw [ofDigits_snoc, ih (n / radix) hless, digitValue?_digitChar (Nat.mod_lt n (by omega)) hradix]
      exact Nat.div_add_mod' n radix

/-- No number but zero starts with a zero. -/
theorem head_toDigits (hone : 1 < radix) {n : Nat} (h : (Nat.toDigits radix n).head? = some '0') : n = 0 := by
  induction n using Nat.strongRecOn with
  | ind n ih =>
    rw [Nat.toDigits_eq_if hone] at h
    split at h
    · simpa using h
    · rename_i hge
      have hless : n / radix < n := Nat.div_lt_self (by omega) hone
      rw [List.head?_append, Option.or_eq_some_iff] at h
      rcases h with h | ⟨h, -⟩
      · have hzero := Nat.div_eq_zero_iff.mp (ih (n / radix) hless h)
        omega
      · exact absurd (List.head?_eq_none_iff.mp h) Nat.toDigits_ne_nil

/-- A number that has a leading zero is one digit. -/
theorem length_of_head_toDigits (hone : 1 < radix) {n : Nat} (h : (Nat.toDigits radix n).head? = some '0') :
    (Nat.toDigits radix n).length = 1 := by
  rw [head_toDigits hone h, Nat.toDigits_zero]
  rfl

section
variable {digits rest : List Char} (hdigits : ∀ c ∈ digits, isDigit radix c = true) (hrest : Ends radix rest)
include hdigits hrest

theorem takeWhile_digits : (digits ++ rest).takeWhile (isDigit radix) = digits := by
  rw [List.takeWhile_append_of_pos hdigits]
  cases rest with
  | nil => simp
  | cons c rest => simp [hrest c rfl]

theorem dropWhile_digits : (digits ++ rest).dropWhile (isDigit radix) = rest := by
  rw [List.dropWhile_append_of_pos hdigits]
  cases rest with
  | nil => rfl
  | cons c rest => simp [hrest c rfl]

end

end MessageBroker.Text
