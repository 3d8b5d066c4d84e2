/-
  MessageBroker.Proofs.Selector.Tokens — a token names one connection.

  A connection is watched under one token from the first time on, which is no other
  connection's, and is parked under that token (`Filed`). So parking a connection displaces
  no other, and what leaves when a token is ready is one connection.
-/

import Mathlib.Data.List.Nodup
import MessageBroker.Selector.State

namespace MessageBroker.Selector

variable {ι : Type}

structure Filed (token : ι → Option Token) (selector : State ι) : Prop where
  filed : ∀ t c, (t, c) ∈ selector.parked → token c = some t
  issued : ∀ c t, token c = some t → t < selector.nextToken
  distinct : ∀ c d t, token c = some t → token d = some t → c = d

namespace Filed

variable {token token' : ι → Option Token} {selector selector' : State ι} {c d : ι}

/-- What gives out no token and parks nothing keeps the files. -/
theorem keep (hf : Filed token selector) (hnext : selector.nextToken ≤ selector'.nextToken)
    (hparked : selector'.parked ⊆ selector.parked) : Filed token selector' where
  filed t c hin := hf.filed t c (hparked hin)
  issued c t h := Nat.lt_of_lt_of_le (hf.issued c t h) hnext
  distinct := hf.distinct

/-- The token that a connection is to be watched under is no other connection's. -/
theorem others (hf : Filed token selector) (hd : token d = some (selector.watchFor (token c)).token) : d = c := by
  cases hheld : token c with
  | some held =>
    rw [hheld] at hd
    exact hf.distinct d c held hd hheld
  | none =>
    rw [hheld] at hd
    exact absurd (hf.issued d _ hd) (Nat.lt_irrefl _)

/-- So parking a connection displaces no other. -/
theorem displaces_none (hf : Filed token selector) (hc : c ∉ selector.parked.map (·.2)) :
    selector.parked.filter (·.1 != (selector.watchFor (token c)).token) = selector.parked := by
  refine List.filter_eq_self.mpr fun entry hin => bne_iff_ne.mpr fun heq => ?_
  have hd := hf.filed entry.1 entry.2 hin
  rw [heq] at hd
  exact hc (List.mem_map.mpr ⟨entry, hin, hf.others hd⟩)

/-- What is parked under a token is one connection. -/
theorem parked_perm (hf : Filed token selector) (hn : (selector.parked.map (·.2)).Nodup) {t : Token}
    (hparked : (t, c) ∈ selector.parked) :
    selector.parked.Perm ((t, c) :: selector.parked.filter (·.1 != t)) := by
  have hparkedOnce : selector.parked.Nodup := List.Nodup.of_map _ hn
  have hfirst : (t, c) ∉ selector.parked.filter (·.1 != t) := by simp
  have hn' : ((t, c) :: selector.parked.filter (·.1 != t)).Nodup :=
    List.nodup_cons.mpr ⟨hfirst, hparkedOnce.filter _⟩
  refine (List.perm_ext_iff_of_nodup hparkedOnce hn').mpr fun entry => ?_
  rw [List.mem_cons, List.mem_filter, bne_iff_ne]
  constructor
  · intro hin
    by_cases heq : entry.1 = t
    · left
      have hsame := hf.filed entry.1 entry.2 hin
      rw [heq] at hsame
      exact Prod.ext heq (hf.distinct entry.2 c t hsame (hf.filed t c hparked))
    · exact .inr ⟨hin, heq⟩
  · rintro (rfl | ⟨hin, -⟩)
    · exact hparked
    · exact hin

variable [DecidableEq ι]

theorem token_of_forget {t : Token} (h : Function.update token c none d = some t) : token d = some t := by
  by_cases hdc : d = c
  · rw [hdc, Function.update_self] at h
    cases h
  · rwa [Function.update_of_ne hdc] at h

theorem park (hf : Filed token selector) {rest : List ι} (hreturned : selector.returned = c :: rest) :
    Filed (Function.update token c (some (selector.watchFor (token c)).token))
      (selector.takeReturn (token c) true) := by
  have hothers (d : ι) := hf.others (c := c) (d := d)
  have hheld (t : Token) (h : token c = some t) : (selector.watchFor (token c)).token = t := by
    rw [h]
    rfl
  have hissued :
      (selector.watchFor (token c)).token < selector.nextToken + (selector.watchFor (token c)).anew.toNat := by
    cases hknown : token c with
    | some held => exact hf.issued c held hknown
    | none => exact Nat.lt_succ_self _
  rw [State.takeReturn_watched hreturned]
  generalize selector.watchFor (token c) = watch at hothers hheld hissued ⊢
  constructor
  · intro t d hin
    rcases List.mem_append.mp hin with hin | hin
    · obtain ⟨hin, hne⟩ := List.mem_filter.mp hin
      have hd := hf.filed t d hin
      have hdc : d ≠ c := fun h => bne_iff_ne.mp hne (hheld t (h ▸ hd)).symm
      rwa [Function.update_of_ne hdc]
    · obtain ⟨rfl, rfl⟩ : t = watch.token ∧ d = c := by simpa using hin
      exact Function.update_self _ _ _
  · intro d t h
    by_cases hdc : d = c
    · rw [hdc, Function.update_self] at h
      exact Option.some.inj h ▸ hissued
    · rw [Function.update_of_ne hdc] at h
      exact Nat.lt_of_lt_of_le (hf.issued d t h) (Nat.le_add_right _ _)
  · intro d e t hd he
    by_cases hdc : d = c <;> by_cases hec : e = c
    · rw [hdc, hec]
    · rw [hdc, Function.update_self] at hd
      rw [Function.update_of_ne hec, ← hd] at he
      exact absurd (hothers e he) hec
    · rw [hec, Function.update_self] at he
      rw [Function.update_of_ne hdc, ← he] at hd
      exact absurd (hothers d hd) hdc
    · rw [Function.update_of_ne hdc] at hd
      rw [Function.update_of_ne hec] at he
      exact hf.distinct d e t hd he

theorem forget (hf : Filed token selector) (hc : c ∉ selector.parked.map (·.2)) :
    Filed (Function.update token c none) selector := by
  constructor
  · intro t d hin
    have hdc : d ≠ c := fun h => hc (List.mem_map.mpr ⟨_, hin, h⟩)
    rw [Function.update_of_ne hdc]
    exact hf.filed t d hin
  · exact fun d t h => hf.issued d t (token_of_forget h)
  · exact fun d e t hd he => hf.distinct d e t (token_of_forget hd) (token_of_forget he)

end Filed

end MessageBroker.Selector
