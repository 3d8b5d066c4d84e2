/-
  MessageBroker.Proofs.Selector.Naming — what a token that is ready stands for.

  A connection keeps its token from the first time that it is watched, wherever it is: parked,
  with the pool, on its way back, or closed because it could not be watched again. So a token
  that is ready may be that of a connection which is not parked, and then nothing happens; it
  never is that of two connections.
  - `Reserved`: a token that is given out is not that of the listener or the waker.
  - `Filed.takeReturn_parked`, `Filed.ready_parked`, `Filed.ready_elsewhere`: what becomes of a
    returned connection and of a token that is ready.
  - `Shared.Named`: the above, said of a selector with its callers; `Shared.named` of every run.
-/

import MessageBroker.Proofs.Selector.Custody

namespace MessageBroker.Selector

open History
open Pool (Enqueued)

variable {ι : Type}

/-! ## Tokens that are given out -/

/-- Tokens are given out from the first one on. -/
structure Reserved (token : ι → Option Token) (selector : State ι) : Prop where
  next : firstToken ≤ selector.nextToken
  held : ∀ c t, token c = some t → firstToken ≤ t

/-- Each token names one connection, and files it where it is parked. -/
structure Naming (token : ι → Option Token) (selector : State ι) : Prop where
  range : ∀ c t, token c = some t → firstToken ≤ t ∧ t < selector.nextToken
  distinct : ∀ c d t, token c = some t → token d = some t → c = d
  filed : ∀ t c, (t, c) ∈ selector.parked → token c = some t

section
variable {token token' : ι → Option Token} {selector selector' : State ι} {c : ι} {t : Token}

theorem Reserved.keep (hr : Reserved token selector) (hnext : selector.nextToken ≤ selector'.nextToken)
    (htoken : ∀ c t, token' c = some t → token c = some t) : Reserved token' selector' where
  next := Nat.le_trans hr.next hnext
  held c t h := hr.held c t (htoken c t h)

theorem Reserved.watchFor (hr : Reserved token selector) (c : ι) :
    firstToken ≤ (selector.watchFor (token c)).token := by
  cases hheld : token c with
  | some held => exact hr.held c held hheld
  | none => exact hr.next

theorem Reserved.park [DecidableEq ι] (hr : Reserved token selector) {rest : List ι}
    (hreturned : selector.returned = c :: rest) :
    Reserved (Function.update token c (some (selector.watchFor (token c)).token))
      (selector.takeReturn (token c) true) := by
  rw [State.takeReturn_watched hreturned]
  refine ⟨Nat.le_trans hr.next (Nat.le_add_right ..), ?_⟩
  intro d t hd
  by_cases hdc : d = c
  · rw [hdc, Function.update_self] at hd
    exact Option.some.inj hd ▸ hr.watchFor c
  · rw [Function.update_of_ne hdc] at hd
    exact hr.held d t hd

theorem Filed.naming (hf : Filed token selector) (hr : Reserved token selector) : Naming token selector where
  range c t h := ⟨hr.held c t h, hf.issued c t h⟩
  distinct := hf.distinct
  filed := hf.filed

/-! ## What the selector does -/

theorem Filed.takeReturn_parked (hf : Filed token selector) {rest : List ι}
    (hreturned : selector.returned = c :: rest) (hc : c ∉ selector.parked.map (·.2)) :
    (selector.takeReturn (token c) true).parked =
      selector.parked ++ [((selector.watchFor (token c)).token, c)] := by
  rw [State.takeReturn_watched hreturned]
  show selector.parked.filter _ ++ _ = _
  rw [hf.displaces_none hc]

theorem Filed.ready_parked (hf : Filed token selector) (hparked : (t, c) ∈ selector.parked) :
    selector.ready t = (some c, { selector with parked := selector.parked.filter (·.1 != t) }) := by
  unfold State.ready
  cases hfound : selector.parked.find? (·.1 == t) with
  | none => exact absurd (List.find?_eq_none.mp hfound _ hparked) (by simp)
  | some entry =>
    obtain ⟨t', d⟩ := entry
    obtain rfl : t' = t := by simpa using List.find?_some hfound
    have hd := hf.filed t' d (List.mem_of_find?_eq_some hfound)
    rw [hf.distinct d c t' hd (hf.filed t' c hparked)]

theorem Filed.ready_elsewhere (hf : Filed token selector)
    (helsewhere : ∀ c, token c = some t → c ∉ selector.parked.map (·.2)) : selector.ready t = (none, selector) := by
  unfold State.ready
  cases hfound : selector.parked.find? (·.1 == t) with
  | none => rfl
  | some entry =>
    obtain ⟨t', d⟩ := entry
    obtain rfl : t' = t := by simpa using List.find?_some hfound
    have hparked := List.mem_of_find?_eq_some hfound
    exact absurd (List.mem_map.mpr ⟨_, hparked, rfl⟩) (helsewhere d (hf.filed t' d hparked))

end

/-! ## A selector with its callers -/

namespace Shared

variable [DecidableEq ι]

/-- What tokens are to a selector, whoever has the connections that they name. -/
structure Named (s : Shared ι) : Prop where
  naming : Naming s.token s.selector
  /-- A connection that comes back displaces no other, also if it cannot be watched. -/
  inserts : ∀ c rest watchable, s.thread = .serving → s.selector.returned = c :: rest →
    (s.next (.takeReturn watchable)).selector.parked =
      s.selector.parked ++ if watchable then [((s.selector.watchFor (s.token c)).token, c)] else []
  /-- A parked connection goes to the pool when its token is ready, and no other does. -/
  dispatches : ∀ t c answer, s.thread = .serving → (t, c) ∈ s.selector.parked →
    s.selector.parked.Perm ((t, c) :: (s.next (.ready t answer)).selector.parked) ∧
    (s.next (.ready t answer)).dispatched = s.dispatched ++ (if answer = .rejected then [] else [c]) ∧
    (s.next (.ready t answer)).closed = s.closed ++ if answer = .rejected then [c] else []
  /-- Nothing happens when a token is ready whose connection somebody else has, such as the
      pool, or which is offered to the selector, waits for it, or is gone. -/
  ignores : ∀ t answer,
    (∀ c, s.token c = some t →
      s.Free c ∨ c ∈ s.inHands ∨ c ∈ s.selector.returned ∨ c ∈ s.closed ∨ c ∈ s.lost) →
    s.next (.ready t answer) = s

variable {s t : Shared ι} {c : ι}

theorem Step.reserved (h : Step s t) (hr : Reserved s.token s.selector) : Reserved t.token t.selector := by
  cases h with
  | park _ returned => exact hr.park returned
  | giveUp _ returned =>
    rw [State.takeReturn_unwatched returned]
    exact hr.keep (Nat.le_add_right ..) fun _ _ => id
  | ready _ _ answered =>
    rcases answered with rfl | rfl | rfl <;> exact hr.keep (Nat.le_refl _) fun _ _ => id
  | closeOne => exact hr.keep (Nat.le_refl _) fun _ _ => Filed.token_of_forget
  | _ => exact hr.keep (Nat.le_refl _) fun _ _ => id

theorem reserved_run (events : List (Event ι)) :
    Reserved (final next ({} : Shared ι) events).token (final next ({} : Shared ι) events).selector := by
  refine along (fun _ (s : Shared ι) => Reserved s.token s.selector) ?_ ?_ events
  · exact ⟨Nat.le_refl _, nofun⟩
  · intro past s e hr
    exact (s.next_step e).reserved hr

/-- A connection that is parked is nowhere else, and is not gone. -/
theorem Balanced.not_parked (hb : Balanced s)
    (hc : s.Free c ∨ c ∈ s.inHands ∨ c ∈ s.selector.returned ∨ c ∈ s.closed ∨ c ∈ s.lost) :
    c ∉ s.selector.parked.map (·.2) := by
  intro hin
  have honce := hb.once c
  have hparked := List.count_pos_iff.mpr hin
  simp only [custody, List.count_append] at honce
  rcases hc with hfree | hc | hc | hc | hc
  · exact hfree.1 (by simp only [custody, List.mem_append]; exact .inl (.inr hin))
  all_goals
    have helsewhere := List.count_pos_iff.mpr hc
    omega

theorem Sound.named (hs : Sound s) (hr : Reserved s.token s.selector) : Named s where
  naming := hs.filed.naming hr
  inserts := by
    intro c rest watchable hserving hreturned
    have hc : c ∉ s.selector.parked.map (·.2) :=
      hs.balanced.not_parked (.inr (.inr (.inl (by rw [hreturned]; exact List.mem_cons_self))))
    simp only [next, if_pos hserving, takeReturn, hreturned]
    cases watchable with
    | true => exact hs.filed.takeReturn_parked hreturned hc
    | false => simp [close, State.takeReturn_unwatched hreturned]
  dispatches := by
    intro t c answer hserving hparked
    have hleaves := hs.filed.parked_perm (parked_nodup hs.balanced.nodup) hparked
    simp only [next, if_pos hserving, ready, hs.filed.ready_parked hparked]
    cases answer with
    | accepted => exact ⟨hleaves, rfl, (List.append_nil _).symm⟩
    | rejected => exact ⟨hleaves, (List.append_nil _).symm, rfl⟩
    | raised fault => exact ⟨hleaves, rfl, (List.append_nil _).symm⟩
  ignores := by
    intro t answer helsewhere
    have hnone := hs.filed.ready_elsewhere fun c hc => hs.balanced.not_parked (helsewhere c hc)
    simp only [next, ready, hnone, ite_self]

/-- Of every run of a selector, whoever offers which connections and when. -/
theorem named (events : List (Event ι)) : Named (final next ({} : Shared ι) events) :=
  (sound_empty.run events).named (reserved_run events)

end Shared

end MessageBroker.Selector
