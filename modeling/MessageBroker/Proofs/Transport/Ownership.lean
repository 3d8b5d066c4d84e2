/-
  MessageBroker.Proofs.Transport.Ownership — who has a connection.

  An accepted connection is in the pool, on its way back to the selector, parked there,
  or closed. What the selector's thread takes out of one place it puts into another, or
  closes, within the same act.
  - `Tokens`: a token names one connection, and files it where it is parked. So parking a
    connection displaces no other.
  - `Owned`: no connection is lost.
-/

import MessageBroker.Proofs.Selector.Tokens
import MessageBroker.Proofs.Transport.Acts

namespace MessageBroker.Transport

open Connection

variable {σ : Type}

theorem tokenAt_snoc (l : List (Served σ)) {a : Served σ} (ha : a.connection.token = none) (c : Nat) :
    tokenAt (l ++ [a]) c = tokenAt l c := by
  simp only [tokenAt]
  rcases Nat.lt_trichotomy c l.length with hlt | rfl | hgt
  · rw [List.getElem?_append_left hlt]
  · simp [ha]
  · rw [List.getElem?_eq_none (by simp; omega), List.getElem?_eq_none (by omega)]

theorem closedAt_snoc (l : List (Served σ)) (a : Served σ) {c : Nat} (hc : c ≠ l.length) :
    closedAt (l ++ [a]) c = closedAt l c := by
  simp only [closedAt]
  rcases Nat.lt_or_gt_of_ne hc with hlt | hgt
  · rw [List.getElem?_append_left hlt]
  · rw [List.getElem?_eq_none (by simp; omega), List.getElem?_eq_none (by omega)]

theorem tokenAt_set {l : List (Served σ)} {c : Nat} {a b : Served σ} (hc : l[c]? = some a) (d : Nat) :
    tokenAt (l.set c b) d = if c = d then b.connection.token else tokenAt l d := by
  simp only [tokenAt]
  split
  · subst d
    rw [List.getElem?_set_self (List.getElem?_eq_some_iff.mp hc).1]
    rfl
  · rw [List.getElem?_set_ne ‹_›]

namespace Service

variable {s t : Service σ} {act : Act σ}

/-! ## Tokens -/

structure Tokens (s : Service σ) : Prop where
  /-- A parked connection is filed under its own token. -/
  filed : ∀ token c, (token, c) ∈ s.selector.parked → tokenAt s.served c = some token
  issued : ∀ c token, tokenAt s.served c = some token → token < s.selector.nextToken
  distinct : ∀ c d token, tokenAt s.served c = some token → tokenAt s.served d = some token → c = d

theorem Tokens.keep (ht : Tokens s) (htokens : ∀ c, tokenAt t.served c = tokenAt s.served c)
    (hnext : s.selector.nextToken ≤ t.selector.nextToken) (hparked : t.selector.parked ⊆ s.selector.parked) :
    Tokens t where
  filed token c hin := (htokens c).trans (ht.filed token c (hparked hin))
  issued c token h := Nat.lt_of_lt_of_le (ht.issued c token ((htokens c).symm.trans h)) hnext
  distinct c d token hc hd := ht.distinct c d token ((htokens c).symm.trans hc) ((htokens d).symm.trans hd)

theorem Tokens.toFiled (ht : Tokens s) : Selector.Filed (tokenAt s.served) s.selector :=
  ⟨ht.filed, ht.issued, ht.distinct⟩

section
variable {c : Nat} {served : Served σ}

theorem tokenAt_of_served (hc : s.served[c]? = some served) : tokenAt s.served c = served.connection.token := by
  simp [tokenAt, hc]

theorem tokenAt_watchedAs (hc : s.served[c]? = some served) (token : Selector.Token) :
    tokenAt (s.served.set c (served.watchedAs token)) = Function.update (tokenAt s.served) c (some token) := by
  funext d
  rw [tokenAt_set hc, Function.update_apply]
  exact if_congr eq_comm rfl rfl

theorem Tokens.others (ht : Tokens s) (hc : s.served[c]? = some served) {d : Nat} (hcd : c ≠ d) :
    tokenAt s.served d ≠ some (s.selector.watchFor served.connection.token).token := by
  intro h
  rw [← tokenAt_of_served hc] at h
  exact hcd (ht.toFiled.others h).symm

/-- What does not have a token stays parked when that is taken off the list. -/
theorem Tokens.mem_filter (ht : Tokens s) {d : Nat} {token other : Selector.Token}
    (hparked : (other, d) ∈ s.selector.parked) (hd : tokenAt s.served d ≠ some token) :
    (other, d) ∈ s.selector.parked.filter (·.1 != token) := by
  have hne : other ≠ token := by
    rintro rfl
    exact hd (ht.filed other d hparked)
  exact List.mem_filter.mpr ⟨hparked, by simpa using hne⟩

theorem Tokens.park (ht : Tokens s) {rest : List Nat} (hreturned : s.selector.returned = c :: rest)
    (hc : s.served[c]? = some served) :
    Tokens
      { s with
        served := s.served.set c (served.watchedAs (s.selector.watchFor served.connection.token).token)
        selector := s.selector.takeReturn served.connection.token true } := by
  have hparked := ht.toFiled.park hreturned
  rw [tokenAt_of_served hc, ← tokenAt_watchedAs hc] at hparked
  exact ⟨hparked.filed, hparked.issued, hparked.distinct⟩

end

theorem Tokens.step (ht : Tokens s) (h : Effect s act t) : Tokens t := by
  cases h with
  | idle => exact ht
  | arrive grown | work grown => exact ht.keep grown.tokenAt (Nat.le_refl _) (List.Subset.refl _)
  | turn | shut | handBack | misread | join | call | shutdown =>
    exact ht.keep (fun _ => rfl) (Nat.le_refl _) (List.Subset.refl _)
  | @drain _ _ l _ _ tokens =>
    have hold : ∀ c token, tokenAt l c = some token → tokenAt s.served c = some token := by
      intro c token hc
      rcases tokens c with heq | hnone
      · rw [← heq, hc]
      · rw [hnone] at hc
        cases hc
    exact ⟨nofun, fun c token hc => ht.issued c token (hold c token hc),
      fun c d token hc hd => ht.distinct c d token (hold c token hc) (hold d token hd)⟩
  | accept _ _ grown =>
    have htokens (c : Nat) := (grown.tokenAt c).trans (tokenAt_snoc s.served rfl c)
    exact ht.keep htokens (Nat.le_refl _) (List.Subset.refl _)
  | ready _ _ _ grown => exact ht.keep grown.tokenAt (Nat.le_refl _) fun _ hin => List.mem_of_mem_filter hin
  | park _ returned present => exact ht.park returned present
  | giveUp _ _ returned grown =>
    rw [Selector.State.takeReturn_unwatched returned]
    exact ht.keep grown.tokenAt (Nat.le_add_right _ _) (List.Subset.refl _)

/-! ## Places -/

def Placed (s : Service σ) (c : Nat) : Prop :=
  c ∈ s.pool.kept ∨ c ∈ s.selector.returned ∨ ∃ token, (token, c) ∈ s.selector.parked

/-- No connection is lost: each has a place or is closed. -/
def Owned (s : Service σ) : Prop := ∀ c, s.Placed c ∨ closedAt s.served c = true

/-- Connections live on. Those in their places stay there, go to another, or are closed. -/
theorem Owned.keep (ho : Owned s) (hlived : Lived s.handler s.served t.served)
    (hplaces : ∀ c, s.Placed c → t.Placed c ∨ closedAt t.served c = true) : Owned t := by
  intro c
  rcases ho c with hplaced | hclosed
  · exact hplaces c hplaced
  · exact .inr (hlived.closedAt hclosed)

/-- What is scheduled on an open pool is in it; nothing else leaves it. -/
theorem mem_kept_schedule {c d : Nat} (h : d = c ∧ s.pool.isOpen = true ∨ d ∈ s.pool.kept) :
    d ∈ (s.pool.schedule c (.returned true)).2.kept := by
  rw [(Pool.State.kept_schedule s.pool c true).mem_iff]
  rcases h with ⟨rfl, hopen⟩ | hin
  · rw [hopen]
    exact List.mem_cons_self
  · split
    · exact List.mem_cons_of_mem c hin
    · exact hin

theorem Owned.step (ho : Owned s) (ht : Tokens s) (h : Effect s act t) : Owned t := by
  cases h with
  | idle | turn | shut | call => exact ho
  | arrive grown => exact ho.keep grown.lived fun c hc => .inl hc
  | drain _ lived _ closed =>
    refine ho.keep lived fun c hc => ?_
    rcases hc with hc | hc | ⟨token, hc⟩
    · exact .inl (.inl hc)
    · exact .inr (closed c (List.mem_append_right _ hc))
    · exact .inr (closed c (List.mem_append_left _ (List.mem_map.mpr ⟨_, hc, rfl⟩)))
  | accept _ _ grown placed =>
    intro c
    by_cases hnew : c = s.served.length
    · subst hnew
      exact placed.imp (fun hopen => .inl (mem_kept_schedule (.inl ⟨rfl, hopen⟩))) id
    · rcases ho c with hc | hclosed
      · exact .inl (hc.imp_left fun hin => mem_kept_schedule (.inr hin))
      · exact .inr (grown.lived.closedAt ((closedAt_snoc s.served _ hnew).trans hclosed))
  | @ready token c l thread _ _ parked grown placed =>
    refine ho.keep grown.lived fun d hd => ?_
    by_cases hcd : d = c
    · subst hcd
      exact placed.imp (fun hopen => .inl (mem_kept_schedule (.inl ⟨rfl, hopen⟩))) id
    · rcases hd with hd | hd | ⟨other, hd⟩
      · exact .inl (.inl (mem_kept_schedule (.inr hd)))
      · exact .inl (.inr (.inl hd))
      · have hother : tokenAt s.served d ≠ some token :=
          fun h => hcd (ht.distinct d c token h (ht.filed token c parked))
        exact .inl (.inr (.inr ⟨other, ht.mem_filter hd hother⟩))
  | @park _ c rest served _ returned present =>
    rw [Selector.State.takeReturn_watched returned]
    refine ho.keep (lived_watchedAs present _) fun d hd => .inl ?_
    by_cases hcd : c = d
    · exact .inr (.inr ⟨_, List.mem_append_right _ (by rw [hcd]; exact List.mem_singleton_self _)⟩)
    · rcases hd with hd | hd | ⟨other, hd⟩
      · exact .inl hd
      · rw [returned] at hd
        exact .inr (.inl (List.mem_of_ne_of_mem (Ne.symm hcd) hd))
      · exact .inr (.inr ⟨other, List.mem_append_left _ (ht.mem_filter hd (ht.others present hcd))⟩)
  | giveUp _ _ returned grown closed =>
    rw [Selector.State.takeReturn_unwatched returned]
    refine ho.keep grown.lived fun d hd => ?_
    rcases hd with hd | hd | hd
    · exact .inl (.inl hd)
    · rw [returned] at hd
      rcases List.mem_cons.mp hd with rfl | hd
      · exact .inr closed
      · exact .inl (.inr (.inl hd))
    · exact .inl (.inr (.inr hd))
  | @work w _ reply _ grown closed =>
    refine ho.keep grown.lived fun d hd => ?_
    rcases hd with hd | hd
    · rcases Pool.State.mem_kept_step hd w reply with hd | hgone
      · exact .inl (.inl hd)
      · exact .inr (closed d hgone)
    · exact .inl (.inr hd)
  | @handBack w _ reply c gone _ =>
    refine ho.keep (Each.refl (fun _ => .refl) _) fun d hd => .inl ?_
    rcases hd with hd | hd | hd
    · rcases Pool.State.mem_kept_step hd w reply with hd | hgone
      · exact .inl hd
      · obtain rfl : c = d := Option.some.inj (gone.symm.trans hgone)
        exact .inr (.inl List.mem_concat_self)
    · exact .inr (.inl (List.mem_append_left _ hd))
    · exact .inr (.inr hd)
  | @misread w busy =>
    exact ho.keep (Each.refl (fun _ => .refl) _) fun d hd =>
      .inl (hd.imp_left (s.pool.kept_misread w busy).mem_iff.mp)
  | @join i =>
    exact ho.keep (Each.refl (fun _ => .refl) _) fun d hd =>
      .inl (hd.imp_left fun hin => (Pool.State.kept_stepCaller s.pool i).symm ▸ hin)
  | shutdown closes =>
    rcases closes with rfl | rfl
    · exact ho
    · exact ho

end Service

end MessageBroker.Transport
