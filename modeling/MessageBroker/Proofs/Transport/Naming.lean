/-
  MessageBroker.Proofs.Transport.Naming — tokens while connections travel.

  A token goes with its connection from the selector's thread to the pool's queue, to a worker
  and back, while the thread goes on watching others and learning which tokens are ready. The
  connection is in one place at a time (`Placing`), so while it is anywhere else nothing is
  parked under its token.
  - `Effect.places`: an act moves a connection, gives one up, or accepts a new one.
  - `Named`: what tokens are to a service.
  - `tokens_name_connections`: so it is in every run, of a service and of any selector.
-/

import MessageBroker.Proofs.Pool.Visits
import MessageBroker.Proofs.Selector.Naming
import MessageBroker.Proofs.Transport.Teardown

namespace MessageBroker.Transport

open Connection
open Selector (Token Naming Reserved)

variable {σ : Type}

theorem Each.length_eq {R : Connection σ → Connection σ → Prop} {l l' : List (Served σ)} (h : Each R l l') :
    l.length = l'.length := by
  apply Nat.le_antisymm
  · have hrel := h l'.length
    rw [List.getElem?_eq_none (Nat.le_refl _)] at hrel
    cases hold : l[l'.length]? with
    | none => exact List.getElem?_eq_none_iff.mp hold
    | some a => rw [hold] at hrel; cases hrel
  · have hrel := h l.length
    rw [List.getElem?_eq_none (Nat.le_refl _)] at hrel
    cases hnew : l'[l.length]? with
    | none => exact List.getElem?_eq_none_iff.mp hnew
    | some a => rw [hnew] at hrel; cases hrel

namespace Service

/-! ## Each connection in one place -/

def places (s : Service σ) : List Nat := s.pool.kept ++ s.selector.returned ++ s.selector.parked.map (·.2)

/-- Each connection that was accepted has one place at most. -/
structure Placing (s : Service σ) : Prop where
  known : ∀ c ∈ s.places, c < s.served.length
  once : s.places.Nodup

variable {s t : Service σ} {act : Act σ} {c : Nat}

theorem placed_iff : s.Placed c ↔ c ∈ s.places := by
  simp [Placed, places]

theorem not_parked_of_once (ho : s.places.Nodup) (hc : c ∈ s.pool.kept ∨ c ∈ s.selector.returned) :
    c ∉ s.selector.parked.map (·.2) :=
  fun hin => List.disjoint_of_nodup_append ho (List.mem_append.mpr hc) hin

theorem count_schedule_le (s : Service σ) (c d : Nat) :
    (s.pool.schedule c (.returned true)).2.kept.count d ≤ (c :: s.pool.kept).count d := by
  rw [(s.pool.kept_schedule c true).count_eq d]
  split
  · exact Nat.le_refl _
  · exact List.count_le_count_cons

/-- A connection may be new; otherwise an act only moves connections or gives them up. -/
theorem Effect.places (h : Effect s act t) (ht : Tokens s) (hp : Placing s) :
    (s.served.length ≤ t.served.length ∧ ∀ d, t.places.count d ≤ s.places.count d) ∨
      (t.served.length = s.served.length + 1 ∧ ∀ d, t.places.count d ≤ (s.served.length :: s.places).count d) := by
  cases h with
  | idle | turn | shut | call => exact .inl ⟨Nat.le_refl _, fun _ => Nat.le_refl _⟩
  | arrive grown => exact .inl ⟨Nat.le_of_eq grown.length_eq, fun _ => Nat.le_refl _⟩
  | drain _ lived =>
    refine .inl ⟨Nat.le_of_eq lived.length_eq, fun d => ?_⟩
    simp only [Service.places, Selector.State.drain, List.map_nil, List.append_nil, List.count_append]
    omega
  | accept _ _ grown =>
    refine .inr ⟨by simpa using grown.length_eq.symm, fun d => ?_⟩
    have hqueue := s.count_schedule_le s.served.length d
    simp only [Service.places, List.count_append, List.count_cons] at hqueue ⊢
    omega
  | @ready token c l _ _ _ parked grown =>
    refine .inl ⟨Nat.le_of_eq grown.length_eq, fun d => ?_⟩
    have honce : (s.selector.parked.map (·.2)).Nodup := (List.nodup_append.mp hp.once).2.1
    have hleaves := ((ht.toFiled.parked_perm honce parked).map (·.2)).count_eq d
    have hqueue := s.count_schedule_le c d
    simp only [Service.places, List.map_cons, List.count_append, List.count_cons] at hleaves hqueue ⊢
    omega
  | @park _ c rest served _ returned present =>
    refine .inl ⟨Nat.le_of_eq (List.length_set ..).symm, fun d => ?_⟩
    have hc := not_parked_of_once hp.once (c := c) (.inr (by rw [returned]; exact List.mem_cons_self))
    have hothers := ht.toFiled.displaces_none hc
    rw [tokenAt_of_served present] at hothers
    simp only [Service.places, Selector.State.takeReturn_watched returned, hothers, returned, List.map_append,
      List.map_singleton, List.count_append, List.count_cons, List.count_nil]
    omega
  | @giveUp _ c rest _ _ held _ _ _ returned grown =>
    refine .inl ⟨Nat.le_of_eq grown.length_eq, fun d => ?_⟩
    simp only [Service.places, Selector.State.takeReturn_unwatched returned, returned, List.count_append,
      List.count_cons]
    omega
  | @work w _ reply _ grown =>
    refine .inl ⟨Nat.le_of_eq grown.length_eq, fun d => ?_⟩
    have hkept := (s.pool.kept_step w reply).count_eq d
    simp only [Service.places, List.count_append] at hkept ⊢
    omega
  | @handBack w _ reply c gone =>
    refine .inl ⟨Nat.le_refl _, fun d => ?_⟩
    have hkept := (s.pool.kept_step w reply).count_eq d
    simp only [Service.places, gone, Option.toList_some, List.count_append] at hkept ⊢
    omega
  | @misread w busy =>
    refine .inl ⟨Nat.le_refl _, fun d => ?_⟩
    have hkept := (s.pool.kept_misread w busy).count_eq d
    simp only [Service.places, List.count_append] at hkept ⊢
    omega
  | @join i =>
    refine .inl ⟨Nat.le_refl _, fun d => ?_⟩
    simp only [Service.places, s.pool.kept_stepCaller i, Nat.le_refl]
  | shutdown closes => rcases closes with rfl | rfl <;> exact .inl ⟨Nat.le_refl _, fun _ => Nat.le_refl _⟩

theorem Placing.step (hp : Placing s) (ht : Tokens s) (h : Effect s act t) : Placing t := by
  rcases h.places ht hp with ⟨hlength, hcount⟩ | ⟨hlength, hcount⟩
  · refine ⟨fun c hc => ?_, List.nodup_iff_count_le_one.mpr fun d => ?_⟩
    · have hold : c ∈ s.places := List.count_pos_iff.mp (Nat.lt_of_lt_of_le (List.count_pos_iff.mpr hc) (hcount c))
      exact Nat.lt_of_lt_of_le (hp.known c hold) hlength
    · exact Nat.le_trans (hcount d) (List.nodup_iff_count_le_one.mp hp.once d)
  · -- the new connection had no place before
    have hnew : s.served.length ∉ s.places := fun hin => Nat.lt_irrefl _ (hp.known _ hin)
    have honce : (s.served.length :: s.places).Nodup := List.nodup_cons.mpr ⟨hnew, hp.once⟩
    refine ⟨fun c hc => ?_, List.nodup_iff_count_le_one.mpr fun d => ?_⟩
    · have hin := List.count_pos_iff.mp (Nat.lt_of_lt_of_le (List.count_pos_iff.mpr hc) (hcount c))
      rcases List.mem_cons.mp hin with rfl | hold
      · omega
      · have hlt := hp.known c hold
        omega
    · exact Nat.le_trans (hcount d) (List.nodup_iff_count_le_one.mp honce d)

theorem reserved_step (hr : Reserved (tokenAt s.served) s.selector) (h : Effect s act t) :
    Reserved (tokenAt t.served) t.selector := by
  have hgrown {l : List (Served σ)} {c : Nat} {token : Token} (hg : Grown s.handler s.served l)
      (h : tokenAt l c = some token) : tokenAt s.served c = some token := (hg.tokenAt c).symm.trans h
  cases h with
  | arrive grown | ready _ _ _ grown | work grown => exact hr.keep (Nat.le_refl _) fun _ _ => hgrown grown
  | @drain _ _ l _ _ tokens =>
    refine hr.keep (Nat.le_refl _) fun c token hc => ?_
    rcases tokens c with heq | hnone
    · exact heq.symm.trans hc
    · rw [hnone] at hc
      cases hc
  | accept _ _ grown =>
    have htokens (c : Nat) := (grown.tokenAt c).trans (tokenAt_snoc s.served rfl c)
    exact hr.keep (Nat.le_refl _) fun c _ hc => (htokens c).symm.trans hc
  | @park _ c rest served _ returned present =>
    have hparked := hr.park returned
    rwa [tokenAt_of_served present, ← tokenAt_watchedAs present] at hparked
  | giveUp _ _ returned grown =>
    rw [Selector.State.takeReturn_unwatched returned]
    exact hr.keep (Nat.le_add_right ..) fun _ _ => hgrown grown
  | _ => exact hr.keep (Nat.le_refl _) fun _ _ => id

/-! ## What the thread does -/

/-- What tokens are to a service. -/
structure Named (s : Service σ) : Prop where
  naming : Naming (tokenAt s.served) s.selector
  /-- Each connection is at most once on the queue, with a worker, on its way back or parked. -/
  once : s.places.Nodup
  /-- A connection that comes back displaces no other, also if it cannot be watched. -/
  inserts : ∀ c rest reply, s.thread = .serving → s.selector.returned = c :: rest →
    (s.step (.takeReturn reply)).selector.parked =
      s.selector.parked ++ if reply.isOk then [((s.selector.watchFor (tokenAt s.served c)).token, c)] else []
  /-- A parked connection goes to the pool when its token is ready, and no other does. -/
  dispatches : ∀ token c, s.thread = .serving → (token, c) ∈ s.selector.parked →
    s.selector.parked.Perm ((token, c) :: (s.step (.ready token)).selector.parked) ∧
    (s.step (.ready token)).pool = (s.pool.schedule c (.returned true)).2
  /-- Nothing happens when a token is ready whose connection is in the pool, on its way back, or
      gone. -/
  ignores : ∀ token,
    (∀ c, tokenAt s.served c = some token → c ∈ s.pool.kept ∨ c ∈ s.selector.returned ∨ ¬s.Placed c) →
    s.step (.ready token) = s

theorem takeReturn_ok {rest : List Nat} {served : Served σ} (hreturned : s.selector.returned = c :: rest)
    (hc : s.served[c]? = some served) :
    (s.takeReturn (.ok ())).selector = s.selector.takeReturn (tokenAt s.served c) true := by
  rw [tokenAt_of_served hc]
  cases htoken : served.connection.token <;>
    simp [takeReturn, hreturned, hc, htoken, Selector.State.watchFor, register, reregister, setServed]

theorem selector_closeOnThread (s : Service σ) (c : Nat) : (s.closeOnThread c).selector = s.selector := by
  obtain ⟨l, thread, hs, -⟩ := s.closeOnThread_spec c
  rw [hs]

theorem takeReturn_error {rest : List Nat} {served : Served σ} (hreturned : s.selector.returned = c :: rest)
    (hc : s.served[c]? = some served) (e : IoError) :
    (s.takeReturn (.error e)).selector.parked = s.selector.parked := by
  cases htoken : served.connection.token <;>
    simp [takeReturn, hreturned, hc, htoken, Selector.State.watchFor, register, reregister, setServed,
      selector_closeOnThread, Selector.State.takeReturn_unwatched hreturned]

theorem named_of (ht : Tokens s) (hr : Reserved (tokenAt s.served) s.selector) (hp : Placing s) : Named s where
  naming := ht.toFiled.naming hr
  once := hp.once
  inserts := by
    intro c rest reply hserving hreturned
    have hc : c ∈ s.selector.returned := by
      rw [hreturned]
      exact List.mem_cons_self
    have hserved := List.getElem?_eq_getElem (hp.known c (by simp [places, hc]))
    simp only [step, if_pos hserving]
    cases reply with
    | ok =>
      rw [takeReturn_ok hreturned hserved]
      exact ht.toFiled.takeReturn_parked hreturned (not_parked_of_once hp.once (.inr hc))
    | error e =>
      rw [takeReturn_error hreturned hserved e]
      exact (List.append_nil _).symm
  dispatches := by
    intro token c hserving hparked
    have honce : (s.selector.parked.map (·.2)).Nodup := (List.nodup_append.mp hp.once).2.1
    have hleaves := ht.toFiled.parked_perm honce hparked
    simp only [step, if_pos hserving, ready, ht.toFiled.ready_parked hparked]
    obtain ⟨l, thread, hs, -⟩ :=
      dispatch_spec { s with selector := { s.selector with parked := s.selector.parked.filter (·.1 != token) } } c
    rw [hs]
    exact ⟨hleaves, rfl⟩
  ignores := by
    intro token helsewhere
    have hnone : s.selector.ready token = (none, s.selector) := by
      apply ht.toFiled.ready_elsewhere
      intro c hc hin
      rcases helsewhere c hc with hkept | hreturned | hgone
      · exact not_parked_of_once hp.once (.inl hkept) hin
      · exact not_parked_of_once hp.once (.inr hreturned) hin
      · exact hgone (placed_iff.mpr (List.mem_append_right _ hin))
    simp only [step, ready, hnone, ite_self]

theorem named_run {config : Config} {handler : Handler σ} {listening : Except IoError Network.Endpoint}
    (hstart : start config handler listening = .ok s) (acts : List (Act σ)) : Named (s.run acts) := by
  have hrun : Tokens (s.run acts) ∧ Reserved (tokenAt (s.run acts).served) (s.run acts).selector ∧
      Placing (s.run acts) := by
    refine History.along (fun _ t => Tokens t ∧ Reserved (tokenAt t.served) t.selector ∧ Placing t) ?_ ?_ acts
    · refine ⟨(sound_start hstart).tokens, ?_⟩
      obtain ⟨endpoint, rfl, -⟩ := start_cases hstart
      refine ⟨⟨Nat.le_refl _, nofun⟩, ?_⟩
      have hnone : places ({ config, listening := endpoint, handler, pool := .ofSize config.workers.toNat } : Service σ) =
          [] := by
        simp [places, Pool.State.kept_ofSize]
      exact ⟨by rw [hnone]; exact nofun, by rw [hnone]; exact List.nodup_nil⟩
    · intro past t act ht
      obtain ⟨htokens, hreserved, hplacing⟩ := ht
      have heffect := t.step_effect act
      exact ⟨htokens.step heffect, reserved_step hreserved heffect, hplacing.step htokens heffect⟩
  exact named_of hrun.1 hrun.2.1 hrun.2.2

end Service

/-- Of every run of a selector, whatever its connections are, whoever offers them and when, and
    whichever can be watched; and of every run of a service, whatever its peers send, however
    its handlers behave, and in whichever order its threads go on. Every token that a
    connection has is its own, none of those that are reserved, and was given out. A parked
    connection is filed under its token, and one that comes back displaces no other. A token
    that is ready sends exactly the connection to the pool that is parked under it, and none
    when its connection is on the queue, with a worker, on its way back, or gone. -/
theorem tokens_name_connections :
    (∀ {ι : Type} [DecidableEq ι] (events : List (Selector.Event ι)),
      (History.final Selector.Shared.next ({} : Selector.Shared ι) events).Named) ∧
    ∀ {σ : Type} (config : Config) (handler : Handler σ) (listening : Except IoError Network.Endpoint)
      (s : Service σ), Service.start config handler listening = .ok s →
      ∀ acts : List (Act σ), (s.run acts).Named :=
  ⟨Selector.Shared.named, fun _ _ _ _ hstart acts => Service.named_run hstart acts⟩

/-- Three connections that hear nothing come back in turn; the second cannot be watched, which
    uses up token 3. Token 2 wakes connection 0, and does nothing when it is ready once more
    while the connection is queued. -/
theorem first_of_three_wakes :
    let handler : Handler Unit := { onFrame := fun _ s outbox => ⟨.returned (.ok ()), s, outbox⟩ }
    let config : Config := { workers := 1 }
    let listening : Network.Endpoint := ⟨.v4 .unspecified, 5672⟩
    let s : Service Unit := { config, listening, handler, pool := .ofSize 1 }
    let visit (reply : Except IoError Unit) : List (Act Unit) :=
      .accept () :: List.replicate 9 (.worker 0 []) ++ [.takeReturn reply]
    let acts : List (Act Unit) := .turn :: visit (.ok ()) ++ visit (.error (.worded .other "full")) ++ visit (.ok ())
    let t := s.run acts
    let u := s.run (acts ++ [.ready 2])
    Service.start config handler (.ok listening) = .ok s ∧ t.selector.parked = [(2, 0), (4, 2)] ∧
      t.selector.nextToken = 5 ∧ t.selector.parked.Perm ((2, 0) :: (t.step (.ready 2)).selector.parked) ∧
      (t.step (.ready 2)).pool = (t.pool.schedule 0 (.returned true)).2 ∧ u.pool.queue = [0] ∧ u.step (.ready 2) = u := by
  intro handler config listening s visit acts
  have hstart : Service.start config handler (.ok listening) = .ok s := rfl
  have ht := tokens_name_connections.2 config handler (.ok listening) s hstart acts
  have hu := tokens_name_connections.2 config handler (.ok listening) s hstart (acts ++ [.ready 2])
  have hserving : (s.run acts).thread = .serving := by decide +kernel
  have hparked : (s.run acts).selector.parked = [(2, 0), (4, 2)] := by decide +kernel
  have hnext : (s.run acts).selector.nextToken = 5 := by decide +kernel
  have hqueue : (s.run (acts ++ [.ready 2])).pool.queue = [0] := by decide +kernel
  have htoken : tokenAt (s.run (acts ++ [.ready 2])).served 0 = some 2 := by decide +kernel
  generalize s.run acts = t at *
  generalize s.run (acts ++ [.ready 2]) = u at *
  obtain ⟨hleaves, hpool⟩ := ht.dispatches 2 0 hserving (by rw [hparked]; exact List.mem_cons_self)
  refine ⟨hstart, hparked, hnext, hleaves, hpool, hqueue, hu.ignores 2 ?_⟩
  intro c hc
  obtain rfl := hu.naming.distinct c 0 2 hc htoken
  exact .inl (List.mem_append_left _ (by rw [hqueue]; exact List.mem_cons_self))

end MessageBroker.Transport
