/-
  MessageBroker.Proofs.Loopback.Order — an engine delivers what it enqueues, in order.

  An engine takes frames from its client and is polled, with any outbox, in any order.
  A moment enqueues the body of a PUBLISH, or the message that a REJECT takes out of
  flight (`enqueued`); a poll sends some of what waits (`sent`).
  - `next_frame`: a frame appends what it enqueues to what waits, and adds nothing in
    flight.
  - `InOrder`: the invariant. Of all that was enqueued the first n are delivered, under
    the tags 1 to n, and the others wait; kept by frames (`inOrder_frame`) and polls
    (`inOrder_poll`).
  - `deliveries_in_order`: what this says of every run that makes fewer than 2^64 - 1
    deliveries before the engine is closed.
-/

import Mathlib.Data.List.Forall2
import MessageBroker.Proofs.History
import MessageBroker.Proofs.Loopback.Polling

namespace MessageBroker.Loopback

open Wire Delivery

namespace Engine

inductive Event where
  | frame (payload : Bytes)
  /-- The connection polls the engine with its outbox as it is then. -/
  | poll (outbox : Outbox)

def next (e : Engine) : Event → Engine
  | .frame payload =>
    match e.handle payload with
    | .ok (e', _) => e'
    | .error _ => e
  | .poll outbox => (e.poll outbox).2.1

def enqueued (m : Moment Engine Event) : List Bytes :=
  match m.event with
  | .frame payload =>
    match Command.parse payload with
    | .ok (.publish body) => [body]
    | .ok (.reject tag) => (m.before.session.tracker.get? tag).toList
    | _ => []
  | .poll _ => []

def polled (m : Moment Engine Event) : List (Outbox × Outbox) :=
  match m.event with
  | .frame _ => []
  | .poll outbox => [(outbox, (m.before.poll outbox).2.2.1)]

def sent (m : Moment Engine Event) : Nat :=
  match m.event with
  | .frame _ => 0
  | .poll outbox => (m.before.poll outbox).2.2.2.delivered

/-- All that was enqueued, oldest first, and how much of it is delivered. -/
def queue (past : List (Moment Engine Event)) : List Bytes := past.flatMap enqueued

def count (past : List (Moment Engine Event)) : Nat := (past.map sent).sum

def Pushed (boxes : Outbox × Outbox) (frames : List Bytes) : Prop := boxes.2 = pushAll boxes.1 frames

@[simp] theorem count_snoc (past : List (Moment Engine Event)) (m : Moment Engine Event) :
    count (past ++ [m]) = count past + sent m := by
  simp [count]

/-! ## One frame -/

theorem perform_acknowledge (e : Engine) (tag : Tag) (multiple : Bool) :
    (e.perform (.acknowledge tag multiple)).1 = { e with session := (e.session.acknowledge tag multiple).2 } := rfl

theorem perform_reject (e : Engine) (tag : Tag) :
    (e.perform (.reject tag)).1 = { e with
      session := (e.session.reject tag).2
      pending := e.pending ++ (e.session.tracker.get? tag).toList } := by
  have hfst : (e.session.reject tag).1 = e.session.tracker.get? tag := Tracker.remove_fst _ _
  rw [← hfst]
  simp only [perform]
  split <;> rename_i hr <;> simp [hr]

/-- A frame appends what it enqueues to what waits, keeps the session's numbering and
    puts nothing in flight. -/
theorem next_frame (e : Engine) (payload : Bytes) :
    (e.next (.frame payload)).pending = e.pending ++ enqueued ⟨e, .frame payload⟩ ∧
    (e.next (.frame payload)).session.closed = e.session.closed ∧
    (e.next (.frame payload)).session.nextTag = e.session.nextTag ∧
    ∀ x ∈ (e.next (.frame payload)).session.tracker.outstanding.entries, x ∈ e.session.tracker.outstanding.entries := by
  cases hp : Command.parse payload with
  | error m => simp [next, handle, enqueued, hp, Except.map]
  | ok command =>
    have hnext : e.next (.frame payload) = (e.perform command).1 := by simp [next, handle, hp, Except.map]
    rw [hnext]
    cases command with
    | publish body =>
      simp only [enqueued, hp]
      exact ⟨rfl, rfl, rfl, fun _ hx => hx⟩
    | acknowledge tag multiple =>
      simp only [enqueued, hp, perform_acknowledge, List.append_nil]
      refine ⟨trivial, rfl, rfl, ?_⟩
      intro x hx
      have hkept : x ∈ (e.session.tracker.acknowledge tag multiple).2.outstanding.entries := hx
      rw [Tracker.acknowledge_entries] at hkept
      exact (List.mem_filter.mp hkept).1
    | reject tag =>
      simp only [enqueued, hp, perform_reject]
      refine ⟨trivial, rfl, rfl, ?_⟩
      intro x hx
      have hkept : x ∈ (e.session.tracker.remove tag).2.outstanding.entries := hx
      rw [Tracker.remove_entries] at hkept
      exact (List.mem_filter.mp hkept).1

/-! ## Every run -/

/-- Of all that was enqueued the first `count past` are delivered, under the tags from 1
    on, and the others wait. What is in flight is some of the delivered. -/
structure InOrder (past : List (Moment Engine Event)) (e : Engine) : Prop where
  count_le : count past ≤ (queue past).length
  pending_eq : e.pending = (queue past).drop (count past)
  pushed : ∃ pushes, List.Forall₂ Pushed (past.flatMap polled) pushes ∧
    pushes.flatten = (numbered 0 ((queue past).take (count past))).map frameOf
  numbers : Numbers (count past) e.session
  filed : ∀ x ∈ e.session.tracker.outstanding.entries, x ∈ numbered 0 ((queue past).take (count past))
  unrefused : ∀ m ∈ past, ∀ outbox, m.event = .poll outbox → (m.before.pass outbox).refusal = none

theorem inOrder_new (limit : Option Nat) (batch : Nat) : InOrder [] (new limit batch) where
  count_le := Nat.le_refl 0
  pending_eq := rfl
  pushed := ⟨[], .nil, rfl⟩
  numbers := ⟨rfl, rfl, fun _ => nofun, fun _ => nofun⟩
  filed _ hx := nomatch hx
  unrefused _ hm := nomatch hm

section
variable {past : List (Moment Engine Event)} {e : Engine}

theorem inOrder_frame (h : InOrder past e) (payload : Bytes) :
    InOrder (past ++ [⟨e, .frame payload⟩]) (e.next (.frame payload)) := by
  obtain ⟨hpending, hclosed, htag, hkept⟩ := next_frame e payload
  have hcount : count (past ++ [⟨e, .frame payload⟩]) = count past := count_snoc _ _
  have hqueue : queue (past ++ [⟨e, .frame payload⟩]) = queue past ++ enqueued ⟨e, .frame payload⟩ :=
    History.flatMap_snoc _ _ _ _
  have htake : (queue past ++ enqueued ⟨e, .frame payload⟩).take (count past) = (queue past).take (count past) :=
    List.take_append_of_le_length h.count_le
  constructor
  · rw [hcount, hqueue, List.length_append]
    exact Nat.le_add_right_of_le h.count_le
  · rw [hcount, hqueue, hpending, h.pending_eq, List.drop_append_of_le_length h.count_le]
  · obtain ⟨pushes, hpushes, hflat⟩ := h.pushed
    refine ⟨pushes, ?_, by rw [hcount, hqueue, htake]; exact hflat⟩
    simpa [polled] using hpushes
  · rw [hcount]
    exact ⟨hclosed.trans h.numbers.isOpen, htag.trans h.numbers.nextTag_eq, fun x hx => h.numbers.tag_pos x (hkept x hx),
      fun x hx => h.numbers.tag_le x (hkept x hx)⟩
  · rw [hcount, hqueue, htake]
    intro x hx
    exact h.filed x (hkept x hx)
  · intro m hm outbox hevent
    rcases List.mem_append.mp hm with hm | hm
    · exact h.unrefused m hm outbox hevent
    · rw [List.mem_singleton.mp hm] at hevent
      cases hevent

theorem inOrder_poll (h : InOrder past e) (outbox : Outbox)
    (hfew : count (past ++ [⟨e, .poll outbox⟩]) < 2 ^ 64 - 1) :
    InOrder (past ++ [⟨e, .poll outbox⟩]) (e.next (.poll outbox)) := by
  have hsent : sent ⟨e, .poll outbox⟩ = (e.pass outbox).sent := rfl
  rw [count_snoc, hsent] at hfew
  have hpass : Delivers (count past) e.pending e.session outbox (e.pass outbox) :=
    deliverPending_spec e.pending e.batch outbox h.numbers (Nat.lt_of_lt_of_le hfew (by decide))
  generalize hp : e.pass outbox = p at hpass hfew hsent
  have hcount : count (past ++ [⟨e, .poll outbox⟩]) = count past + p.sent := by rw [count_snoc, hsent]
  have hqueue : queue (past ++ [⟨e, .poll outbox⟩]) = queue past := by
    rw [queue, History.flatMap_snoc]; exact List.append_nil _
  have hsession : (e.next (.poll outbox)).session = p.session := by rw [← hp]; rfl
  have hpending : (e.next (.poll outbox)).pending = p.pending := by rw [← hp]; rfl
  have hbox : (e.poll outbox).2.2.1 = p.outbox := by rw [← hp]; rfl
  -- what the pass takes from the waiting messages continues what was delivered before
  have hnumbered : numbered 0 ((queue past).take (count past + p.sent)) =
      numbered 0 ((queue past).take (count past)) ++ numbered (count past) (e.pending.take p.sent) := by
    rw [List.take_add, numbered_append, List.length_take, Nat.min_eq_left h.count_le, Nat.zero_add, h.pending_eq]
  constructor
  · have hle := hpass.sent_le
    have hold := h.count_le
    rw [h.pending_eq, List.length_drop] at hle
    rw [hcount, hqueue]
    omega
  · rw [hcount, hqueue, hpending, hpass.pending_eq, h.pending_eq, List.drop_drop]
  · obtain ⟨pushes, hpushes, hflat⟩ := h.pushed
    refine ⟨pushes ++ [(numbered (count past) (e.pending.take p.sent)).map frameOf], ?_, ?_⟩
    · rw [History.flatMap_snoc]
      exact List.rel_append hpushes (.cons (hbox.trans hpass.outbox_eq) .nil)
    · rw [hcount, hqueue, hnumbered, List.flatten_append, hflat, List.map_append]
      simp
  · rw [hcount, hsession]
    exact hpass.numbers
  · rw [hcount, hqueue, hsession, hnumbered, hpass.entries_eq]
    intro x hx
    rcases List.mem_append.mp hx with hx | hx
    · exact List.mem_append_left _ (h.filed x hx)
    · exact List.mem_append_right _ hx
  · intro m hm box hevent
    rcases List.mem_append.mp hm with hm | hm
    · exact h.unrefused m hm box hevent
    · obtain rfl := List.mem_singleton.mp hm
      obtain rfl : outbox = box := by injection hevent
      rw [show (e.pass outbox) = p from hp]
      exact hpass.unrefused

end

theorem inOrder (limit : Option Nat) (batch : Nat) (events : List Event)
    (hfew : count (History.moments next (new limit batch) events) < 2 ^ 64 - 1) :
    InOrder (History.moments next (new limit batch) events) (History.final next (new limit batch) events) := by
  refine History.along (fun past e => count past < 2 ^ 64 - 1 → InOrder past e) ?_ ?_ events hfew
  · exact fun _ => inOrder_new limit batch
  · intro past e event ih hcount
    have hold : count past < 2 ^ 64 - 1 := by rw [count_snoc] at hcount; omega
    cases event with
    | frame payload => exact inOrder_frame (ih hold) payload
    | poll outbox => exact inOrder_poll (ih hold) outbox hcount

/-- A tag in flight counts what was enqueued up to its own message. -/
theorem InOrder.tag_names {past : List (Moment Engine Event)} {e : Engine} (h : InOrder past e)
    (hfew : count past < 2 ^ 64 - 1) {x : Entry Bytes} (hx : x ∈ e.session.tracker.outstanding.entries) :
    1 ≤ x.tag.toNat ∧ x.tag.toNat ≤ count past ∧ (queue past)[x.tag.toNat - 1]? = some x.message := by
  obtain ⟨i, hi, htag⟩ := mem_numbered (h.filed x hx)
  have hlt : i < count past := by
    have hshort := (List.getElem?_eq_some_iff.mp hi).1
    rw [List.length_take] at hshort
    omega
  have hnat : x.tag.toNat = i + 1 := by
    rw [htag, UInt64.toNat_ofNat', Nat.mod_eq_of_lt (by omega), Nat.zero_add]
  rw [List.getElem?_take_of_lt hlt] at hi
  rw [hnat]
  exact ⟨Nat.le_add_left 1 i, hlt, hi⟩

/-- An engine with any limit and batch size, after any frames and polls that make fewer
    than 2^64 - 1 deliveries. The bodies sent and then those that wait are all that was
    enqueued, in order; the i-th frame pushed, over all polls, delivers the i-th body
    under tag i; a tag in flight holds the body enqueued at its place; and no poll met
    a refusal. -/
theorem deliveries_in_order (limit : Option Nat) (batch : Nat) (events : List Event)
    (hfew : ((History.moments next (new limit batch) events).map sent).sum < 2 ^ 64 - 1) :
    let past := History.moments next (new limit batch) events
    let e := History.final next (new limit batch) events
    ∃ bodies, bodies ++ e.pending = past.flatMap enqueued ∧ bodies.length = (past.map sent).sum ∧
      (∃ pushes,
        List.Forall₂ (fun boxes frames => boxes.2 = frames.foldl Outbox.push boxes.1) (past.flatMap polled) pushes ∧
        pushes.flatten = bodies.mapIdx fun i body => delivery (UInt64.ofNat (i + 1)) body) ∧
      (∀ x ∈ e.session.tracker.outstanding.entries, 1 ≤ x.tag.toNat ∧ x.tag.toNat ≤ bodies.length ∧
        (past.flatMap enqueued)[x.tag.toNat - 1]? = some x.message) ∧
      ∀ m ∈ past, ∀ outbox, m.event = .poll outbox → (m.before.pass outbox).refusal = none := by
  intro past e
  have h : InOrder past e := inOrder limit batch events hfew
  have hcount : count past < 2 ^ 64 - 1 := hfew
  have hlen : ((queue past).take (count past)).length = count past := List.length_take_of_le h.count_le
  refine ⟨(queue past).take (count past), ?_, hlen, ?_, ?_, h.unrefused⟩
  · rw [h.pending_eq]
    exact List.take_append_drop _ _
  · obtain ⟨pushes, hpushes, hflat⟩ := h.pushed
    exact ⟨pushes, hpushes, hflat.trans (map_frameOf_numbered _)⟩
  · intro x hx
    rw [hlen]
    exact h.tag_names hcount hx

/-- Two may be in flight and a poll delivers one. The first message is rejected while the
    second is in flight, two frames are malformed, and a poll finds no credit. -/
def traffic : List Event :=
  [.frame (Command.publish [65]).encode, .frame (Command.publish [66]).encode, .poll {}, .frame [], .poll {},
    .frame (Command.reject 1).encode, .frame [9, 9], .frame (Command.publish [67]).encode, .poll {}, .poll {},
    .frame (Command.acknowledge 2 false).encode, .frame (Command.publish [68]).encode, .poll (Outbox.empty.push [7])]

theorem traffic_in_order :
    let past := History.moments next (new (some 2) 1) traffic
    let e := History.final next (new (some 2) 1) traffic
    (past.map sent).sum < 2 ^ 64 - 1 ∧ past.flatMap enqueued = [[65], [66], [65], [67], [68]] ∧ e.pending = [[68]] ∧
    (∃ pushes,
      List.Forall₂ (fun boxes frames => boxes.2 = frames.foldl Outbox.push boxes.1) (past.flatMap polled) pushes ∧
      pushes.flatten = [delivery 1 [65], delivery 2 [66], delivery 3 [65], delivery 4 [67]]) ∧
    e.session.tracker.outstanding.entries = [⟨3, [65]⟩, ⟨4, [67]⟩] := by
  intro past e
  have hfew : (past.map sent).sum < 2 ^ 64 - 1 := by decide
  have hall : past.flatMap enqueued = [[65], [66], [65], [67], [68]] := by decide
  have hwait : e.pending = [[68]] := by decide
  obtain ⟨bodies, hbodies, -, ⟨pushes, hpushes, hflat⟩, -⟩ := deliveries_in_order (some 2) 1 traffic hfew
  obtain rfl : bodies = [[65], [66], [65], [67]] := by
    rw [hall, hwait] at hbodies
    exact List.append_cancel_right (hbodies.trans rfl)
  exact ⟨hfew, hall, hwait, ⟨pushes, hpushes, hflat.trans (by decide)⟩, by decide⟩

end Engine

end MessageBroker.Loopback
