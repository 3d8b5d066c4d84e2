/-
  MessageBroker.Proofs.Loopback.Totals — what the shared counters say of all engines together.

  Engines serve one client each and share their counters. Their steps come in any order: a
  frame from a client, a poll, a close. A message is counted when it is published; from then
  on it waits, is in flight, was acknowledged, or was discarded by a close. A delivery is
  counted when it is made; from then on it is in flight, was acknowledged, or was counted as
  requeued by a REJECT or a close.
  - `Posts`: what one step of an engine does to its accounts; each kind of step does that
    (`posts_perform`, `posts_poll`, `posts_close`).
  - `Totals`: the accounts of all engines, kept by every step (`Totals.post`) as long as no
    tag runs out.
  - `counters_balanced`: so they agree after every run of fewer than 2^64 steps.
-/

import Mathlib.Algebra.Order.BigOperators.Group.Finset
import MessageBroker.Proofs.Loopback.Order

namespace MessageBroker.Loopback

open Wire Delivery

namespace Engine

/-! ## One engine -/

def inFlight (e : Engine) : Nat := e.session.tracker.size

def given (e : Engine) : Nat := e.session.nextTag.toNat - 1

/-- The messages that a close of the engine would discard: those in flight and those that wait. -/
def held (e : Engine) : List Bytes := e.session.tracker.outstanding.messages ++ e.pending

structure Sound (e : Engine) : Prop where
  next_pos : 0 < e.session.nextTag.toNat
  tag_pos : ∀ x ∈ e.session.tracker.outstanding.entries, 0 < x.tag.toNat
  tag_lt : ∀ x ∈ e.session.tracker.outstanding.entries, x.tag.toNat < e.session.nextTag.toNat
  closed_empty : e.session.closed = true → e.session.tracker.outstanding.entries = []

/-- A step from `e` to `e'` that adds `more` to the counters and discards `gone`: what it
    enters on one side of an account it enters on the other. -/
structure Posts (e e' : Engine) (more : Counters) (gone : List Bytes) : Prop where
  sound : Sound e'
  deliveries : more.delivered + e.inFlight = more.acknowledged + more.requeued + e'.inFlight
  given : e'.given = e.given + more.delivered
  messages : more.published + (e.pending.length + e.inFlight) =
    more.acknowledged + (e'.pending.length + e'.inFlight) + gone.length
  published_le : more.published ≤ 1
  /-- A step makes at most one more message wait. -/
  waiting_le : more.delivered + e'.pending.length ≤ e.pending.length + 1

theorem inFlight_new (limit : Option Nat) (batch : Nat) : (new limit batch).inFlight = 0 := rfl

theorem given_new (limit : Option Nat) (batch : Nat) : (new limit batch).given = 0 := rfl

theorem pending_new (limit : Option Nat) (batch : Nat) : (new limit batch).pending = [] := rfl

theorem sound_new (limit : Option Nat) (batch : Nat) : Sound (new limit batch) where
  next_pos := Nat.one_pos
  tag_pos := nofun
  tag_lt := nofun
  closed_empty := nofun

section
variable {e : Engine}

theorem Sound.sub (h : Sound e) {e' : Engine} (hclosed : e'.session.closed = e.session.closed)
    (htag : e'.session.nextTag = e.session.nextTag)
    (hsub : e'.session.tracker.outstanding.entries ⊆ e.session.tracker.outstanding.entries) : Sound e' where
  next_pos := by rw [htag]; exact h.next_pos
  tag_pos x hx := h.tag_pos x (hsub hx)
  tag_lt x hx := by rw [htag]; exact h.tag_lt x (hsub hx)
  closed_empty hc := by
    rw [hclosed] at hc
    have hnone := h.closed_empty hc
    rw [hnone] at hsub
    exact List.subset_nil.mp hsub

theorem Sound.numbers (h : Sound e) (hopen : e.session.closed = false) : Numbers e.given e.session where
  isOpen := hopen
  nextTag_eq := by
    have hpos := h.next_pos
    have hnext : e.given + 1 = e.session.nextTag.toNat := by
      unfold given
      omega
    rw [hnext, UInt64.ofNat_toNat]
  tag_pos := h.tag_pos
  tag_le x hx := by
    have hlt := h.tag_lt x hx
    unfold given
    omega

/-- A step that makes no delivery: it takes some out of flight, and makes those messages
    wait that it publishes or requeues. -/
theorem Sound.posts (h : Sound e) {e' : Engine} {more : Counters} (added : List Bytes)
    (hclosed : e'.session.closed = e.session.closed) (htag : e'.session.nextTag = e.session.nextTag)
    (hsub : e'.session.tracker.outstanding.entries ⊆ e.session.tracker.outstanding.entries)
    (hnone : more.delivered = 0) (hflight : e'.inFlight + more.acknowledged + more.requeued = e.inFlight)
    (hpending : e'.pending = e.pending ++ added) (hadded : added.length = more.published + more.requeued)
    (hone : added.length ≤ 1) : Posts e e' more [] := by
  have hlen : e'.pending.length = e.pending.length + added.length := by rw [hpending, List.length_append]
  refine ⟨h.sub hclosed htag hsub, ?_, ?_, ?_, ?_, ?_⟩
  · omega
  · unfold given
    rw [htag, hnone]
    rfl
  · rw [List.length_nil]
    omega
  · omega
  · omega

theorem perform_acknowledge_snd (e : Engine) (tag : Tag) (multiple : Bool) :
    (e.perform (.acknowledge tag multiple)).2 =
      { acknowledged := (e.session.tracker.selected tag multiple).length } := by
  have hfst : (e.session.acknowledge tag multiple).1 = (e.session.tracker.acknowledge tag multiple).1 := rfl
  simp only [perform, hfst, Tracker.acknowledge_fst]
  split <;> rfl

theorem perform_reject_snd (e : Engine) (tag : Tag) :
    (e.perform (.reject tag)).2 = { requeued := (e.session.tracker.get? tag).toList.length } := by
  have hfst : (e.session.reject tag).1 = e.session.tracker.get? tag := Tracker.remove_fst _ _
  rw [← hfst]
  simp only [perform]
  split <;> rename_i hr <;> simp [hr]

/-- A command publishes one message, or takes deliveries out of flight. -/
theorem posts_perform (h : Sound e) (command : Command) :
    Posts e (e.perform command).1 (e.perform command).2 [] := by
  cases command with
  | publish body => exact h.posts [body] rfl rfl (List.Subset.refl _) rfl rfl rfl rfl (Nat.le_refl 1)
  | acknowledge tag multiple =>
    have hperm := Tracker.acknowledge_perm e.session.tracker tag multiple
    have hlen := List.length_append.symm.trans hperm.length_eq
    rw [perform_acknowledge_snd]
    refine h.posts [] rfl rfl ?_ rfl ?_ (List.append_nil _).symm rfl (Nat.zero_le 1)
    · intro x hx
      exact hperm.subset (List.mem_append_left _ hx)
    · exact hlen
  | reject tag =>
    have hperm := Tracker.remove_perm e.session.tracker tag
    have hlen := List.length_append.symm.trans hperm.length_eq
    rw [perform_reject, perform_reject_snd]
    refine h.posts (e.session.tracker.get? tag).toList rfl rfl ?_ rfl ?_ rfl (Nat.zero_add _).symm ?_
    · intro x hx
      exact hperm.subset (List.mem_append_left _ hx)
    · rw [Tracker.remove_fst] at hlen
      cases hget : e.session.tracker.get? tag <;> rw [hget] at hlen <;> exact hlen
    · cases e.session.tracker.get? tag <;> simp

/-- A poll moves messages from those that wait to those in flight; none if the engine is
    closed. -/
theorem posts_poll (h : Sound e) (outbox : Outbox) (hfew : e.given + e.pending.length < 2 ^ 64 - 1) :
    Posts e (e.poll outbox).2.1 (e.poll outbox).2.2.2 [] := by
  by_cases hclosed : e.session.closed = true
  · have hspent : e.session.hasCredit = false := by simp [Session.hasCredit, hclosed]
    have hpass : e.pass outbox = ⟨e.session, e.pending, outbox, 0, none⟩ := deliverPending_of_spent hspent _ _ _
    have hpoll : (e.poll outbox).2.1 = e ∧ (e.poll outbox).2.2.2 = {} := by
      rw [poll, hpass]
      exact ⟨rfl, rfl⟩
    rw [hpoll.1, hpoll.2]
    refine ⟨h, ?_, rfl, ?_, Nat.zero_le _, ?_⟩
    · show 0 + e.inFlight = 0 + 0 + e.inFlight
      omega
    · show 0 + (e.pending.length + e.inFlight) = 0 + (e.pending.length + e.inFlight) + 0
      omega
    · show 0 + e.pending.length ≤ e.pending.length + 1
      omega
  · have hopen : e.session.closed = false := by simpa using hclosed
    have hspends : Spends e.pending e.batch e.session (e.pass outbox) := deliverPending_spends _ _ _ _
    have hsent := hspends.sent_le
    have hdelivers : Delivers e.given e.pending e.session outbox (e.pass outbox) := by
      apply deliverPending_spec _ _ _ (h.numbers hopen)
      show e.given + (e.pass outbox).sent < 2 ^ 64
      omega
    have hnumbers := hdelivers.numbers
    have hnext : (e.pass outbox).session.nextTag.toNat = e.given + (e.pass outbox).sent + 1 := by
      rw [hnumbers.nextTag_eq, UInt64.toNat_ofNat', Nat.mod_eq_of_lt (by omega)]
    have hsize : (e.pass outbox).session.tracker.size = e.inFlight + (e.pass outbox).sent := hspends.size_eq
    have hpending : (e.pass outbox).pending.length = e.pending.length - (e.pass outbox).sent := by
      rw [hdelivers.pending_eq, List.length_drop]
    refine ⟨⟨?_, hnumbers.tag_pos, ?_, ?_⟩, ?_, ?_, ?_, Nat.zero_le _, ?_⟩
    · show 0 < (e.pass outbox).session.nextTag.toNat
      omega
    · intro x hx
      have hle := hnumbers.tag_le x hx
      show x.tag.toNat < (e.pass outbox).session.nextTag.toNat
      omega
    · intro hc
      have hstill := hnumbers.isOpen.symm.trans hc
      cases hstill
    · show (e.pass outbox).sent + e.inFlight = 0 + 0 + (e.pass outbox).session.tracker.size
      omega
    · show (e.pass outbox).session.nextTag.toNat - 1 = e.given + (e.pass outbox).sent
      omega
    · show 0 + (e.pending.length + e.inFlight) =
        0 + ((e.pass outbox).pending.length + (e.pass outbox).session.tracker.size) + 0
      omega
    · show (e.pass outbox).sent + (e.pass outbox).pending.length ≤ e.pending.length + 1
      omega

theorem close_eq (h : Sound e) :
    (e.close).1.pending = [] ∧ (e.close).1.session.tracker.outstanding.entries = [] ∧
      (e.close).1.session.nextTag = e.session.nextTag ∧ (e.close).2 = { requeued := e.inFlight } := by
  rcases e.session.close_cases with ⟨hclosed, heq⟩ | ⟨-, heq⟩
  · have hnone := h.closed_empty hclosed
    have hflight : e.inFlight = 0 := by
      show e.session.tracker.outstanding.entries.length = 0
      rw [hnone]
      rfl
    simp only [close, heq, hflight]
    exact ⟨trivial, hnone, trivial, rfl⟩
  · simp only [close, heq]
    refine ⟨trivial, rfl, trivial, ?_⟩
    rw [TagMap.messages, List.length_map]
    rfl

theorem posts_close (h : Sound e) : Posts e (e.close).1 (e.close).2 e.held := by
  obtain ⟨hpending, hentries, htag, hmore⟩ := close_eq h
  have hflight : (e.close).1.inFlight = 0 := by
    show (e.close).1.session.tracker.outstanding.entries.length = 0
    rw [hentries]
    rfl
  have hheld : e.held.length = e.inFlight + e.pending.length := by
    simp [held, inFlight, Tracker.size, TagMap.size, TagMap.messages]
  have hsound : Sound (e.close).1 := by
    constructor
    · rw [htag]
      exact h.next_pos
    · rw [hentries]
      exact nofun
    · rw [hentries]
      exact nofun
    · exact fun _ => hentries
  refine ⟨hsound, ?_, ?_, ?_, ?_, ?_⟩ <;> rw [hmore]
  · rw [hflight]
    show 0 + e.inFlight = 0 + e.inFlight + 0
    omega
  · show (e.close).1.session.nextTag.toNat - 1 = e.session.nextTag.toNat - 1 + 0
    rw [htag]
    rfl
  · rw [hflight, hpending, hheld]
    show 0 + (e.pending.length + e.inFlight) = 0 + (0 + 0) + (e.inFlight + e.pending.length)
    omega
  · exact Nat.zero_le _
  · rw [hpending]
    exact Nat.zero_le _

end

end Engine

/-! ## Engines that share their counters -/

structure Broker (size : Nat) where
  engines : Fin size → Engine
  counters : Counters := {}

namespace Broker

variable {size : Nat}

def start (limit : Fin size → Option Nat) (batch : Fin size → Nat) : Broker size :=
  { engines := fun i => .new (limit i) (batch i) }

inductive Event (size : Nat) where
  | frame (i : Fin size) (payload : Bytes)
  /-- The connection polls the engine with its outbox as it is then. -/
  | poll (i : Fin size) (outbox : Outbox)
  | close (i : Fin size)

def post (b : Broker size) (i : Fin size) (e : Engine) (more : Counters) : Broker size :=
  ⟨Function.update b.engines i e, b.counters + more⟩

/-- The broker after an event. A frame that is refused changes nothing. -/
def next (b : Broker size) : Event size → Broker size
  | .frame i payload =>
    match (b.engines i).handle payload with
    | .ok (e, more) => b.post i e more
    | .error _ => b
  | .poll i outbox => b.post i ((b.engines i).poll outbox).2.1 ((b.engines i).poll outbox).2.2.2
  | .close i => b.post i (b.engines i).close.1 (b.engines i).close.2

/-- The messages that a moment discards: a close, all that its engine has in flight or waiting. -/
def discarded (m : Moment (Broker size) (Event size)) : List Bytes :=
  match m.event with
  | .close i => (m.before.engines i).held
  | _ => []

theorem sum_update (engines : Fin size → Engine) (i : Fin size) (e : Engine) (f : Engine → Nat) :
    ∑ j, f (Function.update engines i e j) + f (engines i) = ∑ j, f (engines j) + f e := by
  have hnew := Finset.sum_erase_add Finset.univ (fun j => f (Function.update engines i e j)) (Finset.mem_univ i)
  have hold := Finset.sum_erase_add Finset.univ (fun j => f (engines j)) (Finset.mem_univ i)
  have hrest : ∑ j ∈ Finset.univ.erase i, f (Function.update engines i e j) =
      ∑ j ∈ Finset.univ.erase i, f (engines j) := by
    apply Finset.sum_congr rfl
    intro j hj
    rw [Function.update_of_ne (Finset.ne_of_mem_erase hj)]
  simp only [Function.update_self] at hnew
  omega

structure Totals (past : List (Moment (Broker size) (Event size))) (b : Broker size) : Prop where
  sound : ∀ i, (b.engines i).Sound
  deliveries : b.counters.delivered =
    b.counters.acknowledged + b.counters.requeued + ∑ i, (b.engines i).inFlight
  given : b.counters.delivered = ∑ i, (b.engines i).given
  messages : b.counters.published = b.counters.acknowledged +
    ∑ i, ((b.engines i).pending.length + (b.engines i).inFlight) + (past.flatMap discarded).length
  /-- Each step publishes at most one message and makes at most one more wait. -/
  published_le : b.counters.published ≤ past.length
  waiting_le : b.counters.delivered + ∑ i, (b.engines i).pending.length ≤ past.length
  closed : ∀ m ∈ past, ∀ i, m.event = .close i → (m.before.engines i).Sound

theorem totals_start (limit : Fin size → Option Nat) (batch : Fin size → Nat) : Totals [] (start limit batch) where
  sound _ := Engine.sound_new _ _
  deliveries := by simp [start, Engine.inFlight_new]
  given := by simp [start, Engine.given_new]
  messages := by simp [start, Engine.inFlight_new, Engine.pending_new]
  published_le := Nat.le_refl _
  waiting_le := by simp [start, Engine.new]
  closed := nofun

section
variable {past : List (Moment (Broker size) (Event size))} {b : Broker size}

theorem Totals.room (h : Totals past b) (hfew : past.length < 2 ^ 64 - 1) (i : Fin size) :
    (b.engines i).given + (b.engines i).pending.length < 2 ^ 64 - 1 := by
  have hgiven : (b.engines i).given ≤ ∑ j, (b.engines j).given :=
    Finset.single_le_sum_of_canonicallyOrdered (f := fun j => (b.engines j).given) (Finset.mem_univ i)
  have hpending : (b.engines i).pending.length ≤ ∑ j, (b.engines j).pending.length :=
    Finset.single_le_sum_of_canonicallyOrdered (f := fun j => (b.engines j).pending.length) (Finset.mem_univ i)
  have hall := h.given
  have hbound := h.waiting_le
  omega

/-- A step of one engine that posts keeps the accounts of all. -/
theorem Totals.post (h : Totals past b) {event : Event size} {i : Fin size} {e : Engine} {more : Counters}
    (hposts : (b.engines i).Posts e more (discarded ⟨b, event⟩)) :
    Totals (past ++ [⟨b, event⟩]) (b.post i e more) := by
  have hflight := sum_update b.engines i e Engine.inFlight
  have hgiven := sum_update b.engines i e Engine.given
  have hpending := sum_update b.engines i e fun e => e.pending.length
  have hheld := sum_update b.engines i e fun e => e.pending.length + e.inFlight
  have hdeliveries := h.deliveries
  have hmessages := h.messages
  have hsum := h.given
  constructor
  · intro j
    by_cases hj : j = i
    · subst hj
      show (Function.update b.engines j e j).Sound
      rw [Function.update_self]
      exact hposts.sound
    · show (Function.update b.engines i e j).Sound
      rw [Function.update_of_ne hj]
      exact h.sound j
  · have hstep := hposts.deliveries
    simp only [Broker.post, Counters.delivered_add, Counters.acknowledged_add, Counters.requeued_add]
    omega
  · have hstep := hposts.given
    simp only [Broker.post, Counters.delivered_add]
    omega
  · have hstep := hposts.messages
    simp only [Broker.post, Counters.published_add, Counters.acknowledged_add, History.flatMap_snoc,
      List.length_append]
    omega
  · have hone := hposts.published_le
    have hbound := h.published_le
    simp only [Broker.post, Counters.published_add, List.length_append, List.length_singleton]
    omega
  · have hone := hposts.waiting_le
    have hbound := h.waiting_le
    simp only [Broker.post, Counters.delivered_add, List.length_append, List.length_singleton]
    omega
  · intro m hm j hclose
    rcases List.mem_append.mp hm with hm | hm
    · exact h.closed m hm j hclose
    · rw [List.mem_singleton.mp hm]
      exact h.sound j

/-- A frame that is refused changes no account. -/
theorem Totals.refused (h : Totals past b) (i : Fin size) (payload : Bytes) :
    Totals (past ++ [⟨b, .frame i payload⟩]) b := by
  have hpublished := h.published_le
  have hwaiting := h.waiting_le
  refine ⟨h.sound, h.deliveries, h.given, ?_, ?_, ?_, ?_⟩
  · rw [History.flatMap_snoc]
    simpa [discarded] using h.messages
  · rw [List.length_append]
    omega
  · rw [List.length_append]
    omega
  · intro m hm j hclose
    rcases List.mem_append.mp hm with hm | hm
    · exact h.closed m hm j hclose
    · rw [List.mem_singleton.mp hm] at hclose
      cases hclose

theorem Totals.next (h : Totals past b) (hfew : past.length < 2 ^ 64 - 1) (event : Event size) :
    Totals (past ++ [⟨b, event⟩]) (b.next event) := by
  cases event with
  | frame i payload =>
    cases hparse : Command.parse payload with
    | error m =>
      have hnext : b.next (.frame i payload) = b := by
        simp only [Broker.next, Engine.handle, hparse, Except.map]
      rw [hnext]
      exact h.refused i payload
    | ok command =>
      have hnext : b.next (.frame i payload) =
          b.post i ((b.engines i).perform command).1 ((b.engines i).perform command).2 := by
        simp only [Broker.next, Engine.handle, hparse, Except.map]
      rw [hnext]
      exact h.post (Engine.posts_perform (h.sound i) command)
  | poll i outbox => exact h.post (Engine.posts_poll (h.sound i) outbox (h.room hfew i))
  | close i => exact h.post (Engine.posts_close (h.sound i))

end

/-! ## Every run -/

theorem totals (limit : Fin size → Option Nat) (batch : Fin size → Nat) (events : List (Event size))
    (hfew : events.length < 2 ^ 64) :
    Totals (History.moments next (start limit batch) events) (History.final next (start limit batch) events) := by
  apply History.along (fun past b => past.length < 2 ^ 64 → Totals past b)
  · intro _
    exact totals_start limit batch
  · intro past b event ih hlen
    rw [List.length_append, List.length_singleton] at hlen
    exact (ih (by omega)).next (by omega) event
  · rw [History.length_moments]
    exact hfew

/-- Any number of engines with any limits and batches, after fewer than 2^64 frames, polls and
    closes in any order, also frames and polls of a closed engine and closes of it again. The
    deliveries counted are those acknowledged, those requeued and those in flight, and as many
    as the tags given; the messages published are those acknowledged, those that wait or are
    in flight, and those discarded. A close leaves its engine with no message and counts those
    that were in flight as requeued, and nothing else changes. No counter needs more than 64
    bits. -/
theorem counters_balanced (limit : Fin size → Option Nat) (batch : Fin size → Nat) (events : List (Event size))
    (hfew : events.length < 2 ^ 64) :
    let past := History.moments next (start limit batch) events
    let b := History.final next (start limit batch) events
    b.counters.delivered = b.counters.acknowledged + b.counters.requeued + ∑ i, (b.engines i).inFlight ∧
    b.counters.delivered = ∑ i, ((b.engines i).session.nextTag.toNat - 1) ∧
    b.counters.published = b.counters.acknowledged +
      ∑ i, ((b.engines i).pending.length + (b.engines i).inFlight) + (past.flatMap discarded).length ∧
    (∀ m ∈ past, ∀ i, m.event = .close i →
      ((m.before.next m.event).engines i).held = [] ∧
      (m.before.next m.event).counters = m.before.counters + { requeued := (m.before.engines i).inFlight } ∧
      ∀ j, j ≠ i → (m.before.next m.event).engines j = m.before.engines j) ∧
    b.counters.published < 2 ^ 64 ∧ b.counters.delivered < 2 ^ 64 ∧ b.counters.acknowledged < 2 ^ 64 ∧
    b.counters.requeued < 2 ^ 64 := by
  intro past b
  have h : Totals past b := totals limit batch events hfew
  have hlen : past.length = events.length := History.length_moments _ events
  have hdeliveries := h.deliveries
  have hpublished := h.published_le
  have hwaiting := h.waiting_le
  refine ⟨hdeliveries, h.given, h.messages, ?_, by omega, by omega, by omega, by omega⟩
  intro m hm i hclose
  obtain ⟨hpending, hentries, -, hmore⟩ := Engine.close_eq (h.closed m hm i hclose)
  rw [hclose]
  refine ⟨?_, ?_, ?_⟩
  · show (Function.update m.before.engines i (m.before.engines i).close.1 i).held = []
    rw [Function.update_self, Engine.held, TagMap.messages, hentries, hpending]
    rfl
  · show m.before.counters + (m.before.engines i).close.2 = _
    rw [hmore]
  · intro j hj
    exact Function.update_of_ne hj _ _

/-- Two engines, the first with room for one delivery. Its client rejects that twice, which
    counts once, and acknowledges the next by a higher tag; the engine is closed while a
    message waits, takes one more frame, and is closed again. The second engine has two
    deliveries in flight when it is closed. -/
theorem two_engines_balanced :
    let limit : Fin 2 → Option Nat := fun i => if i = 0 then some 1 else none
    let publish (body : UInt8) : Bytes := (Command.publish [body]).encode
    let events : List (Event 2) :=
      [.frame 0 (publish 65), .frame 0 (publish 66), .poll 0 {}, .frame 1 (publish 67), .frame 1 (publish 68),
        .poll 1 {}, .frame 0 (Command.reject 1).encode, .frame 0 (Command.reject 1).encode, .poll 0 {}, .frame 0 [9],
        .frame 0 (Command.acknowledge 7 true).encode, .close 0, .frame 0 (publish 69), .poll 0 {}, .close 0, .close 1]
    let past := History.moments next (start limit fun _ => 8) events
    let b := History.final next (start limit fun _ => 8) events
    events.length < 2 ^ 64 ∧
    b.counters = { published := 5, delivered := 4, acknowledged := 1, requeued := 3 } ∧
    past.flatMap discarded = [[65], [69], [67], [68]] ∧
    b.counters.published = b.counters.acknowledged +
      ∑ i, ((b.engines i).pending.length + (b.engines i).inFlight) + (past.flatMap discarded).length := by
  intro limit publish events past b
  have hfew : events.length < 2 ^ 64 := by decide
  exact ⟨hfew, by decide, by decide, (counters_balanced limit (fun _ => 8) events hfew).2.2.1⟩

end Broker

end MessageBroker.Loopback
