/-
  MessageBroker.Proofs.Delivery.Consumer — a session, its open transactions and its tracker's others.

  A consumer delivers, acknowledges, rejects and closes, and may have any number of
  transactions open, each under a name of its own. Others may reach the same tracker
  (`shared`). A request about a name that is not open does nothing. Nothing here keeps a
  consumer from delivering or closing while a transaction is open, so runs include every
  order in which the owner of a session can make these requests.
  - `delivered` and `handedOut`: what a moment's answer gives a tag to, and what it
    takes back. A rejection answers a message alone, and so does a close: the request
    names the tag of the one, the tags outstanding are those of the other.
  - `lost`: what an acknowledgement has cut off when it raises instead of answering.
  - `own_balance`: one request of the consumer's own moves entries between these and
    changes none.
-/

import Mathlib.Logic.Function.Basic
import MessageBroker.Proofs.Delivery.Accounting

namespace MessageBroker.Delivery

/-- A session and the transactions open on it, by name. -/
structure Consumer (M : Type) where
  session : Session M
  opened : Nat → Option (Transaction M) := fun _ => none

namespace Consumer

variable {M : Type}

inductive Request (M : Type) where
  | deliver (message : M)
  | acknowledge (tag : Tag) (multiple : Bool)
  | reject (tag : Tag)
  | close
  | start (x : Nat)
  | stage (x : Nat) (tag : Tag) (multiple : Bool)
  | commit (x : Nat)
  /-- The transaction is rolled back, or dropped without a commit. -/
  | discard (x : Nat)
  /-- Somebody else's request to the shared tracker. -/
  | shared (r : Tracker.Request M)

inductive Answer (M : Type) where
  | delivered (tag : Tag)
  | refused (e : Error)
  | entries (entries : List (Entry M))
  | message (message : Option M)
  | messages (messages : List M)
  | shared (a : Tracker.Answer M)
  | done
  | faulted (fault : Fault)

def Answer.ofOutcome : Outcome (List (Entry M)) → Answer M
  | .returned removed => .entries removed
  | .raised fault => .faulted fault

def Request.isShared : Request M → Bool
  | .shared _ => true
  | _ => false

def withLimit (limit : Option Nat) : Consumer M := { session := .withLimit limit }

abbrev outstanding (c : Consumer M) : List (Entry M) := c.session.tracker.outstanding.entries

variable [Message M]

def step (c : Consumer M) : Request M → Answer M × Consumer M
  | .deliver message =>
    match c.session.deliver message with
    | .ok (tag, session) => (.delivered tag, { c with session })
    | .error e => (.refused e, c)
  | .acknowledge tag multiple =>
    (.ofOutcome (c.session.acknowledge tag multiple).1, { c with session := (c.session.acknowledge tag multiple).2 })
  | .reject tag => (.message (c.session.reject tag).1, { c with session := (c.session.reject tag).2 })
  | .close => (.messages c.session.close.1, { c with session := c.session.close.2 })
  | .start x =>
    match c.opened x with
    | none => (.done, { c with opened := Function.update c.opened x (some .empty) })
    | some _ => (.done, c)
  | .stage x tag multiple =>
    match c.opened x with
    | none => (.done, c)
    | some t => (.done, { c with opened := Function.update c.opened x (some (t.stage c.session tag multiple)) })
  | .commit x =>
    match c.opened x with
    | none => (.done, c)
    | some t => (.entries (t.commit c.session).1, ⟨(t.commit c.session).2, Function.update c.opened x none⟩)
  | .discard x => (.done, { c with opened := Function.update c.opened x none })
  | .shared r =>
    (.shared (c.session.tracker.step r).1, { c with session := { c.session with tracker := c.session.tracker.next r } })

def next (c : Consumer M) (r : Request M) : Consumer M := (c.step r).2

def delivered (m : Moment (Consumer M) (Request M)) : List (Entry M) :=
  match m.event, (m.before.step m.event).1 with
  | .deliver message, .delivered tag => [⟨tag, message⟩]
  | _, _ => []

def handedOut (m : Moment (Consumer M) (Request M)) : List (Entry M) :=
  match m.event, (m.before.step m.event).1 with
  | .reject tag, .message message => (message.map (Entry.mk tag)).toList
  | .close, .messages messages => List.zipWith Entry.mk m.before.session.tracker.tags messages
  | _, .entries entries => entries
  | _, _ => []

/-- The entries that a moment has cut off when it raises. -/
def lost (m : Moment (Consumer M) (Request M)) : List (Entry M) :=
  match m.event with
  | .acknowledge tag multiple => Tracker.lost ⟨m.before.session.tracker, .acknowledge tag multiple⟩
  | _ => []

/-! ## One request -/

theorem handedOut_acknowledge (c : Consumer M) (tag : Tag) (multiple : Bool) :
    handedOut ⟨c, .acknowledge tag multiple⟩ = Tracker.returned ⟨c.session.tracker, .acknowledge tag multiple⟩ := by
  simp only [handedOut, Tracker.returned, step, Tracker.step, Session.acknowledge]
  cases (c.session.tracker.acknowledge tag multiple).1 with
  | returned removed => rfl
  | raised fault => rfl

/-- Lost are the entries of one cumulative acknowledgement, too large for a word together. -/
theorem lost_cases (m : Moment (Consumer M) (Request M)) (h : lost m ≠ []) :
    ∃ tag, m.event = .acknowledge tag true ∧ lost m = m.before.session.tracker.selected tag true ∧
      UInt64.size ≤ weight (lost m) := by
  obtain ⟨c, r⟩ := m
  cases r with
  | acknowledge tag multiple =>
    obtain ⟨_, hevent, hlost⟩ := Tracker.lost_cases ⟨c.session.tracker, .acknowledge tag multiple⟩ h
    cases hevent
    exact ⟨tag, rfl, hlost⟩
  | _ => exact absurd rfl h

theorem step_deliver_of_error {c : Consumer M} {message : M} {e : Error} (h : c.session.deliver message = .error e) :
    c.step (.deliver message) = (.refused e, c) := by
  simp only [step, h]

theorem step_deliver_of_ok {c : Consumer M} {message : M} {tag : Tag} {s : Session M}
    (h : c.session.deliver message = .ok (tag, s)) :
    c.step (.deliver message) = (.delivered tag, { c with session := s }) := by
  simp only [step, h]

theorem step_deliver_of_closed {c : Consumer M} (h : c.session.closed = true) (message : M) :
    c.step (.deliver message) = (.refused .sessionClosed, c) := by
  rcases c.session.deliver_cases message with ⟨-, he⟩ | ⟨hopen, -⟩ | ⟨hopen, -⟩ | ⟨hopen, -⟩
  · exact step_deliver_of_error he
  all_goals exact absurd (hopen.symm.trans h) (by simp)

theorem closed_next_close (c : Consumer M) : (c.next .close).session.closed = true := by
  rcases c.session.close_cases with ⟨hc, hs⟩ | ⟨-, hs⟩
  · simpa [next, step, hs] using hc
  · simp [next, step, hs]

theorem delivered_cases (c : Consumer M) (r : Request M) :
    delivered ⟨c, r⟩ = [] ∨
    ∃ message, r = .deliver message ∧ c.session.closed = false ∧ c.session.hasCredit = true ∧
      c.session.nextTag ∉ c.session.tracker.tags ∧ delivered ⟨c, r⟩ = [⟨c.session.nextTag, message⟩] ∧
      c.next r = { c with session := c.session.track message } := by
  cases r with
  | deliver message =>
    rcases c.session.deliver_cases message with ⟨-, h⟩ | ⟨-, -, h⟩ | ⟨-, -, -, h⟩ | ⟨hopen, hcredit, hfree, h⟩
    · exact .inl (by simp only [delivered, step_deliver_of_error h])
    · exact .inl (by simp only [delivered, step_deliver_of_error h])
    · exact .inl (by simp only [delivered, step_deliver_of_error h])
    · refine .inr ⟨message, rfl, hopen, hcredit, hfree, ?_, ?_⟩
      · simp only [delivered, step_deliver_of_ok h]
      · simp only [next, step_deliver_of_ok h]
  | _ => exact .inl rfl

/-- One request of the consumer's own moves entries between those in flight, those
    delivered, those handed out and those lost, and changes none. -/
theorem own_balance (c : Consumer M) {r : Request M} (hr : r.isShared = false) :
    ((c.next r).outstanding ++ handedOut ⟨c, r⟩ ++ lost ⟨c, r⟩).Perm (c.outstanding ++ delivered ⟨c, r⟩) := by
  cases r with
  | deliver message =>
    simp only [lost, List.append_nil]
    rcases c.session.deliver_cases message with ⟨-, h⟩ | ⟨-, -, h⟩ | ⟨-, -, -, h⟩ | ⟨-, -, hfree, h⟩
    · simp [next, handedOut, delivered, step_deliver_of_error h]
    · simp [next, handedOut, delivered, step_deliver_of_error h]
    · simp [next, handedOut, delivered, step_deliver_of_error h]
    · simp only [next, handedOut, delivered, step_deliver_of_ok h, List.append_nil]
      exact Tracker.insert_perm hfree message
  | acknowledge tag multiple =>
    have hmoved := Tracker.balance c.session.tracker (.acknowledge tag multiple)
    simp only [Tracker.dropped, Tracker.accepted, List.nil_append] at hmoved
    rw [handedOut_acknowledge]
    exact hmoved
  | reject tag =>
    simp only [lost, delivered, List.append_nil]
    exact Tracker.remove_perm _ tag
  | close =>
    simp only [lost, delivered, List.append_nil]
    rcases c.session.close_cases with ⟨-, h⟩ | ⟨-, h⟩
    · simp [next, handedOut, step, h]
    · have hzip := Tracker.zipWith_tags_messages c.session.tracker.outstanding
      simp only [next, handedOut, step, h, Tracker.tags, hzip]
      exact .refl _
  | start x =>
    simp only [next, handedOut, delivered, lost, step]
    split <;> simp
  | stage x tag multiple =>
    simp only [next, handedOut, delivered, lost, step]
    split <;> simp
  | commit x =>
    simp only [lost, delivered, List.append_nil]
    cases ho : c.opened x with
    | none => simp [next, handedOut, step, ho]
    | some t =>
      simp only [next, handedOut, step, ho]
      exact Tracker.removeAll_perm _ t.staged.tags
  | discard x => simp [next, handedOut, delivered, lost, step]
  | shared r => cases hr

/-- What a request that delivers nothing leaves of the session's own fields: the limit and
    the next tag, and it opens nothing that was closed. A session closed by it is empty. -/
theorem next_session {c : Consumer M} {r : Request M} (hr : r.isShared = false) (hd : delivered ⟨c, r⟩ = []) :
    (c.next r).session.limit = c.session.limit ∧ (c.next r).session.nextTag = c.session.nextTag ∧
      (c.session.closed = true → (c.next r).session.closed = true) ∧
      ((c.next r).session.closed = true → c.session.closed = true ∨ (c.next r).outstanding = []) := by
  cases r with
  | deliver message =>
    cases h : c.session.deliver message with
    | error e => simp only [next, step_deliver_of_error h]; exact ⟨trivial, trivial, id, .inl⟩
    | ok answer => simp [delivered, step_deliver_of_ok h] at hd
  | acknowledge tag multiple => exact ⟨rfl, rfl, id, .inl⟩
  | reject tag => exact ⟨rfl, rfl, id, .inl⟩
  | close =>
    rcases c.session.close_cases with ⟨hc, h⟩ | ⟨-, h⟩
    · simp [next, step, h, hc]
    · simp only [next, step, h]
      exact ⟨trivial, trivial, fun _ => trivial, fun _ => .inr rfl⟩
  | start x => simp only [next, step]; split <;> exact ⟨rfl, rfl, id, .inl⟩
  | stage x tag multiple => simp only [next, step]; split <;> exact ⟨rfl, rfl, id, .inl⟩
  | commit x => simp only [next, step]; split <;> exact ⟨rfl, rfl, id, .inl⟩
  | discard x => exact ⟨rfl, rfl, id, .inl⟩
  | shared r => cases hr

end Consumer

end MessageBroker.Delivery
