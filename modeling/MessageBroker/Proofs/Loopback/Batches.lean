/-
  MessageBroker.Proofs.Loopback.Batches — the batch size shows in the number of polls only.

  What an engine can deliver at once is what waits, as far as the credit goes (`deliverable`). A
  poll delivers that up to its batch, leaves the rest to be delivered, and answers whether there
  is a rest (`poll_spec`). So polling until the answer is no ends (`exists_drains`), and no poll
  after the first is made for nothing.
  - `wholePass_resumed`: a pass that a batch cut short and the pass over what it left are together
    the pass that no batch cuts short.
  - `Drains.whole`: hence so are all polls until the answer is no, whatever the batch size.
  - `batches_agree`: what this says of the engines that frames and polls lead to.
-/

import MessageBroker.Proofs.Loopback.Order

namespace MessageBroker.Loopback

open Wire Delivery

namespace Engine

/-! ## What can be delivered at once -/

def deliverable (e : Engine) : Nat :=
  match e.session.limit with
  | none => e.pending.length
  | some most => min e.pending.length (most - e.session.tracker.size)

theorem deliverable_le (e : Engine) : e.deliverable ≤ e.pending.length := by
  unfold deliverable
  split
  · exact Nat.le_refl _
  · exact Nat.min_le_left _ _

theorem ready_iff {e : Engine} (hopen : e.session.closed = false) : e.ready = true ↔ 0 < e.deliverable := by
  have hwaits : (!e.pending.isEmpty) = true ↔ 0 < e.pending.length := by
    cases e.pending <;> simp
  unfold ready deliverable Session.hasCredit
  rw [Bool.and_eq_true, hwaits, hopen]
  cases e.session.limit with
  | none => simp
  | some most =>
    simp only [Bool.not_false, Bool.true_and, Option.all_some, decide_eq_true_eq]
    omega

theorem deliverPending_sent_le (pending : List Bytes) (left : Nat) (session : Session Bytes) (outbox : Outbox) :
    (deliverPending pending left session outbox).sent ≤ left := by
  induction pending generalizing left session outbox with
  | nil => exact Nat.zero_le left
  | cons message rest ih =>
    by_cases hstop : left = 0 ∨ session.hasCredit = false
    · simp only [deliverPending, if_pos hstop]
      exact Nat.zero_le left
    · simp only [deliverPending, if_neg hstop]
      split
      · exact Nat.zero_le left
      · rename_i tag session' _
        have hrest := ih (left - 1) session' (outbox.push (delivery tag message))
        have hsome : left ≠ 0 := fun hzero => hstop (.inl hzero)
        show (deliverPending rest (left - 1) session' (outbox.push (delivery tag message))).sent + 1 ≤ left
        omega

theorem pass_sent_le (e : Engine) (outbox : Outbox) : (e.pass outbox).sent ≤ e.deliverable := by
  have hspends : Spends e.pending e.batch e.session (e.pass outbox) :=
    deliverPending_spends e.pending e.batch e.session outbox
  have hwaiting := hspends.sent_le
  unfold deliverable
  cases hlimit : e.session.limit with
  | none => exact hwaiting
  | some most =>
    by_cases hfull : most ≤ e.session.tracker.size
    · have hspent : e.session.hasCredit = false := by
        unfold Session.hasCredit
        rw [hlimit, Option.all_some, decide_eq_false (by omega), Bool.and_false]
      have hnothing : (e.pass outbox).sent = 0 := by
        unfold pass
        rw [deliverPending_of_spent hspent]
      omega
    · have hwithin : Within e.session := by
        intro most' hmost'
        rw [hlimit] at hmost'
        injection hmost' with hsame
        omega
      have hroom := hspends.within hwithin most (hspends.limit_eq.trans hlimit)
      have hsize := hspends.size_eq
      show _ ≤ min e.pending.length (most - e.session.tracker.size)
      omega

/-- A pass that is refused nothing leaves the rest of what is deliverable. -/
theorem deliverable_poll {e : Engine} {outbox : Outbox} {n : Nat}
    (h : Delivers n e.pending e.session outbox (e.pass outbox)) :
    (e.poll outbox).2.1.deliverable = e.deliverable - (e.pass outbox).sent := by
  have hspends : Spends e.pending e.batch e.session (e.pass outbox) :=
    deliverPending_spends e.pending e.batch e.session outbox
  have hafter : (e.poll outbox).2.1 =
      { e with session := (e.pass outbox).session, pending := (e.pass outbox).pending } := rfl
  have hwaiting : (e.pass outbox).pending.length = e.pending.length - (e.pass outbox).sent := by
    rw [h.pending_eq, List.length_drop]
  have hsize := hspends.size_eq
  unfold deliverable
  rw [hafter]
  simp only [hspends.limit_eq]
  cases e.session.limit with
  | none => exact hwaiting
  | some most =>
    show min _ _ = min _ _ - _
    omega

/-- One poll after n deliveries. It delivers its batch, or all that is deliverable if that is
    less; the rest stays deliverable, and the answer is whether there is a rest. -/
theorem poll_spec {e : Engine} {n : Nat} (h : Numbers n e.session) (hfew : n + e.deliverable < 2 ^ 64)
    (outbox : Outbox) :
    Numbers (n + (e.pass outbox).sent) (e.poll outbox).2.1.session ∧
    (e.pass outbox).sent = min e.batch e.deliverable ∧
    (e.poll outbox).2.1.deliverable = e.deliverable - (e.pass outbox).sent ∧
    ((e.poll outbox).1 = true ↔ 0 < (e.poll outbox).2.1.deliverable) := by
  have hmost := e.pass_sent_le outbox
  have hpass : Delivers n e.pending e.session outbox (e.pass outbox) :=
    deliverPending_spec e.pending e.batch outbox h (Nat.lt_of_le_of_lt (Nat.add_le_add_left hmost n) hfew)
  have hrest := deliverable_poll hpass
  have hready : (e.poll outbox).2.1.ready = true ↔ 0 < (e.poll outbox).2.1.deliverable :=
    ready_iff hpass.numbers.isOpen
  refine ⟨hpass.numbers, ?_, hrest, hready⟩
  have hbatch : (e.pass outbox).sent ≤ e.batch := deliverPending_sent_le e.pending e.batch e.session outbox
  by_cases hmore : (e.poll outbox).2.1.ready = true
  · have hwhole := batch_le_of_ready hpass.unrefused hmore
    omega
  · have hnone : (e.poll outbox).2.1.deliverable = 0 := by
      by_contra hne
      exact hmore (hready.mpr (Nat.pos_of_ne_zero hne))
    omega

/-! ## One pass after the other -/

/-- The pass that no batch cuts short. -/
def wholePass (pending : List Bytes) (session : Session Bytes) (outbox : Outbox) : Pass :=
  deliverPending pending pending.length session outbox

/-- A pass may be cut short anywhere and another one go on from there, even if it was a refusal
    that ended it: the other one is refused the same. -/
theorem wholePass_resumed (pending : List Bytes) (left : Nat) (session : Session Bytes) (outbox : Outbox) :
    let first := deliverPending pending left session outbox
    let second := wholePass first.pending first.session first.outbox
    wholePass pending session outbox = { second with sent := first.sent + second.sent } := by
  induction pending generalizing left session outbox with
  | nil => rfl
  | cons message rest ih =>
    intro first second
    by_cases hstop : left = 0 ∨ session.hasCredit = false
    · have hfirst : first = ⟨session, message :: rest, outbox, 0, none⟩ := if_pos hstop
      simp only [second, hfirst, Nat.zero_add]
    · have hgoes : ¬((message :: rest).length = 0 ∨ session.hasCredit = false) := by
        rintro (hlen | hspent)
        · cases hlen
        · exact hstop (.inr hspent)
      cases hdeliver : session.deliver message with
      | error refused =>
        have hfirst : first = ⟨session, message :: rest, outbox, 0, some refused⟩ := by
          simp only [first, deliverPending, if_neg hstop, hdeliver]
        simp only [second, hfirst, Nat.zero_add]
      | ok accepted =>
        obtain ⟨tag, session'⟩ := accepted
        have hrest := ih (left - 1) session' (outbox.push (delivery tag message))
        have hwhole : wholePass (message :: rest) session outbox =
            { wholePass rest session' (outbox.push (delivery tag message)) with
              sent := (wholePass rest session' (outbox.push (delivery tag message))).sent + 1 } := by
          simp only [wholePass, deliverPending, if_neg hgoes, hdeliver]
          rfl
        have hfirst : first =
            { deliverPending rest (left - 1) session' (outbox.push (delivery tag message)) with
              sent := (deliverPending rest (left - 1) session' (outbox.push (delivery tag message))).sent + 1 } := by
          simp only [first, deliverPending, if_neg hstop, hdeliver]
        rw [hwhole, hrest]
        simp only [second, hfirst, Nat.add_right_comm]

theorem wholePass_of_not_ready {e : Engine} (hready : e.ready = false) (outbox : Outbox) :
    wholePass e.pending e.session outbox = ⟨e.session, e.pending, outbox, 0, none⟩ := by
  unfold ready at hready
  rcases (Bool.and_eq_false_iff).mp hready with hempty | hspent
  · have hnone : e.pending = [] := by simpa using hempty
    rw [hnone]
    rfl
  · exact deliverPending_of_spent hspent _ _ _

/-- After n deliveries, while tags are left, it delivers all that is deliverable. -/
theorem wholePass_spec {e : Engine} {n : Nat} (h : Numbers n e.session) (hfew : n + e.deliverable < 2 ^ 64)
    (outbox : Outbox) :
    let p := wholePass e.pending e.session outbox
    p.sent = e.deliverable ∧ p.pending = e.pending.drop e.deliverable := by
  intro p
  have hmost := e.deliverable_le
  obtain ⟨-, hpoll, -⟩ := poll_spec (e := { e with batch := e.pending.length }) h hfew outbox
  have hsent : p.sent = min e.pending.length e.deliverable := hpoll
  have hall : p.sent = e.deliverable := by omega
  have hpass : Delivers n e.pending e.session outbox p :=
    deliverPending_spec e.pending e.pending.length outbox h (by
      show n + p.sent < 2 ^ 64
      omega)
  exact ⟨hall, hall ▸ hpass.pending_eq⟩

/-! ## Polling until the answer is no -/

structure Served where
  engine : Engine
  outbox : Outbox
  counters : Counters

namespace Served

def poll (s : Served) : Bool × Nat × Served :=
  let (more, engine, outbox, counted) := s.engine.poll s.outbox
  (more, counted.delivered, ⟨engine, outbox, s.counters + counted⟩)

/-- Polled until the answer is no, `s` makes these numbers of deliveries, poll by poll, and ends
    as the last. -/
inductive Drains : Served → List Nat → Served → Prop
  | done {s : Served} : s.poll.1 = false → Drains s [s.poll.2.1] s.poll.2.2
  | again {s last : Served} {calls : List Nat} :
    s.poll.1 = true → Drains s.poll.2.2 calls last → Drains s (s.poll.2.1 :: calls) last

theorem add_delivered (c : Counters) (m n : Nat) :
    c + { delivered := m } + { delivered := n } = c + { delivered := m + n } := by
  have hsum : c.delivered + m + n = c.delivered + (m + n) := Nat.add_assoc _ _ _
  show Counters.mk _ (c.delivered + m + n) _ _ = Counters.mk _ (c.delivered + (m + n)) _ _
  rw [hsum]
  rfl

/-- All polls together make the pass that no batch cuts short. -/
theorem Drains.whole {s last : Served} {calls : List Nat} (h : Drains s calls last) :
    let p := wholePass s.engine.pending s.engine.session s.outbox
    last = ⟨{ s.engine with session := p.session, pending := p.pending }, p.outbox,
      s.counters + { delivered := p.sent }⟩ ∧ calls.sum = p.sent := by
  induction h with
  | @done s hdone =>
    have hresumed := wholePass_resumed s.engine.pending s.engine.batch s.engine.session s.outbox
    have hidle := wholePass_of_not_ready (e := s.poll.2.2.engine) hdone s.poll.2.2.outbox
    have hrest : wholePass (s.engine.pass s.outbox).pending (s.engine.pass s.outbox).session
        (s.engine.pass s.outbox).outbox = _ := hidle
    intro p
    have hp : p = { s.engine.pass s.outbox with refusal := none } := by
      show wholePass s.engine.pending s.engine.session s.outbox = _
      rw [hresumed]
      exact congrArg (fun second : Pass => { second with sent := (s.engine.pass s.outbox).sent + second.sent }) hrest
    rw [hp]
    exact ⟨rfl, Nat.add_zero _⟩
  | @again s last calls _ _ ih =>
    obtain ⟨hlast, hsum⟩ := ih
    have hresumed : wholePass s.engine.pending s.engine.session s.outbox = _ :=
      wholePass_resumed s.engine.pending s.engine.batch s.engine.session s.outbox
    intro p
    have hp : p = _ := hresumed
    refine ⟨?_, ?_⟩
    · rw [hlast, hp, ← add_delivered]
      rfl
    · rw [List.sum_cons, hsum, hp]
      rfl

/-- After n deliveries, while tags are left, the answer becomes no. No poll exceeds the batch, and
    none but the first makes no delivery; the first does neither if something is deliverable. -/
theorem exists_drains {n : Nat} (s : Served) (hbatch : 0 < s.engine.batch) (h : Numbers n s.engine.session)
    (hfew : n + s.engine.deliverable < 2 ^ 64) :
    ∃ calls last, Drains s calls last ∧ calls.sum = s.engine.deliverable ∧ (∀ k ∈ calls, k ≤ s.engine.batch) ∧
      (∀ k ∈ calls.tail, 1 ≤ k) ∧ (0 < s.engine.deliverable → ∀ k ∈ calls, 1 ≤ k) := by
  induction hleft : s.engine.deliverable using Nat.strong_induction_on generalizing s n with
  | _ left ih =>
    obtain ⟨hnumbers, hsent, hrest, hanswer⟩ := poll_spec h hfew s.outbox
    have hmade : s.poll.2.1 = min s.engine.batch left := hleft ▸ hsent
    have hremain : s.poll.2.2.engine.deliverable = left - s.poll.2.1 := hleft ▸ hrest
    by_cases hmore : s.poll.1 = true
    · have hsome : 0 < s.poll.2.2.engine.deliverable := hanswer.mp hmore
      have hroom : n + s.poll.2.1 + s.poll.2.2.engine.deliverable < 2 ^ 64 := by omega
      obtain ⟨calls, last, hdrains, hsum, hmost, -, hleast⟩ :=
        ih s.poll.2.2.engine.deliverable (by omega) s.poll.2.2 hbatch hnumbers hroom rfl
      refine ⟨s.poll.2.1 :: calls, last, .again hmore hdrains, ?_, ?_, hleast hsome, ?_⟩
      · rw [List.sum_cons, hsum]
        omega
      · intro k hk
        rcases List.mem_cons.mp hk with rfl | hk
        · omega
        · exact hmost k hk
      · intro _ k hk
        rcases List.mem_cons.mp hk with rfl | hk
        · omega
        · exact hleast hsome k hk
    · have hno : s.poll.1 = false := by simpa using hmore
      have hnone : ¬0 < s.poll.2.2.engine.deliverable := fun hpos => hmore (hanswer.mpr hpos)
      refine ⟨[s.poll.2.1], s.poll.2.2, .done hno, ?_, ?_, nofun, ?_⟩
      · rw [List.sum_singleton]
        omega
      · intro k hk
        rw [List.mem_singleton] at hk
        omega
      · intro hpos k hk
        rw [List.mem_singleton] at hk
        omega

end Served

/-- An engine with any limit and batch size, after any frames and polls that make fewer than
    2^64 - 1 deliveries when those that are deliverable then are counted in. Give it any other batch
    size and poll it until the answer is no, with any outbox and counters. That ends, and however
    large the batch is it ends the same: the same session, the same outbox, the counters grown by
    what was deliverable, which is what waited up to the free credit, and the rest waiting. No poll
    makes more than a batch of deliveries, and each that follows on an answer of yes makes one at
    least. -/
theorem batches_agree (limit : Option Nat) (batch : Nat) (events : List Event) (outbox : Outbox) (counters : Counters)
    (hfew : ((History.moments next (new limit batch) events).map sent).sum +
      (History.final next (new limit batch) events).deliverable < 2 ^ 64 - 1) :
    let e := History.final next (new limit batch) events
    ∃ session outbox', ∀ size, ∃ calls,
      Served.Drains ⟨{ e with batch := max size 1 }, outbox, counters⟩ calls
        ⟨⟨session, e.pending.drop e.deliverable, max size 1⟩, outbox', counters + { delivered := e.deliverable }⟩ ∧
      calls.sum = e.deliverable ∧ (∀ k ∈ calls, k ≤ max size 1) ∧ ∀ k ∈ calls.tail, 1 ≤ k := by
  intro e
  have hnumbers : Numbers (count (History.moments next (new limit batch) events)) e.session :=
    (inOrder limit batch events (Nat.lt_of_le_of_lt (Nat.le_add_right _ _) hfew)).numbers
  have hroom : count (History.moments next (new limit batch) events) + e.deliverable < 2 ^ 64 :=
    Nat.lt_of_lt_of_le hfew (by decide)
  let p := wholePass e.pending e.session outbox
  obtain ⟨hsent, hpending⟩ : p.sent = e.deliverable ∧ p.pending = e.pending.drop e.deliverable :=
    wholePass_spec hnumbers hroom outbox
  refine ⟨p.session, p.outbox, fun size => ?_⟩
  have hbatch : 0 < max size 1 := by omega
  obtain ⟨calls, last, hdrains, hsum, hmost, hleast, -⟩ :=
    Served.exists_drains ⟨{ e with batch := max size 1 }, outbox, counters⟩ hbatch hnumbers hroom
  obtain ⟨hlast, -⟩ := hdrains.whole
  refine ⟨calls, ?_, hsum, hmost, hleast⟩
  rw [← hpending, ← hsent]
  exact hlast ▸ hdrains

/-- Three may be in flight. Of five messages a poll delivers two and the first is acknowledged, so
    that two more can be delivered and one waits. -/
def halfway : List Event :=
  [.frame (Command.publish [65]).encode, .frame (Command.publish [66]).encode, .frame (Command.publish [67]).encode,
    .frame (Command.publish [68]).encode, .frame (Command.publish [69]).encode, .poll {},
    .frame (Command.acknowledge 1 false).encode]

/-- One at a time it takes two polls, and seven at a time one poll. -/
theorem halfway_batches_agree :
    let past := History.moments next (new (some 3) 2) halfway
    let e := History.final next (new (some 3) 2) halfway
    (past.map sent).sum + e.deliverable < 2 ^ 64 - 1 ∧ e.pending = [[67], [68], [69]] ∧ e.deliverable = 2 ∧
    ∃ session outbox,
      (∃ calls, Served.Drains ⟨{ e with batch := 1 }, {}, {}⟩ calls ⟨⟨session, [[69]], 1⟩, outbox, { delivered := 2 }⟩ ∧
        calls.sum = 2 ∧ (∀ k ∈ calls, k ≤ 1) ∧ ∀ k ∈ calls.tail, 1 ≤ k) ∧
      ∃ calls, Served.Drains ⟨{ e with batch := 7 }, {}, {}⟩ calls ⟨⟨session, [[69]], 7⟩, outbox, { delivered := 2 }⟩ ∧
        calls.sum = 2 := by
  intro past e
  have hfew : (past.map sent).sum + e.deliverable < 2 ^ 64 - 1 := by decide
  have hmany : e.deliverable = 2 := by decide
  have hrest : e.pending.drop 2 = [[69]] := by decide
  obtain ⟨session, outbox, hends⟩ := batches_agree (some 3) 2 halfway {} {} hfew
  rw [show History.final next (new (some 3) 2) halfway = e from rfl, hmany, hrest] at hends
  obtain ⟨calls, hdrains, hsum, hmost, hleast⟩ := hends 1
  obtain ⟨calls', hdrains', hsum', -, -⟩ := hends 7
  exact ⟨hfew, by decide, hmany, session, outbox, ⟨calls, hdrains, hsum, hmost, hleast⟩, calls', hdrains', hsum'⟩

end Engine

end MessageBroker.Loopback
