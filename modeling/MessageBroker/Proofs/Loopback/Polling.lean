/-
  MessageBroker.Proofs.Loopback.Polling — what one poll of an engine delivers.

  A poll takes messages from the front of those waiting, one delivery each, numbers them
  on from the deliveries made before, and pushes one frame for each. While every tag in
  flight is an earlier delivery's and tags are left, the session refuses none of them:
  it is asked only when it has credit, and the next tag is free (`deliverPending_spec`).
  Whatever the tags are, each delivery uses up one of the credit, and a pass that is refused
  nothing goes on until it has made its batch, nothing waits, or no credit is left
  (`deliverPending_spends`).
-/

import Mathlib.Algebra.Ring.Nat
import MessageBroker.Loopback.Engine
import MessageBroker.Proofs.Delivery.Withdrawal

namespace MessageBroker.Loopback

open Wire Delivery

/-- The deliveries of `bodies`, the first of them being the one after the n-th. -/
def numbered (n : Nat) (bodies : List Bytes) : List (Entry Bytes) :=
  bodies.mapIdx fun i body => ⟨UInt64.ofNat (n + i + 1), body⟩

def frameOf (e : Entry Bytes) : Bytes := delivery e.tag e.message

def pushAll (outbox : Outbox) (payloads : List Bytes) : Outbox := payloads.foldl Outbox.push outbox

theorem numbered_cons (n : Nat) (body : Bytes) (rest : List Bytes) :
    numbered n (body :: rest) = ⟨UInt64.ofNat (n + 1), body⟩ :: numbered (n + 1) rest := by
  simp only [numbered, List.mapIdx_cons, Nat.add_zero, List.cons.injEq, true_and]
  congr 1
  funext i b
  rw [show n + (i + 1) + 1 = n + 1 + i + 1 by omega]

theorem numbered_append (n : Nat) (first second : List Bytes) :
    numbered n (first ++ second) = numbered n first ++ numbered (n + first.length) second := by
  simp only [numbered, List.mapIdx_append, List.append_cancel_left_eq]
  congr 1
  funext i b
  rw [show n + (i + first.length) + 1 = n + first.length + i + 1 by omega]

theorem mem_numbered {n : Nat} {bodies : List Bytes} {e : Entry Bytes} (h : e ∈ numbered n bodies) :
    ∃ i, bodies[i]? = some e.message ∧ e.tag = UInt64.ofNat (n + i + 1) := by
  obtain ⟨i, hi, he⟩ := List.mem_mapIdx.mp h
  subst he
  exact ⟨i, List.getElem?_eq_getElem hi, rfl⟩

theorem map_frameOf_numbered (bodies : List Bytes) :
    (numbered 0 bodies).map frameOf = bodies.mapIdx fun i body => delivery (UInt64.ofNat (i + 1)) body := by
  refine List.ext_getElem (by simp [numbered]) ?_
  intro i _ _
  simp [numbered, frameOf]

theorem unwritten_pushAll {outbox : Outbox} (h : outbox.offset ≤ outbox.buffer.length) (payloads : List Bytes) :
    (pushAll outbox payloads).unwritten = outbox.unwritten ++ Frame.encodeAll payloads ∧
    (pushAll outbox payloads).offset ≤ (pushAll outbox payloads).buffer.length := by
  induction payloads generalizing outbox with
  | nil => exact ⟨(List.append_nil _).symm, h⟩
  | cons payload rest ih =>
    obtain ⟨hunwritten, hoffset⟩ := ih (Outbox.offset_le_push h payload)
    rw [Outbox.unwritten_push h, List.append_assoc] at hunwritten
    exact ⟨hunwritten, hoffset⟩

/-- Every tag in flight is one of the first n, and the next one is the n + 1st. -/
structure Numbers (n : Nat) (s : Session Bytes) : Prop where
  isOpen : s.closed = false
  nextTag_eq : s.nextTag = UInt64.ofNat (n + 1)
  tag_pos : ∀ e ∈ s.tracker.outstanding.entries, 0 < e.tag.toNat
  tag_le : ∀ e ∈ s.tracker.outstanding.entries, e.tag.toNat ≤ n

/-- While tags are left, those in flight are below the next. -/
theorem Numbers.tag_lt {n : Nat} {s : Session Bytes} (h : Numbers n s) (hn : n < 2 ^ 64 - 1) {e : Entry Bytes}
    (he : e ∈ s.tracker.outstanding.entries) : e.tag < s.nextTag := by
  have := h.tag_le e he
  rw [h.nextTag_eq, UInt64.lt_iff_toNat_lt, UInt64.toNat_ofNat', Nat.mod_eq_of_lt (by omega)]
  omega

theorem Numbers.entries_track {n : Nat} {s : Session Bytes} (h : Numbers n s) (hn : n < 2 ^ 64 - 1) (message : Bytes) :
    (s.track message).tracker.outstanding.entries =
      s.tracker.outstanding.entries ++ [⟨UInt64.ofNat (n + 1), message⟩] := by
  rw [← h.nextTag_eq]
  exact TagMap.place_last fun e he => h.tag_lt hn he

theorem Numbers.track {n : Nat} {s : Session Bytes} (h : Numbers n s) (hn : n < 2 ^ 64 - 1) (message : Bytes) :
    Numbers (n + 1) (s.track message) := by
  have hlast : ∀ e ∈ (s.track message).tracker.outstanding.entries,
      e ∈ s.tracker.outstanding.entries ∨ e.tag.toNat = n + 1 := by
    intro e he
    rw [h.entries_track hn message] at he
    refine (List.mem_append.mp he).imp_right fun he => ?_
    rw [List.mem_singleton.mp he, UInt64.toNat_ofNat', Nat.mod_eq_of_lt (by omega)]
  refine ⟨h.isOpen, by rw [UInt64.ofNat_add, ← h.nextTag_eq]; rfl, fun e he => ?_, fun e he => ?_⟩
  · rcases hlast e he with he | htag
    · exact h.tag_pos e he
    · omega
  · rcases hlast e he with he | htag
    · exact Nat.le_succ_of_le (h.tag_le e he)
    · exact Nat.le_of_eq htag

/-- The next tag is free. It may even be the one behind the last, which counts as none. -/
theorem Numbers.nextTag_free {n : Nat} {s : Session Bytes} (h : Numbers n s) (hn : n < 2 ^ 64) :
    s.nextTag ∉ s.tracker.tags := by
  intro hin
  obtain ⟨old, he⟩ := TagMap.mem_tags.mp hin
  have hpos : 0 < s.nextTag.toNat := h.tag_pos _ he
  have hle : s.nextTag.toNat ≤ n := h.tag_le _ he
  rw [h.nextTag_eq, UInt64.toNat_ofNat'] at hpos hle
  omega

theorem Numbers.deliver_eq {n : Nat} {s : Session Bytes} (h : Numbers n s) (hn : n < 2 ^ 64)
    (hcredit : s.hasCredit = true) (message : Bytes) :
    s.deliver message = .ok (UInt64.ofNat (n + 1), s.track message) := by
  rcases s.deliver_cases message with ⟨hc, -⟩ | ⟨-, hc, -⟩ | ⟨-, -, hin, -⟩ | ⟨-, -, -, hok⟩
  · exact absurd (h.isOpen.symm.trans hc) (by simp)
  · exact absurd (hcredit.symm.trans hc) (by simp)
  · exact absurd hin (h.nextTag_free hn)
  · rw [hok, h.nextTag_eq]

/-- A pass that delivers the first `sent` of the waiting messages after n deliveries. -/
structure Delivers (n : Nat) (pending : List Bytes) (session : Session Bytes) (outbox : Outbox) (p : Pass) : Prop where
  unrefused : p.refusal = none
  sent_le : p.sent ≤ pending.length
  pending_eq : p.pending = pending.drop p.sent
  outbox_eq : p.outbox = pushAll outbox ((numbered n (pending.take p.sent)).map frameOf)
  numbers : Numbers (n + p.sent) p.session
  entries_eq : p.session.tracker.outstanding.entries =
    session.tracker.outstanding.entries ++ numbered n (pending.take p.sent)

theorem delivers_none {n : Nat} {session : Session Bytes} (h : Numbers n session) (pending : List Bytes)
    (outbox : Outbox) : Delivers n pending session outbox ⟨session, pending, outbox, 0, none⟩ where
  unrefused := rfl
  sent_le := Nat.zero_le _
  pending_eq := rfl
  outbox_eq := by simp [numbered, pushAll]
  numbers := h
  entries_eq := by simp [numbered]

theorem deliverPending_spec (pending : List Bytes) (left : Nat) {session : Session Bytes} (outbox : Outbox) {n : Nat}
    (h : Numbers n session) (hfew : n + (Engine.deliverPending pending left session outbox).sent < 2 ^ 64) :
    Delivers n pending session outbox (Engine.deliverPending pending left session outbox) := by
  induction pending generalizing left session outbox n with
  | nil => exact delivers_none h [] outbox
  | cons message rest ih =>
    by_cases hstop : left = 0 ∨ session.hasCredit = false
    · simp only [Engine.deliverPending, if_pos hstop]
      exact delivers_none h _ outbox
    have hcredit : session.hasCredit = true := by simpa using fun hc => hstop (.inr hc)
    have hok := h.deliver_eq (by omega) hcredit message
    simp only [Engine.deliverPending, if_neg hstop, hok] at hfew ⊢
    have hrest := ih (left - 1) (outbox.push (delivery (UInt64.ofNat (n + 1)) message)) (h.track (by omega) message)
      (by omega)
    generalize Engine.deliverPending rest (left - 1) (session.track message)
      (outbox.push (delivery (UInt64.ofNat (n + 1)) message)) = p at hrest hfew ⊢
    exact
      { unrefused := hrest.unrefused
        sent_le := Nat.succ_le_succ hrest.sent_le
        pending_eq := hrest.pending_eq
        outbox_eq := by
          rw [hrest.outbox_eq, List.take_succ_cons, numbered_cons]
          rfl
        numbers := by rw [show n + (p.sent + 1) = n + 1 + p.sent by omega]; exact hrest.numbers
        entries_eq := by
          rw [hrest.entries_eq, h.entries_track (by omega) message, List.take_succ_cons, numbered_cons,
            List.append_assoc]
          rfl }

/-! ## Credit -/

/-- Without credit a pass ends where it begins. -/
theorem Engine.deliverPending_of_spent {session : Session Bytes} (hspent : session.hasCredit = false) (pending : List Bytes)
    (left : Nat) (outbox : Outbox) :
    Engine.deliverPending pending left session outbox = ⟨session, pending, outbox, 0, none⟩ := by
  cases pending with
  | nil => rfl
  | cons message rest => exact if_pos (.inr hspent)

def Within (session : Session Bytes) : Prop := ∀ most, session.limit = some most → session.tracker.size ≤ most

/-- What a pass that makes at most `left` deliveries does with the credit. -/
structure Spends (pending : List Bytes) (left : Nat) (session : Session Bytes) (p : Pass) : Prop where
  sent_le : p.sent ≤ pending.length
  limit_eq : p.session.limit = session.limit
  size_eq : p.session.tracker.size = session.tracker.size + p.sent
  within : Within session → Within p.session
  stopped : p.refusal = none → p.sent < left → p.pending = [] ∨ p.session.hasCredit = false

theorem size_track {s : Session Bytes} (hfree : s.nextTag ∉ s.tracker.tags) (message : Bytes) :
    (s.track message).tracker.size = s.tracker.size + 1 := by
  have hnew : ∀ y ∈ s.tracker.outstanding.entries, y.tag ≠ s.nextTag := by
    intro y hy htag
    rw [← htag] at hfree
    exact hfree (TagMap.mem_tags_of_mem hy)
  exact (TagMap.place_perm (e := ⟨s.nextTag, message⟩) hnew).length_eq

theorem within_track {s : Session Bytes} (hcredit : s.hasCredit = true) (hfree : s.nextTag ∉ s.tracker.tags)
    (message : Bytes) : Within (s.track message) := by
  intro most hmost
  have hlimit : s.limit = some most := hmost
  rw [Session.hasCredit, hlimit] at hcredit
  simp only [Option.all_some, Bool.and_eq_true, decide_eq_true_eq] at hcredit
  rw [size_track hfree]
  exact hcredit.2

theorem deliverPending_spends (pending : List Bytes) (left : Nat) (session : Session Bytes) (outbox : Outbox) :
    Spends pending left session (Engine.deliverPending pending left session outbox) := by
  induction pending generalizing left session outbox with
  | nil => exact ⟨Nat.le_refl 0, rfl, rfl, id, fun _ _ => .inl rfl⟩
  | cons message rest ih =>
    by_cases hstop : left = 0 ∨ session.hasCredit = false
    · simp only [Engine.deliverPending, if_pos hstop]
      refine ⟨Nat.zero_le _, rfl, rfl, id, fun _ hleft => .inr (hstop.resolve_left ?_)⟩
      exact Nat.pos_iff_ne_zero.mp hleft
    rcases session.deliver_cases message with ⟨-, herror⟩ | ⟨-, -, herror⟩ | ⟨-, -, -, herror⟩ | ⟨-, hcredit, hfree, hok⟩
    -- a refused delivery ends the pass
    case inl | inr.inl | inr.inr.inl =>
      simp only [Engine.deliverPending, if_neg hstop, herror]
      exact ⟨Nat.zero_le _, rfl, rfl, id, nofun⟩
    simp only [Engine.deliverPending, if_neg hstop, hok]
    have hrest := ih (left - 1) (session.track message) (outbox.push (delivery session.nextTag message))
    have hsize := hrest.size_eq
    rw [size_track hfree] at hsize
    refine ⟨Nat.succ_le_succ hrest.sent_le, hrest.limit_eq, ?_, fun _ => ?_, fun hnone hless => ?_⟩
    · simp only [hsize]
      omega
    · exact hrest.within (within_track hcredit hfree message)
    · simp only at hless
      exact hrest.stopped hnone (by omega)

theorem batch_le_of_ready {e : Engine} {outbox : Outbox} (hnone : (e.pass outbox).refusal = none)
    (hready : (e.poll outbox).2.1.ready = true) : e.batch ≤ (e.pass outbox).sent := by
  by_contra hless
  have hstop := (deliverPending_spends e.pending e.batch e.session outbox).stopped hnone (Nat.lt_of_not_le hless)
  have hdown : (e.poll outbox).2.1.ready = false := by
    show (!(e.pass outbox).pending.isEmpty && (e.pass outbox).session.hasCredit) = false
    rcases hstop with hempty | hcredit
    · rw [Engine.pass, hempty]
      rfl
    · rw [Engine.pass, hcredit, Bool.and_false]
  cases hready.symm.trans hdown

end MessageBroker.Loopback
