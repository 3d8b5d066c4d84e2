/-
  MessageBroker.Proofs.Delivery.Numbering — a session's deliveries, from their tag to their end.

  As long as nobody else files entries in its tracker, a session numbers its deliveries
  1, 2, 3, ... and each of them is in flight until it is handed out once, under the tag
  and with the message of its delivery, or lost with others whose sizes a word does not
  hold together.
  - `Books`: the invariant. It links the next tag, the tags given, the entries in flight,
    those handed out and those lost, the limit and the closing, and every request of the
    consumer's own keeps it (`books_next`).
  - `nextTag_free`: so the next tag is never taken, until the tags run out.
  - `deliveries_accounted`: what this says of every run that makes fewer than 2^64 - 1
    deliveries.
  - `too_heavy_is_neither`: what is lost is neither in flight nor handed out.
-/

import Mathlib.Algebra.Ring.Nat
import MessageBroker.Proofs.Delivery.Consumer

namespace MessageBroker.Delivery.Consumer

variable {M : Type} [Message M]

structure Books (limit : Option Nat) (past : List (Moment (Consumer M) (Request M))) (c : Consumer M) : Prop where
  limit_eq : c.session.limit = limit
  /-- The next tag is one above the number of deliveries, in 64 bits. -/
  nextTag_eq : c.session.nextTag = UInt64.ofNat ((past.flatMap delivered).length + 1)
  tags_eq : (past.flatMap delivered).map (·.tag) = (List.range' 1 (past.flatMap delivered).length).map UInt64.ofNat
  balanced : (c.outstanding ++ past.flatMap handedOut ++ past.flatMap lost).Perm (past.flatMap delivered)
  within : ∀ n, limit = some n → c.outstanding.length ≤ n
  closed_empty : c.session.closed = true → c.outstanding = []
  closed_of_close : (∃ m ∈ past, m.event = .close) → c.session.closed = true

theorem books_start (limit : Option Nat) : Books limit [] (withLimit limit : Consumer M) where
  limit_eq := rfl
  nextTag_eq := rfl
  tags_eq := rfl
  balanced := .refl _
  within _ _ := Nat.zero_le _
  closed_empty h := by cases h
  closed_of_close h := by obtain ⟨m, hm, -⟩ := h; cases hm

section
variable {limit : Option Nat} {past : List (Moment (Consumer M) (Request M))} {c : Consumer M}

theorem Books.tag_given (h : Books limit past c) {e : Entry M} (he : e ∈ c.outstanding) :
    ∃ k, 1 ≤ k ∧ k ≤ (past.flatMap delivered).length ∧ e.tag = UInt64.ofNat k := by
  have hgiven : e ∈ past.flatMap delivered := h.balanced.mem_iff.mp (List.mem_append_left _ (List.mem_append_left _ he))
  have htag := List.mem_map_of_mem (f := (·.tag)) hgiven
  rw [h.tags_eq] at htag
  obtain ⟨k, hk, hke⟩ := List.mem_map.mp htag
  rw [List.mem_range'_1] at hk
  exact ⟨k, hk.1, by omega, hke.symm⟩

theorem Books.tag_lt (h : Books limit past c) (hfew : (past.flatMap delivered).length < 2 ^ 64 - 1) {e : Entry M}
    (he : e ∈ c.outstanding) : e.tag < c.session.nextTag := by
  obtain ⟨k, h1, hk, htag⟩ := h.tag_given he
  rw [h.nextTag_eq, htag, UInt64.lt_iff_toNat_lt, UInt64.toNat_ofNat', UInt64.toNat_ofNat']
  omega

theorem Books.nextTag_free (h : Books limit past c) (hfew : (past.flatMap delivered).length < 2 ^ 64 - 1) :
    c.session.nextTag ∉ c.session.tracker.tags := by
  intro hin
  obtain ⟨message, he⟩ := TagMap.mem_tags.mp hin
  exact UInt64.lt_irrefl _ (h.tag_lt hfew he)

/-- One more request of the consumer's own leaves the deliveries in flight, handed out or lost. -/
theorem Books.balanced_next (h : Books limit past c) {r : Request M} (hr : r.isShared = false) :
    let now : List (Moment (Consumer M) (Request M)) := past ++ [⟨c, r⟩]
    ((c.next r).outstanding ++ now.flatMap handedOut ++ now.flatMap lost).Perm (now.flatMap delivered) := by
  intro now
  rw [History.flatMap_snoc, History.flatMap_snoc, History.flatMap_snoc]
  exact perm_step h.balanced (own_balance c hr)

theorem books_delivered (h : Books limit past c) {r : Request M} {message : M} (hr : r = .deliver message)
    (hopen : c.session.closed = false) (hcredit : c.session.hasCredit = true)
    (hfree : c.session.nextTag ∉ c.session.tracker.tags) (hgiven : delivered ⟨c, r⟩ = [⟨c.session.nextTag, message⟩])
    (hnext : c.next r = { c with session := c.session.track message }) :
    Books limit (past ++ [⟨c, r⟩]) (c.next r) := by
  have hown : r.isShared = false := by rw [hr]; rfl
  have hfiled : (c.next r).outstanding.Perm (c.outstanding ++ [⟨c.session.nextTag, message⟩]) := by
    rw [hnext]; exact Tracker.insert_perm hfree message
  refine ⟨by rw [hnext]; exact h.limit_eq, ?_, ?_, h.balanced_next hown, ?_, ?_, ?_⟩
  · rw [hnext, History.flatMap_snoc, hgiven, List.length_append, List.length_singleton, UInt64.ofNat_add,
      ← h.nextTag_eq]
    rfl
  · rw [History.flatMap_snoc, hgiven, List.map_append, h.tags_eq, List.length_append, List.length_singleton,
      List.range'_concat, List.map_append]
    simp [h.nextTag_eq, Nat.add_comm]
  · intro n hn
    have hroom : c.session.tracker.size < n := by
      simpa [Session.hasCredit, hopen, h.limit_eq, hn] using hcredit
    have hsize : c.session.tracker.size = c.outstanding.length := rfl
    rw [hfiled.length_eq, List.length_append, List.length_singleton]
    omega
  · intro hc
    rw [hnext] at hc
    exact absurd (hopen.symm.trans hc) (by simp)
  · rintro ⟨m, hm, hclose⟩
    -- the new moment is no close, and an older one would have closed the session
    rcases List.mem_append.mp hm with hm | hm
    · exact absurd (hopen.symm.trans (h.closed_of_close ⟨m, hm, hclose⟩)) (by simp)
    · rw [List.mem_singleton.mp hm, hr] at hclose
      cases hclose

/-- Every other request of the consumer's own, a refused delivery among them, only takes
    entries out of flight. -/
theorem books_other (h : Books limit past c) {r : Request M} (hr : r.isShared = false) (hd : delivered ⟨c, r⟩ = []) :
    Books limit (past ++ [⟨c, r⟩]) (c.next r) := by
  obtain ⟨hlimit, htag, hstays, hshut⟩ := next_session hr hd
  have hle : (c.next r).outstanding.length ≤ c.outstanding.length := by
    have := (own_balance c hr).length_eq
    rw [hd, List.append_nil, List.length_append, List.length_append] at this
    omega
  have hgiven : (past ++ [(⟨c, r⟩ : Moment (Consumer M) (Request M))]).flatMap delivered = past.flatMap delivered := by
    rw [History.flatMap_snoc, hd, List.append_nil]
  refine ⟨hlimit.trans h.limit_eq, ?_, ?_, h.balanced_next hr, ?_, ?_, ?_⟩
  · rw [hgiven, htag]
    exact h.nextTag_eq
  · rw [hgiven]
    exact h.tags_eq
  · intro n hn
    exact Nat.le_trans hle (h.within n hn)
  · intro hc
    rcases hshut hc with hold | hempty
    · rw [h.closed_empty hold] at hle
      exact List.eq_nil_of_length_eq_zero (Nat.le_zero.mp hle)
    · exact hempty
  · rintro ⟨m, hm, hclose⟩
    rcases List.mem_append.mp hm with hm | hm
    · exact hstays (h.closed_of_close ⟨m, hm, hclose⟩)
    · rw [List.mem_singleton.mp hm] at hclose
      obtain rfl : r = .close := hclose
      exact closed_next_close c

theorem books_next (h : Books limit past c) {r : Request M} (hr : r.isShared = false) :
    Books limit (past ++ [⟨c, r⟩]) (c.next r) := by
  rcases delivered_cases c r with hd | ⟨message, hm, hopen, hcredit, hfree, hgiven, hnext⟩
  · exact books_other h hr hd
  · exact books_delivered h hm hopen hcredit hfree hgiven hnext

end

theorem books (limit : Option Nat) {requests : List (Request M)} (hown : ∀ r ∈ requests, r.isShared = false) :
    Books limit (History.moments next (withLimit limit) requests) (History.final next (withLimit limit) requests) :=
  History.along_allowed (Books limit) (books_start limit) (fun _ _ _ hr h => books_next h hr) hown

theorem books_before {limit : Option Nat} {requests : List (Request M)} (hown : ∀ r ∈ requests, r.isShared = false)
    {m : Moment (Consumer M) (Request M)} (hm : m ∈ History.moments next (withLimit limit) requests) :
    ∃ earlier, Books limit earlier m.before ∧
      (earlier.flatMap delivered).length ≤
        ((History.moments next (withLimit limit) requests).flatMap delivered).length := by
  obtain ⟨earlier, later, hsplit⟩ := List.append_of_mem hm
  obtain ⟨first, rest, hreq, hearlier, hbefore, -⟩ := History.moments_split hsplit
  have hallowed : ∀ r ∈ first, r.isShared = false := by
    intro r hr
    exact hown r (hreq ▸ List.mem_append_left _ hr)
  have hfirst := books limit hallowed
  rw [← hearlier, ← hbefore] at hfirst
  refine ⟨earlier, hfirst, ?_⟩
  rw [hsplit, List.flatMap_append, List.length_append]
  exact Nat.le_add_right _ _

/-! ## Every run -/

section
variable {limit : Option Nat} {past : List (Moment (Consumer M) (Request M))} {c : Consumer M}

theorem Books.nextTag_toNat (h : Books limit past c) (hfew : (past.flatMap delivered).length < 2 ^ 64 - 1) :
    c.session.nextTag.toNat = 1 + (past.flatMap delivered).length := by
  have hlt : (past.flatMap delivered).length + 1 < 2 ^ 64 := by omega
  rw [h.nextTag_eq, UInt64.toNat_ofNat', Nat.mod_eq_of_lt hlt, Nat.add_comm]

theorem Books.tags_toNat (h : Books limit past c) (hfew : (past.flatMap delivered).length < 2 ^ 64 - 1) :
    (past.flatMap delivered).map (·.tag.toNat) = List.range' 1 (past.flatMap delivered).length := by
  have hnat : (past.flatMap delivered).map (·.tag.toNat) = ((past.flatMap delivered).map (·.tag)).map UInt64.toNat := by
    rw [List.map_map]; rfl
  have hback : ∀ k ∈ List.range' 1 (past.flatMap delivered).length, (UInt64.ofNat k).toNat = id k := by
    intro k hk
    rw [List.mem_range'_1] at hk
    rw [UInt64.toNat_ofNat', Nat.mod_eq_of_lt (by omega), id]
  rw [hnat, h.tags_eq, List.map_map]
  exact (List.map_congr_left hback).trans (List.map_id _)

end

/-- The refusal that a session never makes of its own accord. -/
theorem nextTag_taken {c : Consumer M} {r : Request M} {tag : Tag}
    (h : (c.step r).1 = .refused (.duplicateTag tag)) : c.session.nextTag ∈ c.session.tracker.tags := by
  cases r with
  | deliver message =>
    rcases c.session.deliver_cases message with ⟨-, he⟩ | ⟨-, -, he⟩ | ⟨-, -, hin, -⟩ | ⟨-, -, -, hok⟩
    · rw [step_deliver_of_error he] at h; cases h
    · rw [step_deliver_of_error he] at h; cases h
    · exact hin
    · rw [step_deliver_of_ok hok] at h; cases h
  | start x => simp only [step] at h; split at h <;> cases h
  | stage x => simp only [step] at h; split at h <;> cases h
  | commit x => simp only [step] at h; split at h <;> cases h
  | acknowledge tag multiple =>
    simp only [step, Answer.ofOutcome] at h
    split at h <;> cases h
  | reject | close | discard | shared => cases h

/-- A session nobody else files entries with, after any run of its own requests that
    makes fewer than 2^64 - 1 deliveries. The k-th delivery has tag k and the next tag is
    one above their number. The deliveries are those in flight, those handed out and those
    lost, each once and unchanged, so these share out the tags given. Lost is what a
    cumulative acknowledgement cuts off whose sizes a word does not hold together, and
    nothing else. Never are more in flight than the limit allows, and never is a tag taken
    already. After a close nothing is in flight and nothing can be delivered. -/
theorem deliveries_accounted (limit : Option Nat) (requests : List (Request M))
    (hown : ∀ r ∈ requests, r.isShared = false)
    (hfew : ((History.moments next (withLimit limit) requests).flatMap delivered).length < 2 ^ 64 - 1) :
    let past := History.moments next (withLimit limit) requests
    let c := History.final next (withLimit limit) requests
    let given := past.flatMap delivered
    given.map (·.tag.toNat) = List.range' 1 given.length ∧
    c.session.nextTag.toNat = 1 + given.length ∧
    (c.outstanding ++ past.flatMap handedOut ++ past.flatMap lost).Perm given ∧
    ((c.outstanding ++ past.flatMap handedOut ++ past.flatMap lost).map (·.tag.toNat)).Perm
      (List.range' 1 (c.session.nextTag.toNat - 1)) ∧
    (∀ m ∈ past, lost m ≠ [] → ∃ tag, m.event = .acknowledge tag true ∧
      lost m = m.before.session.tracker.selected tag true ∧ UInt64.size ≤ weight (lost m)) ∧
    (∀ n, limit = some n → c.outstanding.length ≤ n) ∧
    (∀ m ∈ past, ∀ tag, (m.before.step m.event).1 ≠ .refused (.duplicateTag tag)) ∧
    (.close ∈ requests → c.outstanding = [] ∧ ∀ message, (c.step (.deliver message)).1 = .refused .sessionClosed) := by
  intro past c given
  have h : Books limit past c := books limit hown
  have hnext : c.session.nextTag.toNat = 1 + given.length := h.nextTag_toNat hfew
  have htags : given.map (·.tag.toNat) = List.range' 1 given.length := h.tags_toNat hfew
  refine ⟨htags, hnext, h.balanced, ?_, fun m _ => lost_cases m, h.within, ?_, ?_⟩
  · have hmapped := h.balanced.map (·.tag.toNat)
    rw [hnext, Nat.add_sub_cancel_left]
    exact hmapped.trans (.of_eq htags)
  · intro m hm tag hdup
    obtain ⟨earlier, hbooks, hle⟩ := books_before hown hm
    exact hbooks.nextTag_free (Nat.lt_of_le_of_lt hle hfew) (nextTag_taken hdup)
  · intro hclose
    have hclosed := h.closed_of_close (History.exists_moment hclose)
    refine ⟨h.closed_empty hclosed, ?_⟩
    intro message
    rw [step_deliver_of_closed hclosed]

/-- Two may be in flight. Two transactions overlap, and the second stages a tag that the
    first takes out; a delivery is refused for want of credit and another after the close. -/
def overlapping : List (Request UInt64) :=
  [.deliver 10, .deliver 20, .deliver 30, .start 0, .start 1, .stage 0 1 false, .stage 1 2 true, .commit 0, .deliver 30,
    .commit 1, .reject 3, .deliver 40, .close, .deliver 50]

theorem overlapping_accounted :
    let past := History.moments next (withLimit (some 2)) overlapping
    let c := History.final next (withLimit (some 2)) overlapping
    (∀ r ∈ overlapping, r.isShared = false) ∧ (past.flatMap delivered).length < 2 ^ 64 - 1 ∧
    (past.flatMap delivered).map (·.tag.toNat) = [1, 2, 3, 4] ∧ c.session.nextTag.toNat = 5 ∧ c.outstanding = [] ∧
    past.flatMap lost = [] ∧ ((past.flatMap handedOut).map (·.tag.toNat)).Perm [1, 2, 3, 4] := by
  intro past c
  have hown : ∀ r ∈ overlapping, r.isShared = false := by decide
  have hcount : (past.flatMap delivered).length = 4 := by decide
  have hfew : (past.flatMap delivered).length < 2 ^ 64 - 1 := by rw [hcount]; decide
  obtain ⟨htags, hnext, -, hshared, -, -, -, hclosed⟩ := deliveries_accounted (some 2) overlapping hown hfew
  have hempty : c.outstanding = [] := (hclosed (by simp [overlapping])).1
  have hlost : past.flatMap lost = [] := by decide
  rw [hcount] at htags hnext
  rw [hnext, hempty, hlost, List.append_nil] at hshared
  exact ⟨hown, hfew, htags, hnext, hempty, hlost, hshared⟩

/-- Two deliveries that a word does not hold together are acknowledged at once. Both tags have been
    given, and neither is in flight or was handed out. -/
theorem too_heavy_is_neither :
    letI := sized
    let requests : List (Request Nat) := [.deliver (2 ^ 63), .deliver (2 ^ 63), .acknowledge 2 true]
    let past := History.moments next (withLimit none) requests
    let c := History.final next (withLimit none) requests
    (∀ r ∈ requests, r.isShared = false) ∧ (past.flatMap delivered).map (·.tag) = [1, 2] ∧
      c.session.nextTag = 3 ∧ past.flatMap lost = past.flatMap delivered ∧
      ¬(c.outstanding ++ past.flatMap handedOut).Perm (past.flatMap delivered) := by
  decide +kernel

end MessageBroker.Delivery.Consumer
