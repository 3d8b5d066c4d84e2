/-
  MessageBroker.Proofs.Connection.Counting — how far the counters of a connection come.

  A unit of work reads no more than its budget, and a frame that is counted was read with its
  header. So what a connection counts of its input is bounded by its units of work and its budget,
  and what it counts of its output by what its handler has queued: counters of 64 bits do not wrap
  before one of these has 2^64 bytes.
  - `Tallied`: the counts of the input, kept by each stage of a unit of work.
  - `framesOut_le`: frames out are counted by flushes, and no more of them than were queued.
  - `counters_fit`: all of them, of every run.
-/

import MessageBroker.Proofs.Connection.Statistics

namespace MessageBroker.Connection

open Wire
open Outbox (Change)

variable {σ : Type}

/-! ## The input -/

/-- What a connection has counted of its input after so many units of work. -/
structure Tallied (budget units rejected : Nat) (c : Connection σ) : Prop where
  budget_eq : c.readBudget = budget
  pos_le : c.decoder.pos ≤ c.decoder.buffer.length
  unitsOfWork_le : c.stats.unitsOfWork ≤ units
  partialReads_le : c.stats.partialReads ≤ units
  bytesIn_le : c.stats.bytesIn ≤ units * budget
  tally_le : c.decoder.tally ≤ c.stats.bytesIn
  framesIn_le : c.stats.framesIn ≤ c.decoder.frames
  rejected_le : c.decoder.rejected ≤ rejected

section
variable {budget units rejected : Nat} {c : Connection σ}

theorem tallied_new (s : σ) (limit budget : Nat) : Tallied (max budget 1) 0 0 (new s limit budget) where
  budget_eq := rfl
  pos_le := Nat.le_refl 0
  unitsOfWork_le := Nat.le_refl 0
  partialReads_le := Nat.le_refl 0
  bytesIn_le := Nat.zero_le _
  tally_le := Nat.le_refl 0
  framesIn_le := Nat.le_refl 0
  rejected_le := Nat.le_refl 0

theorem Tallied.mono (h : Tallied budget units rejected c) {units' rejected' : Nat} (hunits : units ≤ units')
    (hrejected : rejected ≤ rejected') : Tallied budget units' rejected' c where
  budget_eq := h.budget_eq
  pos_le := h.pos_le
  unitsOfWork_le := h.unitsOfWork_le.trans hunits
  partialReads_le := h.partialReads_le.trans hunits
  bytesIn_le := h.bytesIn_le.trans (Nat.mul_le_mul_right budget hunits)
  tally_le := h.tally_le
  framesIn_le := h.framesIn_le
  rejected_le := h.rejected_le.trans hrejected

theorem Tallied.frame (h : Tallied budget units rejected c) {c' : Connection σ} (hbudget : c'.readBudget = c.readBudget)
    (hdecoder : c'.decoder = c.decoder) (hunits : c'.stats.unitsOfWork = c.stats.unitsOfWork)
    (hpartial : c'.stats.partialReads = c.stats.partialReads) (hbytes : c'.stats.bytesIn = c.stats.bytesIn)
    (hframes : c'.stats.framesIn = c.stats.framesIn) : Tallied budget units rejected c' where
  budget_eq := hbudget.trans h.budget_eq
  pos_le := hdecoder ▸ h.pos_le
  unitsOfWork_le := hunits ▸ h.unitsOfWork_le
  partialReads_le := hpartial ▸ h.partialReads_le
  bytesIn_le := hbytes ▸ h.bytesIn_le
  tally_le := by
    rw [hdecoder, hbytes]
    exact h.tally_le
  framesIn_le := by
    rw [hframes, hdecoder]
    exact h.framesIn_le
  rejected_le := hdecoder ▸ h.rejected_le

theorem Tallied.counted (t : Tallied budget units rejected c) {payload : Bytes} {d : Decoder}
    (hy : c.decoder.Yields payload d) (handler : σ) (outbox : Outbox) :
    Tallied budget units rejected { c with
      decoder := d
      handler
      outbox
      stats := { c.stats with framesIn := c.stats.framesIn + 1 } } where
  budget_eq := t.budget_eq
  pos_le := hy.pos_le t.pos_le
  unitsOfWork_le := t.unitsOfWork_le
  partialReads_le := t.partialReads_le
  bytesIn_le := t.bytesIn_le
  tally_le := hy.tally_eq.trans_le t.tally_le
  framesIn_le := (Nat.succ_le_succ t.framesIn_le).trans hy.frames_eq.ge
  rejected_le := hy.rejected_eq.trans_le t.rejected_le

theorem Tallied.filled (h : Tallied budget units rejected c) (socket : Socket) :
    Tallied budget (units + 1) rejected (c.filled socket) := by
  have hread := readInput_spec c.decoder c.readBudget socket.arrivals
  have hcount : (brought (reads c.readBudget socket.arrivals)).length ≤ budget := by
    rw [← hread.count_eq, ← h.budget_eq]
    exact hread.count_le
  obtain ⟨hunread, hpos⟩ := readInput_feeds h.pos_le c.readBudget socket.arrivals
  have hframes := readInput_keeps Decoder.frames Decoder.frames_feed c.decoder c.readBudget socket.arrivals
  have hbytes := readInput_keeps Decoder.bytes Decoder.bytes_feed c.decoder c.readBudget socket.arrivals
  have hrejected := readInput_keeps Decoder.rejected Decoder.rejected_feed c.decoder c.readBudget socket.arrivals
  have htally := h.tally_le
  rw [filled_eq]
  constructor
  · exact h.budget_eq
  · exact hpos
  · exact Nat.succ_le_succ h.unitsOfWork_le
  · have := h.partialReads_le
    simp only
    split <;> omega
  · rw [Nat.succ_mul]
    exact Nat.add_le_add h.bytesIn_le hcount
  · simp only [Decoder.tally, hframes, hbytes, hunread, List.length_append] at htally ⊢
    omega
  · simp only [hframes]
    exact h.framesIn_le
  · simp only [hrejected]
    exact h.rejected_le

/-- Frames are counted as they are handled; at most one length is refused. -/
theorem Tallied.handleFrames (t : Tallied budget units rejected c) (h : Handler σ) :
    Tallied budget units (rejected + 1) (c.handleFrames h).2 := by
  fun_induction Connection.handleFrames h c with
  | case1 c e decoder heq =>
    obtain ⟨rfl, -⟩ := Decoder.error_of_decode heq
    exact ⟨t.budget_eq, t.pos_le, t.unitsOfWork_le, t.partialReads_le, t.bytesIn_le, t.tally_le, t.framesIn_le,
      Nat.succ_le_succ t.rejected_le⟩
  | case2 c decoder heq =>
    obtain ⟨rfl, -⟩ := Decoder.none_of_decode heq
    exact t.mono (Nat.le_refl _) (Nat.le_succ _)
  | case3 c payload decoder heq handled next _ ih => exact ih (t.counted (Decoder.yields_of_decode heq) _ _)
  | case4 c payload decoder heq handled next _ =>
    exact (t.counted (Decoder.yields_of_decode heq) _ _).mono (Nat.le_refl _) (Nat.le_succ _)

theorem Tallied.poll (t : Tallied budget units rejected c) (h : Handler σ) :
    Tallied budget units rejected (c.poll h).2 := by
  cases hended : c.peerClosed with
  | true => rwa [poll_of_ended hended]
  | false =>
    rw [poll_eq hended]
    exact t.frame rfl rfl rfl rfl rfl rfl

theorem Tallied.flush (t : Tallied budget units rejected c) (acceptances : List Acceptance) :
    Tallied budget units rejected (c.flush acceptances).2.1 := by
  rw [flush_eq]
  exact t.frame rfl rfl rfl rfl rfl rfl

theorem Tallied.close (t : Tallied budget units rejected c) (h : Handler σ) :
    Tallied budget units rejected (c.close h).2 := by
  unfold Connection.close
  split
  · exact t
  · exact ⟨t.budget_eq, Nat.le_refl 0, t.unitsOfWork_le, t.partialReads_le, t.bytesIn_le,
      (Nat.le_add_right _ _).trans t.tally_le, t.framesIn_le, t.rejected_le⟩

theorem Tallied.drive (t : Tallied budget units rejected c) (h : Handler σ) (socket : Socket) :
    Tallied budget (units + 1) (rejected + 1) (drive h c.begun socket).connection := by
  have hfilled : Tallied budget (units + 1) rejected (c.filled socket) := t.filled socket
  have hserved : Tallied budget (units + 1) (rejected + 1) (c.served h socket) := hfilled.handleFrames h
  have hpolled : Tallied budget (units + 1) (rejected + 1) (c.polled h socket) := hserved.poll h
  cases drives h c socket with
  | reading _ _ connection =>
    rw [connection]
    exact hfilled.mono (Nat.le_refl _) (Nat.le_succ _)
  | handling _ _ _ connection => rwa [connection]
  | polling _ _ _ _ connection => rwa [connection]
  | writing _ _ _ _ connection =>
    rw [connection]
    exact hpolled.flush socket.acceptances

theorem Tallied.work (t : Tallied budget units rejected c) (h : Handler σ) (socket : Socket) :
    Tallied budget (units + 1) (rejected + 1) (c.worked h socket) := by
  rw [worked]
  cases hclosed : c.closed with
  | true =>
    rw [Connection.work, if_pos hclosed]
    exact t.mono (Nat.le_succ _) (Nat.le_succ _)
  | false =>
    have hdriven := t.drive h socket
    rw [work_eq h hclosed]
    cases finishes h (Connection.drive h c.begun socket) with
    | goesOn _ _ result | faults _ _ result => rwa [result]
    | closes _ _ _ _ connection =>
      rw [connection]
      exact hdriven.close h

end

theorem tallied (h : Handler σ) (s : σ) (limit budget : Nat) (sockets : List Socket) :
    Tallied (max budget 1) sockets.length sockets.length
      (History.final (worked h) (new s limit budget) sockets) := by
  have hrun : Tallied (max budget 1) (History.moments (worked h) (new s limit budget) sockets).length
      (History.moments (worked h) (new s limit budget) sockets).length
      (History.final (worked h) (new s limit budget) sockets) :=
    History.along (fun past c => Tallied (max budget 1) past.length past.length c) (tallied_new s limit budget)
      (fun past c socket t => by
        rw [List.length_append]
        exact t.work h socket) sockets
  rwa [History.length_moments] at hrun

/-! ## The output -/

theorem queued_changes (changes : List Change) (o : Outbox) :
    o.queued ≤ (changes.foldl Outbox.changed o).queued := by
  induction changes generalizing o with
  | nil => exact Nat.le_refl _
  | cons e rest ih =>
    refine Nat.le_trans ?_ (ih (o.changed e))
    cases e with
    | push payload => exact Nat.le_succ _
    | clear => exact Nat.le_refl _

@[simp] theorem framesOut_handleFrames (h : Handler σ) (c : Connection σ) :
    (c.handleFrames h).2.stats.framesOut = c.stats.framesOut := by
  rw [handleFrames_keeps]

@[simp] theorem framesOut_poll (h : Handler σ) (c : Connection σ) :
    (c.poll h).2.stats.framesOut = c.stats.framesOut := by
  cases hended : c.peerClosed with
  | true => rw [poll_of_ended hended]
  | false => rw [poll_eq hended]

theorem framesOut_polled (h : Handler σ) (c : Connection σ) (socket : Socket) :
    (c.polled h socket).stats.framesOut = c.stats.framesOut := by
  rw [polled, framesOut_poll, served, framesOut_handleFrames, filled_eq]
  rfl

theorem framesOut_drive (h : Handler σ) (c : Connection σ) (socket : Socket) :
    let driven := (drive h c.begun socket).connection
    driven.stats.framesOut = c.stats.framesOut ∨ driven.stats.framesOut = driven.outbox.queued := by
  intro driven
  cases drives h c socket with
  | reading _ _ connection =>
    left
    rw [show driven = _ from connection, filled_eq]
    rfl
  | handling _ _ _ connection =>
    left
    rw [show driven = _ from connection, served, framesOut_handleFrames, filled_eq]
    rfl
  | polling _ _ _ _ connection =>
    left
    rw [show driven = _ from connection, framesOut_polled]
  | writing _ _ _ _ connection =>
    have hwrites := writeOutput_spec (c.polled h socket).outbox socket.acceptances
    rw [show driven = _ from connection, flush_eq]
    simp only [hwrites.queued_eq]
    split
    · exact .inr rfl
    · exact .inl (framesOut_polled h c socket)

theorem framesOut_work (h : Handler σ) (c : Connection σ) (socket : Socket) :
    (c.worked h socket).stats.framesOut = c.stats.framesOut ∨
      (c.worked h socket).stats.framesOut = (c.worked h socket).outbox.queued := by
  rw [worked]
  cases hclosed : c.closed with
  | true =>
    rw [Connection.work, if_pos hclosed]
    exact .inl rfl
  | false =>
    have hdriven := framesOut_drive h c socket
    rw [work_eq h hclosed]
    cases finishes h (Connection.drive h c.begun socket) with
    | goesOn _ _ result | faults _ _ result => rwa [result]
    | closes _ _ _ _ connection =>
      rw [connection]
      unfold Connection.close
      split <;> exact hdriven

theorem framesOut_le {h : Handler σ} (a : h.Account) (s : σ) (limit budget : Nat) (sockets : List Socket) :
    let c := History.final (worked (h.logged a)) (new ⟨s, []⟩ limit budget) sockets
    c.stats.framesOut ≤ c.outbox.queued := by
  refine History.along (fun _ (c : Connection (Logged σ)) => c.stats.framesOut ≤ c.outbox.queued) (Nat.le_refl 0)
    (fun _ c socket hle => ?_) sockets
  obtain ⟨changes, hemits⟩ := emits_work a c socket
  have hqueued := queued_changes changes c.outbox
  rw [← hemits.queued_eq] at hqueued
  rcases framesOut_work (h.logged a) c socket with hsame | hcounted
  · rw [hsame]
    exact hle.trans hqueued
  · exact hcounted.le

theorem length_le_encodeAll (payloads : List Bytes) : payloads.length ≤ (Frame.encodeAll payloads).length := by
  induction payloads with
  | nil => exact Nat.le_refl 0
  | cons payload rest ih =>
    rw [Frame.encodeAll_cons, List.length_append, Frame.length_encode, Frame.headerSize, List.length_cons]
    omega

theorem Counts.bytesOut_le {h : Handler (Logged σ)} {past : List (Moment (Connection (Logged σ)) Socket)}
    {c : Connection (Logged σ)} (hcounts : Counts h past c) :
    c.stats.bytesOut ≤ (Frame.encodeAll c.handler.queued).length := by
  have hstream := hcounts.books.length_eq
  have htaken : ((departures h past).filter (·.taken)).length ≤ (departures h past).length := List.length_filter_le _ _
  rw [hcounts.bytesOut_eq, accepted_eq, List.length_map]
  omega

/-- While fewer than 2^64 bytes could have been read in all units of work, and the frames queued
    have fewer than 2^64 bytes, counters of 64 bits hold what a connection, its decoder and its
    outbox count. -/
theorem counters_fit {h : Handler σ} (a : h.Account) (s : σ) (limit budget : Nat) (sockets : List Socket) :
    let c := History.final (worked (h.logged a)) (new ⟨s, []⟩ limit budget) sockets
    sockets.length * max budget 1 < 2 ^ 64 → (Frame.encodeAll c.handler.queued).length < 2 ^ 64 →
    (c.stats.unitsOfWork < 2 ^ 64 ∧ c.stats.partialReads < 2 ^ 64 ∧ c.stats.bytesIn < 2 ^ 64 ∧
      c.stats.framesIn < 2 ^ 64) ∧
    (c.decoder.frames < 2 ^ 64 ∧ c.decoder.bytes < 2 ^ 64 ∧ c.decoder.rejected < 2 ^ 64) ∧
    c.outbox.queued < 2 ^ 64 ∧ c.stats.framesOut < 2 ^ 64 ∧ c.stats.bytesOut < 2 ^ 64 := by
  intro c hin hout
  have t : Tallied (max budget 1) sockets.length sockets.length c := tallied (h.logged a) ⟨s, []⟩ limit budget sockets
  have hunits : sockets.length ≤ sockets.length * max budget 1 := Nat.le_mul_of_pos_right _ (by omega)
  have hcounts : Counts (h.logged a) _ c := counts a s limit budget sockets
  have hframesOut : c.stats.framesOut ≤ c.outbox.queued := framesOut_le a s limit budget sockets
  have hqueued : c.outbox.queued ≤ _ := hcounts.books.queued_eq.le.trans (length_le_encodeAll c.handler.queued)
  have hbytesOut := hcounts.bytesOut_le
  have htally := t.tally_le
  rw [Decoder.tally, Frame.headerSize] at htally
  have hunitsOfWork := t.unitsOfWork_le
  have hpartialReads := t.partialReads_le
  have hbytesIn := t.bytesIn_le
  have hframesIn := t.framesIn_le
  have hrejected := t.rejected_le
  refine ⟨⟨?_, ?_, ?_, ?_⟩, ⟨?_, ?_, ?_⟩, ?_, ?_, ?_⟩ <;> omega

end MessageBroker.Connection
