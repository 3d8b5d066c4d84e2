/-
  MessageBroker.Proofs.Pool.Containment — a fault costs the pool one connection and nothing else.

  A dispatch with a fault ends early, and its worker goes on as before. Others go on at the same
  time, so what a dispatch does to the counters is what its worker adds to them (`Grows`).
  - `Fate.of_fault`: what is counted of a dispatch depends on the one fault that is.
  - `returns`: a worker that has done with its work is back at the queue after a few turns.
  - `gone_hears_nothing`: a connection that was dropped hears of the pool no more.
  - `faults_contained`: every fault of every dispatch is contained (`Contained`).
-/

import MessageBroker.Proofs.Pool.Courses
import MessageBroker.Proofs.Pool.Draining

namespace MessageBroker.Pool

open History Protocol

variable {ι : Type}

namespace State

/-! ## After a fault -/

section
variable {s : State ι} {w : Nat} {c : ι} {x : Callback} {stage : Stage ι} {front last : List Callback} {t : Tally}
  {part : List (Moment (State ι) (Event ι))}

theorem Course.mem_last (h : Course w c part s stage front last) (raised : (c, x) ∈ said w part)
    (fault : x.isFault = true) : x ∈ last := by
  rw [h.words] at raised
  obtain ⟨y, hy, heq⟩ := List.mem_map.mp raised
  obtain rfl := (Prod.mk.inj heq).2
  rcases List.mem_append.mp hy with hfront | hlast
  · have hplain := h.plain y hfront
    rw [Callback.isLast, fault] at hplain
    cases hplain
  · exact hlast

/-- None of what was said before is counted as a fault. -/
theorem Course.countP_said (h : Course w c part s stage front last) :
    (said w part).countP (·.2.isCounted) = last.countP Callback.isCounted := by
  have hfront : front.countP Callback.isCounted = 0 :=
    List.countP_eq_zero.mpr fun y hy => by simp [Callback.isCounted_of_plain (h.plain y hy)]
  rw [h.words, List.countP_map, List.countP_append]
  simp only [Function.comp_def, hfront, Nat.zero_add]

theorem Standing.after_fault (h : Standing c stage last t) (hx : x ∈ last) :
    stage.toGo ≤ 2 ∧ stage ≠ .exited := by
  cases h with
  | undecided | resubmitting | handing | refused => cases hx
  | spoilt | leaving | back => exact ⟨by simp [Stage.toGo], by simp⟩

theorem Standing.canStep (h : Standing c stage last t) (hx : x ∈ last) (hw : s.stages[w]? = some stage) :
    s.stages[w]? = some .waiting ∨ s.canStep w = true := by
  cases h with
  | undecided | resubmitting | handing | refused => cases hx
  | spoilt | leaving => exact .inr (by simp [State.canStep, hw])
  | back => exact .inl hw

theorem Standing.fate (h : Standing c .waiting last t) : Fate last t := by
  cases h with
  | undecided holds => cases holds
  | back fate => exact fate

/-- Of the faults with which a dispatch ends, those in `close` are not counted. -/
theorem Fate.counted (h : Fate last t) (hx : x ∈ last) : t.workerFaults = last.countP Callback.isCounted := by
  cases h with
  | spoilt spoils =>
    rw [List.countP_cons_of_pos (Callback.isCounted_of_spoils spoils), List.countP_cons_of_neg (by simp)]
    rfl
  | refused => rw [List.countP_cons_of_neg (by simp)]; rfl
  | lostOnTheWayBack | lostOnHandingOver => rfl
  | unharmed => cases hx

/-- What is counted depends on the one fault that is. -/
theorem Fate.of_fault (h : Fate last t) (hx : x ∈ last) (hcounted : x.isCounted = true) : t = Tally.ofFault x := by
  have hnot (reply : Reply) : x ≠ .made .close reply := by
    rintro rfl
    rw [Callback.isCounted_close] at hcounted
    cases hcounted
  cases h with
  | spoilt spoils =>
    rcases List.mem_pair.mp hx with rfl | heq
    · exact (Tally.ofFault_of_spoils spoils).symm
    · exact absurd heq (hnot _)
  | refused => exact absurd (List.mem_singleton.mp hx) (hnot _)
  | lostOnTheWayBack | lostOnHandingOver =>
    obtain rfl := List.mem_singleton.mp hx
    rfl
  | unharmed => cases hx

theorem Fate.of_spoils (h : Fate last t) (hx : x ∈ last) (spoils : x.spoils = true) :
    ∃ reply, last = [x, .made .close reply] := by
  cases h with
  | @spoilt y reply =>
    rcases List.mem_pair.mp hx with rfl | rfl
    · exact ⟨reply, rfl⟩
    · cases spoils
  | refused | lostOnTheWayBack | lostOnHandingOver =>
    obtain rfl := List.mem_singleton.mp hx
    cases spoils
  | unharmed => cases hx

def turns (w : Nat) (events : List (Event ι)) : Nat :=
  events.countP fun e => match e with
    | .worker v _ => v == w
    | _ => false

theorem turns_cons_other {e : Event ι} (he : ¬∃ reply, e = .worker w reply) (events : List (Event ι)) :
    turns w (e :: events) = turns w events := by
  apply List.countP_cons_of_neg
  cases e with
  | worker v reply => exact fun hv => he ⟨reply, by rw [beq_iff_eq.mp hv]⟩
  | _ => exact Bool.false_ne_true

theorem turns_cons_own (w : Nat) (reply : Reply) (events : List (Event ι)) :
    turns w (.worker w reply :: events) = turns w events + 1 := by
  simp [turns]

theorem stays_until_turn {events : List (Event ι)} (hw : s.stages[w]? = some stage) (hrest : stage.atWork = false)
    (hturns : turns w events = 0) : (final State.next s events).stages[w]? = some stage := by
  induction events generalizing s with
  | nil => exact hw
  | cons e events ih =>
    have hother : ¬∃ reply, e = .worker w reply := by
      rintro ⟨reply, rfl⟩
      rw [turns_cons_own] at hturns
      cases hturns
    rw [turns_cons_other hother] at hturns
    exact ih (stage_stays hw hrest fun reply h => hother ⟨reply, h⟩) hturns

/-- A worker that has done with its work is back at the queue after as many turns as it has
    to go. -/
theorem returns {after : List (Event ι)} (hw : s.stages[w]? = some stage) (hdone : stage.toGo ≤ 3)
    (halive : stage ≠ .exited) (hturns : stage.toGo ≤ turns w after) :
    ∃ rest more, after = rest ++ more ∧ (final State.next s rest).stages[w]? = some .waiting ∧
      ∀ m ∈ moments State.next s rest, m.before.stages[w]? ≠ some .waiting := by
  -- by induction on the events: a turn of its own brings the worker nearer, others leave it
  induction after generalizing s stage with
  | nil =>
    have hback : stage = .waiting := by
      cases stage with
      | waiting => rfl
      | exited => exact absurd rfl halive
      | _ => cases hturns
    exact ⟨[], [], rfl, hback ▸ hw, nofun⟩
  | cons e after ih =>
    by_cases hback : stage = .waiting
    · exact ⟨[], e :: after, rfl, hback ▸ hw, nofun⟩
    have hrest : stage.atWork = false := by
      cases hwork : stage.atWork with
      | false => rfl
      | true =>
        have := Stage.toGo_of_atWork.mp hwork
        omega
    have hcons {next : Stage ι} (hnext : (s.next e).stages[w]? = some next) (hdone' : next.toGo ≤ 3)
        (halive' : next ≠ .exited) (hturns' : next.toGo ≤ turns w after) :
        ∃ rest more, e :: after = rest ++ more ∧ (final State.next s rest).stages[w]? = some .waiting ∧
          ∀ m ∈ moments State.next s rest, m.before.stages[w]? ≠ some .waiting := by
      obtain ⟨rest, more, rfl, hfinal, hbusy⟩ := ih hnext hdone' halive' hturns'
      refine ⟨e :: rest, more, rfl, hfinal, fun m hm => ?_⟩
      rcases List.mem_cons.mp hm with rfl | hm
      · rw [hw]
        exact fun h => hback (Option.some.inj h)
      · exact hbusy m hm
    by_cases hown : ∃ reply, e = .worker w reply
    · obtain ⟨reply, rfl⟩ := hown
      obtain ⟨next, s', hm, hnext⟩ := stage_moves hw reply
      have hpos : 0 < stage.toGo := by
        cases stage with
        | waiting => exact absurd rfl hback
        | exited => exact absurd rfl halive
        | _ => exact Nat.succ_pos _
      have hnearer := hm.toGo hpos
      rw [turns_cons_own] at hturns
      rw [hrest] at hnearer
      simp only [Bool.not_false, Bool.toNat_true] at hnearer
      refine hcons hnext (by omega) ?_ (by omega)
      rintro rfl
      cases hm with
      | exit => exact hback rfl
      | gone => exact halive rfl
    · rw [turns_cons_other hown] at hturns
      exact hcons (stage_stays hw hrest fun reply h => hown ⟨reply, h⟩) hdone halive hturns

theorem Dispatch.append {more : List (Moment (State ι) (Event ι))} (h : Dispatch w c part)
    (hbusy : ∀ m ∈ more, m.before.stages[w]? ≠ some .waiting) : Dispatch w c (part ++ more) := by
  cases part with
  | nil => exact h.elim
  | cons m rest => exact ⟨h.1, fun m' hm' => (List.mem_append.mp hm').elim (h.2 m') (hbusy m')⟩

end

/-! ## A connection that is gone -/

section
variable [DecidableEq ι] {s : State ι} {e : Event ι} {c : ι} {x : Callback}

omit [DecidableEq ι] in
theorem kept_of_callbacks (h : (c, x) ∈ callbacks ⟨s, e⟩) : c ∈ s.kept ∨ c ∈ offered ⟨s, e⟩ := by
  cases e with
  | schedule d reply =>
    right
    simp only [callbacks, calls] at h
    split at h
    · obtain ⟨rfl, -⟩ := Prod.mk.inj (List.mem_singleton.mp h)
      exact List.mem_cons_self
    · cases h
  | worker w reply =>
    left
    cases hw : s.stages[w]? with
    | none => simp [callbacks, calls, nextCall, hw] at h
    | some stage =>
      rw [callbacks_worker hw, Stage.callbacks] at h
      obtain ⟨d, hd, hin⟩ := List.mem_flatMap.mp h
      obtain ⟨y, -, heq⟩ := List.mem_map.mp hin
      obtain rfl := (Prod.mk.inj heq).1
      exact mem_kept_of_held hw (Option.mem_toList.mp hd)
  | misread | beginStop | callClose | caller => cases h

omit [DecidableEq ι] in
theorem kept_of_next (h : c ∈ (s.next e).kept) : c ∈ s.kept ∨ c ∈ offered ⟨s, e⟩ := by
  cases e with
  | schedule d reply =>
    rcases s.schedule_cases d reply with ⟨-, hs⟩ | ⟨-, fault, rfl, hs⟩ | ⟨hopen, b, rfl, hs⟩
    · rw [State.next, hs] at h
      exact .inl h
    · rw [State.next, hs] at h
      exact .inl h
    · have hperm := s.kept_schedule d b
      rw [if_pos hopen] at hperm
      rcases List.mem_cons.mp (hperm.mem_iff.mp h) with rfl | hin
      · exact .inr List.mem_cons_self
      · exact .inl hin
  | worker w reply => exact .inl ((s.kept_step w reply).mem_iff.mpr (List.mem_append_left _ h))
  | misread w busy => exact .inl ((s.kept_misread w busy).mem_iff.mpr h)
  | beginStop w => exact .inl ((s.kept_beginStop w).mem_iff.mpr h)
  | callClose => exact .inl h
  | caller i => exact .inl ((s.kept_stepCaller i) ▸ h)

theorem away_hears_nothing (hkept : c ∉ s.kept) {events : List (Event ι)}
    (hoffered : ∀ m ∈ moments State.next s events, c ∉ offered m) :
    c ∉ (final State.next s events).kept ∧ heard c (moments State.next s events) = [] := by
  have hrun := along (fun past t => (∀ m ∈ past, c ∉ offered m) → c ∉ t.kept ∧ heard c past = [])
    (s := s) (fun _ => ⟨hkept, rfl⟩) (fun past t e ih hpast => by
      obtain ⟨haway, hsilent⟩ := ih fun m hm => hpast m (List.mem_append_left _ hm)
      have hnow := hpast ⟨t, e⟩ (List.mem_append_right _ List.mem_cons_self)
      refine ⟨fun hin => (kept_of_next hin).elim haway hnow, ?_⟩
      rw [heard_snoc, hsilent, List.nil_append, List.eq_nil_iff_forall_not_mem]
      intro x hx
      obtain ⟨m, hm, hin⟩ := mem_heard.mp hx
      obtain rfl := List.mem_singleton.mp hm
      exact (kept_of_callbacks hin).elim haway hnow) events
  exact hrun hoffered

omit [DecidableEq ι] in
theorem Owned.of_append {past later : List (Moment (State ι) (Event ι))} (h : Owned (past ++ later)) :
    Owned past where
  apart m hm := h.apart m (List.mem_append_left _ hm)
  alive := (List.pairwise_append.mp h.alive).1

omit [DecidableEq ι] in
theorem Owned.not_offered {past later : List (Moment (State ι) (Event ι))} {m : Moment (State ι) (Event ι)}
    (h : Owned (past ++ later)) (hm : m ∈ past) (hdead : c ∈ dropped m) : ∀ m' ∈ later, c ∉ offered m' :=
  fun m' hm' hc => (List.pairwise_append.mp h.alive).2.2 m hm m' hm' c hc hdead

omit [DecidableEq ι] in
theorem not_kept_of_dropped (hn : s.kept.Nodup) (howned : ∀ d ∈ offered ⟨s, e⟩, d ∉ s.kept)
    (h : c ∈ dropped ⟨s, e⟩) : c ∉ (s.next e).kept := by
  cases e with
  | schedule d reply =>
    cases reply with
    | returned b => cases h
    | raised fault =>
      simp only [dropped] at h
      split at h
      · rename_i hopen
        obtain rfl := List.mem_singleton.mp h
        simpa [State.next, schedule, hopen] using howned c List.mem_cons_self
      · cases h
  | worker w reply =>
    cases hw : s.stages[w]? with
    | none => simp [dropped, hw] at h
    | some stage =>
      obtain ⟨after, s', hm, hs⟩ := step_moves hw reply
      rw [State.next, hs]
      have hdrops : stage.drops s.isOpen reply = some c := by simpa [dropped, hw] using h
      exact not_kept_of_letsGo hn hw hm (Stage.letsGo_of_drops hdrops)
  | misread | beginStop | callClose | caller => cases h

/-- A connection that is dropped is out of the pool for good, and hears nothing more. -/
theorem gone_hears_nothing {size : Nat} {before after : List (Event ι)} {m : Moment (State ι) (Event ι)}
    (owned : Owned (moments State.next (ofSize size) (before ++ after)))
    (hm : m ∈ moments State.next (ofSize size) before) (hdead : c ∈ dropped m) :
    c ∉ (final State.next (ofSize size) before).kept ∧
      heard c (moments State.next (final State.next (ofSize size) before) after) = [] := by
  rw [moments_append] at owned
  have hnever := owned.not_offered hm hdead
  obtain ⟨past, later, hsplit⟩ := List.append_of_mem hm
  obtain ⟨first, rest, rfl, rfl, hbefore, rfl⟩ := moments_split hsplit
  have howned := owned.of_append
  rw [hsplit] at howned
  -- it is out of the pool when it is dropped, and is not offered again
  have hgone : c ∉ (m.before.next m.event).kept := by
    refine not_kept_of_dropped ?_ (howned.apart m (List.mem_append_right _ List.mem_cons_self)) hdead
    exact hbefore ▸ (told howned.of_append).1
  rw [← List.singleton_append, ← List.append_assoc] at howned
  have hout := (away_hears_nothing hgone
    (howned.not_offered (List.mem_append_right _ List.mem_cons_self) hdead)).1
  have hfinal : final State.next (ofSize size) (first ++ m.event :: rest) =
      final State.next (m.before.next m.event) rest := by
    rw [final_append, hbefore]
    rfl
  rw [← hfinal] at hout
  exact ⟨hout, (away_hears_nothing hout hnever).2⟩

end

/-! ## Every dispatch with a fault -/

/-- What a dispatch of `c` by worker `w` has come to in which the worker said `x`, a fault,
    when the worker is back at the queue. The dispatch is `during`, from `s`; `all` are the
    moments of the run and `later` those after the dispatch. -/
structure Contained [DecidableEq ι] (s : State ι) (during : List (Event ι)) (w : Nat) (c : ι) (x : Callback)
    (all later : List (Moment (State ι) (Event ι))) : Prop where
  /-- The worker waits until it is its turn, whatever others do meanwhile, and takes the
      connection that is first on the queue then. -/
  goesOn : ∀ meanwhile, turns w meanwhile = 0 → (final State.next s (during ++ meanwhile)).queue ≠ [] →
    ∀ reply, ∃ d, Takes (final State.next s (during ++ meanwhile)) (.worker w reply) w d
  gauge : Grows (·.occupancy) 0 w s during
  /-- All faults but those in `close` are counted. -/
  counted : Grows (·.workerFaults) ((said w (moments State.next s during)).countP (·.2.isCounted)) w s during
  once : x.isClose = false → Grows (·.workerFaults) 1 w s during
  /-- Upon a fault in work, in a question or in other news the connection is closed. -/
  closed : x.spoils = true →
    (∃ front reply, said w (moments State.next s during) = (front ++ [x, .made .close reply]).map (c, ·)) ∧
      (heard c all).countP Callback.isClose = 1 ∧
      Grows (·.closed) 1 w s during ∧ Grows (·.handedBack) 0 w s during ∧ Grows (·.resubmits) 0 w s during
  /-- A fault on the way to the detector or to the queue loses it. -/
  lost : (∀ fault, x = .made .handOver (.raised fault) →
      Grows (·.closed) 0 w s during ∧ Grows (·.handedBack) 1 w s during ∧ Grows (·.resubmits) 0 w s during) ∧
    (∀ fault, x = .made (.notify .queued) (.raised fault) →
      Grows (·.closed) 0 w s during ∧ Grows (·.handedBack) 0 w s during ∧ Grows (·.resubmits) 1 w s during)
  /-- The connection is dropped, is not in the pool any more, and hears of it no more. -/
  gone : (∃ m ∈ moments State.next s during, c ∈ dropped m) ∧ c ∉ (final State.next s during).kept ∧
    heard c later = []

section
variable [DecidableEq ι] {size : Nat} {before during after : List (Event ι)} {s : State ι} {w : Nat} {c : ι}
  {x : Callback} {stage : Stage ι} {front last : List Callback}

omit [DecidableEq ι] in
theorem callbacks_of_said {part : List (Moment (State ι) (Event ι))} (h : (c, x) ∈ said w part) :
    ∃ m ∈ part, (c, x) ∈ callbacks m := by
  obtain ⟨m, hm, hin⟩ := List.mem_flatMap.mp h
  exact ⟨m, (List.mem_filter.mp hm).1, hin⟩

theorem closed_once {events : List (Event ι)} (owned : Owned (moments State.next (ofSize size) events))
    {m : Moment (State ι) (Event ι)} (hm : m ∈ moments State.next (ofSize size) events)
    (hclosed : (c, x) ∈ callbacks m) (hx : x.isClose = true) :
    (heard c (moments State.next (ofSize size) events)).countP Callback.isClose = 1 := by
  obtain ⟨word, hword, hprefix⟩ := ((told owned).2 c).begins_word
  have hmost := hprefix.sublist.countP_le.trans (countP_close_le hword)
  have hsome := List.countP_pos_iff.mpr ⟨x, mem_heard.mpr ⟨m, hm, hclosed⟩, hx⟩
  omega

omit [DecidableEq ι] in
theorem Course.grows (h : Course w c (moments State.next s during) (final State.next s during) .waiting front last)
    (hlast : x ∈ last) (hcounted : x.isCounted = true) (f : Metrics → Nat) (g : Tally → Int) (n : Nat)
    (hf : share f w (moments State.next s during) = g (tally w (moments State.next s during)))
    (hg : g (Tally.ofFault x) = n) : Grows f n w s during :=
  grows_of_share (by rw [hf, h.standing.fate.of_fault hlast hcounted, hg])

/-- A dispatch with a fault whose worker is back at the queue. -/
theorem Course.contained (h : Course w c (moments State.next s during) (final State.next s during) .waiting front last)
    (hs : s = final State.next (ofSize size) before)
    (owned : Owned (moments State.next (ofSize size) (before ++ during ++ after)))
    (raised : (c, x) ∈ said w (moments State.next s during)) (fault : x.isFault = true) :
    Contained s during w c x (moments State.next (ofSize size) (before ++ during ++ after))
      (moments State.next (final State.next s during) after) := by
  have hlast := h.mem_last raised fault
  have hfate := h.standing.fate
  have howned : Owned (moments State.next (ofSize size) (before ++ during)) := by
    rw [moments_append] at owned
    exact owned.of_append
  have hpart : ∀ m ∈ moments State.next s during, m ∈ moments State.next (ofSize size) (before ++ during) := by
    intro m hm
    rw [moments_append, ← hs]
    exact List.mem_append_right _ hm
  have hend : final State.next (ofSize size) (before ++ during) = final State.next s during := by
    rw [final_append, hs]
  refine ⟨?_, ?_, ?_, ?_, ?_, ⟨?_, ?_⟩, ?_⟩
  · intro meanwhile hturns hne reply
    have hwaits := stays_until_turn h.place rfl hturns
    rw [← final_append] at hwaits
    exact takes_of_waiting hwaits hne reply
  · exact grows_of_share h.gauge
  · apply grows_of_share
    rw [h.countP_said]
    exact hfate.counted hlast
  · intro hclose
    have hcounted : x.isCounted = true := by rw [Callback.isCounted, fault, hclose]; rfl
    refine h.grows hlast hcounted (·.workerFaults) (·.workerFaults) 1 rfl ?_
    exact Tally.ofFault_workerFaults x
  · intro spoils
    have hcounted := Callback.isCounted_of_spoils spoils
    have hcost := Tally.ofFault_of_spoils spoils
    obtain ⟨reply, rfl⟩ := hfate.of_spoils hlast spoils
    refine ⟨⟨front, reply, h.words⟩, ?_, ?_, ?_, ?_⟩
    · have hsaid : (c, .made .close reply) ∈ said w (moments State.next s during) := by
        rw [h.words]
        simp
      obtain ⟨m, hm, hclosed⟩ := callbacks_of_said hsaid
      refine closed_once owned ?_ hclosed rfl
      rw [moments_append]
      exact List.mem_append_left _ (hpart m hm)
    · exact h.grows hlast hcounted (·.closed) (·.closed) 1 rfl (by rw [hcost]; rfl)
    · exact h.grows hlast hcounted (·.handedBack) (·.handedBack) 0 rfl (by rw [hcost]; rfl)
    · exact h.grows hlast hcounted (·.resubmits) (·.resubmits) 0 rfl (by rw [hcost]; rfl)
  · rintro fault rfl
    refine ⟨?_, ?_, ?_⟩
    · exact h.grows hlast rfl (·.closed) (·.closed) 0 rfl rfl
    · exact h.grows hlast rfl (·.handedBack) (·.handedBack) 1 rfl rfl
    · exact h.grows hlast rfl (·.resubmits) (·.resubmits) 0 rfl rfl
  · rintro fault rfl
    refine ⟨?_, ?_, ?_⟩
    · exact h.grows hlast rfl (·.closed) (·.closed) 0 rfl rfl
    · exact h.grows hlast rfl (·.handedBack) (·.handedBack) 0 rfl rfl
    · exact h.grows hlast rfl (·.resubmits) (·.resubmits) 1 rfl rfl
  · obtain ⟨m, hm, hdead⟩ := h.gone rfl (List.ne_nil_of_mem hlast)
    refine ⟨⟨m, hm, hdead⟩, ?_⟩
    rw [← hend]
    exact gone_hears_nothing owned (hpart m hm) hdead

/-- Of every run of a pool of any size in which each connection has one owner, however the
    connections and the detector answer and fault, and whatever others do meanwhile. Let
    worker `w` take `c` and make `during` a dispatch of it, at its end or not yet, in which
    a call faults. The worker is at the queue, or it is not blocked and back there within
    two turns of its own; and when it is back, the fault is contained. -/
theorem faults_contained (size : Nat) (before during after : List (Event ι)) {w : Nat} {c : ι} {x : Callback}
    (owned : Owned (moments State.next (ofSize size) (before ++ during ++ after)))
    (dispatch : Dispatch w c (moments State.next (final State.next (ofSize size) before) during))
    (raised : (c, x) ∈ said w (moments State.next (final State.next (ofSize size) before) during))
    (fault : x.isFault = true) :
    let s := final State.next (ofSize size) before
    let t := final State.next s during
    (t.stages[w]? = some .waiting ∨ t.canStep w = true) ∧
    (2 ≤ turns w after → ∃ rest more, after = rest ++ more ∧
      Dispatch w c (moments State.next s (during ++ rest)) ∧
      (final State.next s (during ++ rest)).stages[w]? = some .waiting) ∧
    (t.stages[w]? = some .waiting →
      Contained s during w c x (moments State.next (ofSize size) (before ++ during ++ after))
        (moments State.next t after)) := by
  intro s t
  obtain ⟨stage, front, last, h⟩ := dispatch_course rfl dispatch
  obtain ⟨hnear, halive⟩ := h.standing.after_fault (h.mem_last raised fault)
  refine ⟨?_, fun hturns => ?_, fun hback => ?_⟩
  · exact h.standing.canStep (h.mem_last raised fault) h.place
  · obtain ⟨rest, more, rfl, hfinal, hbusy⟩ := returns h.place (by omega) halive (hnear.trans hturns)
    refine ⟨rest, more, rfl, ?_, ?_⟩
    · rw [moments_append]
      exact dispatch.append hbusy
    · rw [final_append]
      exact hfinal
  · obtain rfl := Option.some.inj (h.place.symm.trans hback)
    exact h.contained rfl owned raised fault

end

/-- A pool of two workers, of which the second is in a unit of work on connection 1. The first
    takes connection 0, which does its work and faults when it is asked whether its state
    changed, and again while it is closed. Meanwhile connection 2 is queued and connection 1
    ends. The worker is back and takes connection 2. -/
theorem question_and_close_fault :
    let yes : Reply := .returned true
    let no : Reply := .returned false
    let bad : Reply := .raised .untold
    let before : List (Event Nat) :=
      [.schedule 1 yes, .schedule 0 yes, .worker 1 yes, .worker 1 yes, .worker 1 yes]
    let during : List (Event Nat) :=
      [.worker 0 yes, .worker 0 yes, .worker 0 yes, .schedule 2 yes, .worker 0 no, .worker 0 bad, .worker 1 yes,
        .worker 0 bad, .worker 0 yes]
    let after : List (Event Nat) := [.worker 0 yes, .worker 0 yes]
    let s := final State.next (ofSize 2) before
    let t := final State.next s during
    let all := moments State.next (ofSize 2) (before ++ during ++ after)
    Owned all ∧ Dispatch 0 0 (moments State.next s during) ∧
    (0, .made .changed bad) ∈ said 0 (moments State.next s during) ∧ t.stages[0]? = some .waiting ∧
    (∃ d, Takes t (.worker 0 yes) 0 d) ∧ (heard 0 all).countP Callback.isClose = 1 ∧
    Grows (·.workerFaults) 1 0 s during ∧
    s.metrics.occupancy = 1 ∧ t.metrics.occupancy = 1 ∧ t.metrics.workerFaults = 1 ∧ t.metrics.closed = 2 := by
  intro yes no bad before during after s t all
  have owned : Owned all := by decide
  have dispatch : Dispatch 0 0 (moments State.next s during) :=
    ⟨⟨⟨yes, rfl⟩, rfl, rfl, rfl⟩, by decide⟩
  have raised : (0, .made .changed bad) ∈ said 0 (moments State.next s during) := by decide
  have back : t.stages[0]? = some .waiting := by decide
  have contained := (faults_contained 2 before during after owned dispatch raised rfl).2.2 back
  refine ⟨owned, dispatch, raised, back, contained.goesOn [] rfl (by decide) yes, ?_, ?_, ?_⟩
  · exact (contained.closed rfl).2.1
  · exact contained.once rfl
  · decide

end State

end MessageBroker.Pool
