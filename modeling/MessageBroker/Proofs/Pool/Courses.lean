/-
  MessageBroker.Proofs.Pool.Courses — the course of one dispatch.

  From the moment that a worker takes a connection until it is back at the queue it makes a
  dispatch. A fault in whatever the worker calls meanwhile ends the dispatch: what has not left
  the worker is closed, what is on its way to the queue or the detector is lost, and the worker
  goes back.
  - `Standing`, `Fate`: how a dispatch stands, by the stage of its worker, and how it has ended;
    `Moves.standing` is the step.
  - `Course`: the same of a dispatch as a whole, with the gauge; kept by every event (`Course.next`).
  - `dispatch_course`: every dispatch takes its course.
-/

import MessageBroker.Proofs.Pool.Progress
import MessageBroker.Proofs.Pool.Shares

namespace MessageBroker.Pool

open History Protocol

variable {ι : Type}

namespace Callback

def isFault : Callback → Bool
  | .made _ (.raised _) | .workEnds (.raised _) => true
  | _ => false

def spoils : Callback → Bool
  | .made (.notify .running) (.raised _) | .workEnds (.raised _) | .made .changed (.raised _)
  | .made .partialRead (.raised _) | .made (.notify .awaitingReadiness) (.raised _) => true
  | _ => false

/-- After it nothing is said but a close. -/
def isLast (x : Callback) : Bool := x.isFault || x.isClose

/-- A fault that a worker counts: one in `close` is swallowed. -/
def isCounted (x : Callback) : Bool := x.isFault && !x.isClose

@[simp] theorem isCounted_close (reply : Reply) : (Callback.made .close reply).isCounted = false :=
  Bool.and_false _

theorem isCounted_of_spoils {x : Callback} (h : x.spoils = true) : x.isCounted = true := by
  unfold spoils at h
  split at h <;> first | rfl | cases h

/-- What is counted is said last. -/
theorem isCounted_of_plain {x : Callback} (h : x.isLast = false) : x.isCounted = false := by
  rw [isCounted, (Bool.or_eq_false_iff.mp h).1]
  rfl

end Callback

def Stage.undecided : Stage ι → Bool
  | .arriving _ | .starting _ | .working _ | .stopping _ _ | .askingChanged _ | .askingPartial _ | .deciding _
  | .parking _ => true
  | _ => false

theorem Stage.tells_returned {stage : Stage ι} {isOpen b : Bool} (h : ∀ c, stage ≠ .closing c) :
    ∀ x ∈ stage.tells isOpen (.returned b), x.isLast = false := by
  intro x hx
  cases stage with
  | closing c => exact absurd rfl (h c)
  | resubmitting c =>
    cases isOpen with
    | true => exact List.mem_singleton.mp hx ▸ rfl
    | false => cases hx
  | waiting | stopping | deciding | leaving | exited => cases hx
  | _ => exact List.mem_singleton.mp hx ▸ rfl

namespace State

/-! ## How a dispatch stands -/

/-- The tally with the fault that a worker still has to count. -/
def Tally.due (t : Tally) (fault : Option Fault) : Tally :=
  { t with workerFaults := t.workerFaults + fault.isSome.toNat }

/-- What a worker counts of a dispatch with a fault elsewhere than in `close`. -/
def Tally.ofFault : Callback → Tally
  | .made (.notify .queued) _ => { resubmits := 1, workerFaults := 1 }
  | .made .handOver _ => { handedBack := 1, workerFaults := 1 }
  | _ => { closed := 1, workerFaults := 1 }

theorem Tally.ofFault_of_spoils {x : Callback} (h : x.spoils = true) :
    Tally.ofFault x = { closed := 1, workerFaults := 1 } := by
  unfold Callback.spoils at h
  split at h <;> first | rfl | cases h

@[simp] theorem Tally.ofFault_workerFaults (x : Callback) : (Tally.ofFault x).workerFaults = 1 := by
  unfold Tally.ofFault
  split <;> rfl

/-- What a dispatch comes to, by what was said last. Without a fault this may be anything. -/
inductive Fate : List Callback → Tally → Prop
  | spoilt {x : Callback} {reply : Reply} (spoils : x.spoils = true) :
      Fate [x, .made .close reply] { closed := 1, workerFaults := 1 }
  | refused {reply : Reply} : Fate [.made .close reply] { closed := 1, resubmits := 1 }
  | lostOnTheWayBack {fault : Fault} :
      Fate [.made (.notify .queued) (.raised fault)] { resubmits := 1, workerFaults := 1 }
  | lostOnHandingOver {fault : Fault} : Fate [.made .handOver (.raised fault)] { handedBack := 1, workerFaults := 1 }
  | unharmed {t : Tally} : Fate [] t

/-- How the dispatch of `c` stands while its worker is at a stage: what was said last, and what
    was counted. -/
inductive Standing (c : ι) : Stage ι → List Callback → Tally → Prop
  | undecided {stage : Stage ι} (holds : stage.held = some c) (undecided : stage.undecided = true) :
      Standing c stage [] {}
  | resubmitting : Standing c (.resubmitting c) [] { resubmits := 1 }
  | handing : Standing c (.handing c) [] { handedBack := 1 }
  | spoilt {x : Callback} (spoils : x.spoils = true) : Standing c (.closing c) [x] { workerFaults := 1 }
  | refused : Standing c (.closing c) [] { resubmits := 1 }
  | leaving {fault : Option Fault} {last : List Callback} {t : Tally} (fate : Fate last (t.due fault)) :
      Standing c (.leaving fault) last t
  | back {last : List Callback} {t : Tally} (fate : Fate last t) : Standing c .waiting last t

section
variable {s s' : State ι} {w : Nat} {reply : Reply} {stage next : Stage ι} {c : ι} {last : List Callback} {t : Tally}

/-- While nothing is decided, a worker says nothing in particular until it decides, or it says
    a fault upon which it closes the connection next. -/
theorem Moves.standing_undecided (hm : Moves s w reply stage next s') (hheld : stage.held = some c)
    (hundecided : stage.undecided = true) :
    ∃ last, Standing c next last (({} : Tally).after s.metrics s'.metrics) ∧
      (last = stage.tells s.isOpen reply ∧ next.held = some c ∨
        last = [] ∧ ∀ x ∈ stage.tells s.isOpen reply, x.isLast = false) := by
  cases hm with
  | take | wait | exit | leave | leaveFault | gone => cases hheld
  | enqueue | enqueueFault | refuse | hand | handFault | close | closeFault => cases hundecided
  | stopFurther further | stopped further =>
    refine ⟨[], ?_, .inr ⟨rfl, fun x hx => by cases hx⟩⟩
    rw [metrics_of_stepClosing further, Tally.after_self]
    exact .undecided hheld rfl
  | start =>
    refine ⟨[], ?_, .inr ⟨rfl, fun x hx => List.mem_singleton.mp hx ▸ rfl⟩⟩
    rw [Tally.after_self]
    exact .undecided hheld rfl
  | arrive | pause | changed | unchanged | partialRead | idle =>
    refine ⟨[], ?_, .inr ⟨rfl, Stage.tells_returned (by simp)⟩⟩
    rw [Tally.after_self]
    exact .undecided hheld rfl
  | rerun =>
    refine ⟨[], ?_, .inr ⟨rfl, fun x hx => by cases hx⟩⟩
    have hstarting : Standing c (.starting _) [] {} := .undecided hheld rfl
    simpa [Tally.after, record, Metrics.record] using hstarting
  | finish => exact ⟨[], .leaving .unharmed, .inr ⟨rfl, Stage.tells_returned (by simp)⟩⟩
  | resubmit =>
    cases hheld
    refine ⟨[], ?_, .inr ⟨rfl, fun x hx => by cases hx⟩⟩
    simpa [Tally.after, record, Metrics.record] using Standing.resubmitting
  | park =>
    cases hheld
    refine ⟨[], ?_, .inr ⟨rfl, Stage.tells_returned (by simp)⟩⟩
    simpa [Tally.after, record, Metrics.record] using Standing.handing
  | arriveFault | unitFault | changedFault | partialFault | parkFault =>
    cases hheld
    refine ⟨_, ?_, .inl ⟨rfl, rfl⟩⟩
    simpa [Tally.after, caught, record, report, Metrics.record, Stage.tells] using Standing.spoilt rfl

/-- A worker goes on. What it says comes after what was said last, and if the connection is
    gone then, the worker has dropped it; or it says nothing in particular. -/
theorem Moves.standing (hm : Moves s w reply stage next s') (h : Standing c stage last t) (hbusy : stage ≠ .waiting) :
    ∃ last', Standing c next last' (t.after s.metrics s'.metrics) ∧
      (last' = last ++ stage.tells s.isOpen reply ∧
          (next.held = none → stage.held = none ∨ stage.drops s.isOpen reply = some c) ∨
        last = [] ∧ last' = [] ∧ ∀ x ∈ stage.tells s.isOpen reply, x.isLast = false) := by
  cases h with
  | undecided holds undecided =>
    obtain ⟨last', hstanding, ⟨hlast, hholds⟩ | ⟨hlast, hplain⟩⟩ := hm.standing_undecided holds undecided
    · refine ⟨last', hstanding, .inl ⟨hlast, fun hgone => ?_⟩⟩
      rw [hholds] at hgone
      cases hgone
    · exact ⟨last', hstanding, .inr ⟨rfl, hlast, hplain⟩⟩
  | resubmitting =>
    cases hm with
    | enqueue => exact ⟨[], .leaving .unharmed, .inr ⟨rfl, rfl, Stage.tells_returned (by simp)⟩⟩
    | enqueueFault isOpen =>
      refine ⟨_, ?_, .inl ⟨rfl, fun _ => .inr (by rw [isOpen]; rfl)⟩⟩
      rw [Tally.after_self, Stage.tells, isOpen]
      exact .leaving .lostOnTheWayBack
    | refuse closed =>
      refine ⟨[], ?_, .inl ⟨by rw [Stage.tells, closed]; rfl, fun hgone => by cases hgone⟩⟩
      simpa [Tally.after, record, Metrics.record] using Standing.refused
  | handing =>
    cases hm with
    | hand => exact ⟨[], .leaving .unharmed, .inr ⟨rfl, rfl, Stage.tells_returned (by simp)⟩⟩
    | handFault =>
      refine ⟨_, ?_, .inl ⟨rfl, fun _ => .inr rfl⟩⟩
      rw [Tally.after_self]
      exact .leaving .lostOnHandingOver
  | spoilt spoils =>
    cases hm with
    | close | closeFault =>
      refine ⟨_, .leaving ?_, .inl ⟨rfl, fun _ => .inr rfl⟩⟩
      simpa [Tally.after, Tally.due, record, report, Metrics.record, Stage.tells] using Fate.spoilt spoils
  | refused =>
    cases hm with
    | close | closeFault =>
      refine ⟨_, .leaving ?_, .inl ⟨rfl, fun _ => .inr rfl⟩⟩
      simpa [Tally.after, Tally.due, record, report, Metrics.record, Stage.tells] using Fate.refused
  | leaving fate =>
    cases hm with
    | leave | leaveFault =>
      refine ⟨last, ?_, .inl ⟨(List.append_nil last).symm, fun _ => .inl rfl⟩⟩
      simpa [Tally.after, Tally.due, caught, record, report, Metrics.record, Metrics.leave] using Standing.back fate
  | back => exact absurd rfl hbusy

end

/-! ## A dispatch as a whole -/

/-- Worker `w` takes `c` in the first moment, and is not at the queue in any other. -/
def Dispatch (w : Nat) (c : ι) : List (Moment (State ι) (Event ι)) → Prop
  | [] => False
  | m :: rest => Takes m.before m.event w c ∧ ∀ m' ∈ rest, m'.before.stages[w]? ≠ some .waiting

/-- The dispatch of `c` by worker `w`, which is at `stage` now: what it said was `front` and
    then `last`, and none of `front` was a fault or a close. -/
structure Course (w : Nat) (c : ι) (part : List (Moment (State ι) (Event ι))) (s : State ι) (stage : Stage ι)
    (front last : List Callback) : Prop where
  place : s.stages[w]? = some stage
  words : said w part = (front ++ last).map (c, ·)
  plain : ∀ y ∈ front, y.isLast = false
  standing : Standing c stage last (tally w part)
  gauge : share (·.occupancy) w part = stage.dispatching.toNat
  /-- A connection that is gone after a fault or a close has been dropped. -/
  gone : stage.held = none → last ≠ [] → ∃ m ∈ part, c ∈ dropped m

section
variable {s s' : State ι} {w : Nat} {c : ι} {reply : Reply} {stage after : Stage ι} {front last : List Callback}
  {t : Tally} {size : Nat} {past part : List (Moment (State ι) (Event ι))} {e : Event ι}

theorem Standing.callbacks_eq (h : Standing c stage last t) (isOpen : Bool) (reply : Reply) :
    stage.callbacks isOpen reply = (stage.tells isOpen reply).map (c, ·) := by
  cases h with
  | undecided holds => simp [Stage.callbacks, holds]
  | _ => simp [Stage.callbacks, Stage.held, Stage.tells]

theorem Standing.tells_nil (h : Standing c stage last t) (hheld : stage.held = none) (isOpen : Bool) (reply : Reply) :
    stage.tells isOpen reply = [] := by
  cases h with
  | undecided holds =>
    rw [holds] at hheld
    cases hheld
  | leaving | back => rfl
  | _ => cases hheld

theorem Standing.stopping {d : ι} (h : Standing c (.working d) last t) (point : Closing) :
    Standing c (.stopping d point) last t := by
  cases h with
  | undecided holds => exact .undecided holds rfl

/-- A moment in which nothing is said and nothing counted. -/
theorem Course.still (h : Course w c part s stage front last) (place : (s.next e).stages[w]? = some stage)
    (silent : said w [⟨s, e⟩] = []) (uncounted : ∀ f, share f w [⟨s, e⟩] = 0) :
    Course w c (part ++ [⟨s, e⟩]) (s.next e) stage front last where
  place := place
  words := by rw [said_snoc, silent, List.append_nil, h.words]
  plain := h.plain
  standing := by
    have hsame : tally w (part ++ [⟨s, e⟩]) = tally w part := by
      simp only [tally, share_snoc, uncounted, add_zero]
    exact hsame ▸ h.standing
  gauge := by rw [share_snoc, uncounted, add_zero, h.gauge]
  gone hheld hlast := by
    obtain ⟨m, hm, hc⟩ := h.gone hheld hlast
    exact ⟨m, List.mem_append_left _ hm, hc⟩

/-- The worker is not where the event could happen. -/
theorem Course.idle (h : Course w c part s stage front last) (hs : s.next e = s) (hown : ofWorker w ⟨s, e⟩ = true)
    (silent : callbacks ⟨s, e⟩ = []) : Course w c (part ++ [⟨s, e⟩]) (s.next e) stage front last := by
  refine h.still ?_ ((said_own hown).trans silent) fun f => ?_
  · rw [hs, h.place]
  · rw [share_own hown, added, hs, sub_self]

/-- The worker goes on, whatever the event `e` that brings it about. -/
theorem Course.move (h : Course w c part s stage front last) (hb : Books size past s) (hbusy : stage ≠ .waiting)
    (hm : Moves s w reply stage after s') (hs : s.next e = s'.setStage w after) (hown : ofWorker w ⟨s, e⟩ = true)
    (hsaid : callbacks ⟨s, e⟩ = stage.callbacks s.isOpen reply)
    (hdropped : dropped ⟨s, e⟩ = (stage.drops s.isOpen reply).toList) :
    ∃ stage' front' last', Course w c (part ++ [⟨s, e⟩]) (s.next e) stage' front' last' := by
  have hplace : (s.next e).stages[w]? = some after := by rw [hs, setStage_self h.place hm.stages_eq]
  have hmetrics : (s.next e).metrics = s'.metrics := by rw [hs]; rfl
  have hword : said w (part ++ [⟨s, e⟩]) = (front ++ last ++ stage.tells s.isOpen reply).map (c, ·) := by
    rw [said_snoc, h.words, said_own hown, hsaid, h.standing.callbacks_eq, ← List.map_append]
  have hgauge : share (·.occupancy) w (part ++ [⟨s, e⟩]) = after.dispatching.toNat := by
    have hmoved := hm.gauge (hb.counted h.place)
    rw [share_snoc, share_own hown, h.gauge]
    simp only [added, hmetrics]
    omega
  obtain ⟨last', hstanding, hadds⟩ := hm.standing h.standing hbusy
  rw [← hmetrics, ← tally_own hown] at hstanding
  rcases hadds with ⟨rfl, hgone⟩ | ⟨rfl, rfl, hplain⟩
  · refine ⟨after, front, _, hplace, by rw [hword, List.append_assoc], h.plain, hstanding, hgauge, ?_⟩
    intro hafter hlast
    rcases hgone hafter with hheld | hdrops
    · rw [h.standing.tells_nil hheld, List.append_nil] at hlast
      obtain ⟨m, hin, hc⟩ := h.gone hheld hlast
      exact ⟨m, List.mem_append_left _ hin, hc⟩
    · exact ⟨⟨s, e⟩, List.mem_append_right _ List.mem_cons_self, by simp [hdropped, hdrops]⟩
  · -- nothing in particular was said, so it goes to the front
    refine ⟨after, front ++ stage.tells s.isOpen reply, [], hplace, ?_, ?_, hstanding, hgauge, ?_⟩
    · rw [hword, List.append_nil, List.append_nil]
    · exact fun y hy => (List.mem_append.mp hy).elim (h.plain y) (hplain y)
    · exact fun _ h => absurd rfl h

theorem Course.beginStop {d : ι} (h : Course w c part s (.working d) front last)
    (hs : s.beginStop w = s.setStage w (.stopping d .entered)) :
    Course w c (part ++ [⟨s, .beginStop w⟩]) (s.beginStop w) (.stopping d .entered) front last := by
  have hown : ofWorker w (⟨s, .beginStop w⟩ : Moment (State ι) (Event ι)) = true := beq_self_eq_true w
  have hmetrics : (s.next (.beginStop w)).metrics = s.metrics := by rw [State.next, hs]; rfl
  refine ⟨by rw [hs, setStage_self h.place rfl], ?_, h.plain, ?_, ?_, fun hgone => by cases hgone⟩
  · rw [said_snoc, said_own hown, h.words]
    exact List.append_nil _
  · rw [tally_own hown, hmetrics, Tally.after_self]
    exact h.standing.stopping .entered
  · rw [share_snoc, share_own hown, h.gauge, added, hmetrics, sub_self]
    rfl

/-- Every event keeps the course of a dispatch that is not at its end. -/
theorem Course.next (h : Course w c part s stage front last) (hb : Books size past s) (hbusy : stage ≠ .waiting)
    (e : Event ι) : ∃ stage' front' last', Course w c (part ++ [⟨s, e⟩]) (s.next e) stage' front' last' := by
  cases hown : ofWorker w ⟨s, e⟩ with
  | false =>
    have hplace : (s.next e).stages[w]? = some stage := (stage_other hown).trans h.place
    exact ⟨stage, front, last, h.still hplace (said_other hown) fun f => share_other hown⟩
  | true =>
    cases e with
    | worker v reply =>
      obtain rfl := beq_iff_eq.mp hown
      obtain ⟨after, s', hm, hs⟩ := step_moves h.place reply
      exact h.move hb hbusy hm hs hown (callbacks_worker h.place reply) (by simp [dropped, h.place])
    | misread v busy =>
      obtain rfl := beq_iff_eq.mp hown
      rcases s.misread_cases v busy with hs | ⟨d, hv, after, s', hm, hs⟩
      · exact ⟨stage, front, last, h.idle hs hown rfl⟩
      · obtain rfl := Option.some.inj (h.place.symm.trans hv)
        exact h.move hb hbusy (hm (.returned true)) hs hown rfl rfl
    | beginStop v =>
      obtain rfl := beq_iff_eq.mp hown
      rcases s.beginStop_cases v with hs | ⟨d, hv, hs⟩
      · exact ⟨stage, front, last, h.idle hs hown rfl⟩
      · obtain rfl := Option.some.inj (h.place.symm.trans hv)
        exact ⟨_, front, last, h.beginStop hs⟩
    | schedule | callClose | caller => cases hown

theorem course_of_takes (h : Takes s e w c) : Course w c [⟨s, e⟩] (s.next e) (.arriving c) [] [] := by
  obtain ⟨⟨reply, rfl⟩, hw, -, hplace⟩ := h
  obtain ⟨after, s', hm, hs⟩ := step_moves hw reply
  have hnext : s.next (.worker w reply) = s'.setStage w after := hs
  have hown : ofWorker w (⟨s, .worker w reply⟩ : Moment (State ι) (Event ι)) = true := beq_self_eq_true w
  have hafter := hplace
  rw [hnext, setStage_self hw hm.stages_eq] at hafter
  cases hm with
  | take queued =>
    have hshare (f : Metrics → Nat) : share f w [⟨s, .worker w reply⟩] = f s.metrics.enter - f s.metrics := by
      rw [share_own hown, added, hnext]
      rfl
    refine ⟨hplace, ?_, by simp, ?_, ?_, fun _ h => absurd rfl h⟩
    · rw [said_own hown, callbacks_worker hw]
      rfl
    · have htally : tally w [⟨s, .worker w reply⟩] = {} := by
        simp [tally, hshare, Metrics.enter]
      exact htally ▸ .undecided rfl rfl
    · simp [hshare, Metrics.enter, Stage.dispatching]
  | wait | exit => cases hafter

/-- Every dispatch takes its course. -/
theorem dispatch_course {before during : List (Event ι)} (hs : s = final State.next (ofSize size) before)
    (h : Dispatch w c (moments State.next s during)) :
    ∃ stage front last, Course w c (moments State.next s during) (final State.next s during) stage front last := by
  cases during with
  | nil => exact h.elim
  | cons e rest =>
    obtain ⟨htakes, hbusy⟩ := h
    have hb : Books size (moments State.next (ofSize size) before) s := hs ▸ books size before
    -- the books go on from before the dispatch, the course begins with it
    have hrun := along
      (fun past t => (∃ all, Books size all t) ∧ ((∀ m ∈ past, m.before.stages[w]? ≠ some .waiting) →
        ∃ stage front last, Course w c (⟨s, e⟩ :: past) t stage front last))
      ⟨⟨_, hb.next (s.next_change e)⟩, fun _ => ⟨_, _, _, course_of_takes htakes⟩⟩
      (fun past t e ⟨⟨all, hb⟩, hcourse⟩ => by
        refine ⟨⟨_, hb.next (t.next_change e)⟩, fun hnot => ?_⟩
        obtain ⟨stage, front, last, h⟩ := hcourse fun m hm => hnot m (List.mem_append_left _ hm)
        apply h.next hb
        rintro rfl
        exact hnot _ (List.mem_append_right _ List.mem_cons_self) h.place) rest
    exact hrun.2 hbusy

end

end State

end MessageBroker.Pool
