/-
  MessageBroker.Proofs.Pool.Balance — the counters of a pool add up.

  A connection enters the books when it is put on the queue, and leaves them by one
  decision: it ended, was handed back, is to be resubmitted, or was refused. `owing` are
  the workers whose connection has entered and not left; a connection that is on its way
  to the queue again has left already, and one that the closed queue then refuses is
  entered once more until it is closed.
  - `Moves.balance`, `Moves.gauge`, `Moves.units`: what one move of a worker enters on one
    side, it enters on the other.
  - `books`: so the three accounts agree after every run.
  - `decisions_balanced`: and while no worker is between two decisions, they name the
    connections in the pool one by one.
  - `counters_fit`: how many events it takes for a counter to leave 64 bits.
-/

import Mathlib.Algebra.Ring.Nat
import MessageBroker.Proofs.Pool.Moves

namespace MessageBroker.Pool

open History

variable {ι : Type}

namespace Stage

def dispatching : Stage ι → Bool
  | .waiting | .exited => false
  | _ => true

/-- The worker's connection has entered the books, and no decision has taken it out. -/
def owing : Stage ι → Bool
  | .waiting | .resubmitting _ | .handing _ | .leaving _ | .exited => false
  | _ => true

/-- A unit of work is granted and not begun. -/
def granted : Stage ι → Bool
  | .starting _ => true
  | _ => false

/-- The worker waits on the queue or is gone, or is inside a unit of work. -/
def atRest : Stage ι → Bool
  | .waiting | .exited | .working _ | .stopping _ _ => true
  | _ => false

theorem owing_of_atRest {stage : Stage ι} (h : stage.atRest = true) : stage.owing = stage.held.isSome := by
  cases stage <;> first | rfl | cases h

theorem dispatching_of_atRest {stage : Stage ι} (h : stage.atRest = true) :
    stage.dispatching = stage.held.isSome := by
  cases stage <;> first | rfl | cases h

theorem granted_of_atRest {stage : Stage ι} (h : stage.atRest = true) : stage.granted = false := by
  cases stage <;> first | rfl | cases h

end Stage

namespace Metrics

def count (m : Metrics) : Decision → Nat
  | .scheduled => m.scheduled
  | .inlineRerun => m.inlineReruns
  | .resubmit => m.resubmits
  | .handedBack => m.handedBack
  | .closed => m.closed
  | .workerFault => m.workerFaults
  | .rejected => m.rejected

theorem count_enter (m : Metrics) (d : Decision) : m.enter.count d = m.count d := by cases d <;> rfl

theorem count_leave (m : Metrics) (d : Decision) : m.leave.count d = m.count d := by cases d <;> rfl

theorem count_record (m : Metrics) (d e : Decision) (n : Nat) :
    (m.record d n).count e = m.count e + if d = e then n else 0 := by
  cases d <;> cases e <;> rfl

theorem count_record_le (m : Metrics) (d e : Decision) : (m.record d).count e ≤ m.count e + 1 := by
  rw [count_record]
  split <;> omega

end Metrics

namespace State

def running (s : State ι) : Nat := s.stages.countP fun stage => stage.held.isSome

def AtRest (s : State ι) : Prop := ∀ stage ∈ s.stages, stage.atRest = true

instance (s : State ι) : Decidable s.AtRest := inferInstanceAs (Decidable (∀ stage ∈ s.stages, _))

def isUnit : ι × Call × Reply → Bool
  | (_, .work, _) => true
  | _ => false

def isWelcome : ι × Call × Reply → Bool
  | (_, .notify .running, .returned _) => true
  | _ => false

def entered (s : State ι) : Nat := s.metrics.scheduled + s.metrics.rejected

def decided (s : State ι) : Nat := s.metrics.handedBack + s.metrics.resubmits + s.metrics.closed

/-! ## One move -/

section
variable {s s' : State ι} {w : Nat} {reply : Reply} {stage next : Stage ι}

/-- What a move enters, it leaves owing, queues, or counts as decided. -/
theorem Moves.balance (h : Moves s w reply stage next s') :
    s'.entered + (s.queue.length + stage.owing.toNat + s.decided) =
      s.entered + (s'.queue.length + next.owing.toNat + s'.decided) := by
  cases h with
  | stopFurther further _ | stopped further =>
    simp [entered, decided, metrics_of_stepClosing further, queue_of_stepClosing further, Stage.owing]
  | take queued => simp [entered, decided, queued, Metrics.enter, Stage.owing]
  | enqueue | refuse | finish | resubmit | park | close | closeFault =>
    simp [entered, decided, record, report, Metrics.record, Stage.owing]
    omega
  | _ => rfl

theorem Moves.gauge (h : Moves s w reply stage next s') (hcounted : stage.dispatching.toNat ≤ s.metrics.occupancy) :
    s'.metrics.occupancy + stage.dispatching.toNat = s.metrics.occupancy + next.dispatching.toNat := by
  cases h with
  | stopFurther further _ | stopped further =>
    simp only [metrics_of_stepClosing further]
    rfl
  | leave | leaveFault =>
    simp [caught, record, report, Metrics.record, Metrics.leave, Stage.dispatching] at hcounted ⊢
    omega
  | _ => rfl

/-- Units of work are granted by a welcome or by a rerun. -/
theorem Moves.units (h : Moves s w reply stage next s') (hw : s.stages[w]? = some stage) :
    (calls ⟨s, .worker w reply⟩).countP isUnit + next.granted.toNat + s.metrics.inlineReruns =
      stage.granted.toNat + s'.metrics.inlineReruns + (calls ⟨s, .worker w reply⟩).countP isWelcome := by
  cases h with
  | stopFurther further _ | stopped further =>
    simp [calls, nextCall, hw, metrics_of_stepClosing further, Stage.granted]
  | enqueue isOpen | enqueueFault isOpen | refuse isOpen =>
    simp [calls, nextCall, hw, isOpen, isUnit, isWelcome, record, Metrics.record, Stage.granted]
  | arrive | start => simp [calls, nextCall, hw, isUnit, isWelcome, Stage.granted, Nat.add_comm]
  | rerun =>
    simp [calls, nextCall, hw, record, Metrics.record, Stage.granted]
    omega
  | _ =>
    simp [calls, nextCall, hw, isUnit, isWelcome, record, report, caught, Metrics.record, Metrics.enter,
      Metrics.leave, Stage.granted]

end

/-! ## Every run -/

/-- The books of a pool of `size` workers after what is past. -/
structure Books (size : Nat) (past : List (Moment (State ι) (Event ι))) (s : State ι) : Prop where
  workers : s.stages.length = size
  /-- Connections entered are queued, held and undecided, decided, or back with their callers. -/
  balance : s.entered = s.queue.length + s.stages.countP Stage.owing + s.decided + (past.flatMap refused).length
  gauge : s.metrics.occupancy = s.stages.countP Stage.dispatching
  /-- Units of work begun, and granted, come of reruns and of welcomes. -/
  units : (past.flatMap calls).countP isUnit + s.stages.countP Stage.granted =
    s.metrics.inlineReruns + (past.flatMap calls).countP isWelcome

theorem books_ofSize (size : Nat) : Books size [] (ofSize size : State ι) where
  workers := List.length_replicate
  balance := by simp [ofSize, entered, decided, Metrics.ofPoolSize, List.countP_replicate, Stage.owing]
  gauge := by simp [ofSize, Metrics.ofPoolSize, List.countP_replicate, Stage.dispatching]
  units := by simp [ofSize, Metrics.ofPoolSize, List.countP_replicate, Stage.granted]

section
variable {size : Nat} {past : List (Moment (State ι) (Event ι))} {s s' : State ι}

/-- An event keeps the books if what it enters on one side of an account it enters on the
    other. -/
theorem Books.post (hb : Books size past s) {e : Event ι} (workers : s'.stages.length = s.stages.length)
    (balance : s'.entered + (s.queue.length + s.stages.countP Stage.owing + s.decided) =
      s.entered + (s'.queue.length + s'.stages.countP Stage.owing + s'.decided + (refused ⟨s, e⟩).length))
    (gauge : s'.metrics.occupancy + s.stages.countP Stage.dispatching =
      s.metrics.occupancy + s'.stages.countP Stage.dispatching)
    (units : (calls ⟨s, e⟩).countP isUnit + s'.stages.countP Stage.granted + s.metrics.inlineReruns =
      s.stages.countP Stage.granted + s'.metrics.inlineReruns + (calls ⟨s, e⟩).countP isWelcome) :
    Books size (past ++ [⟨s, e⟩]) s' := by
  have hbalance := hb.balance
  have hgauge := hb.gauge
  have hunits := hb.units
  refine ⟨workers.trans hb.workers, ?_, ?_, ?_⟩
  · rw [flatMap_snoc, List.length_append]
    omega
  · omega
  · simp only [flatMap_snoc, List.countP_append]
    omega

theorem Books.frame (hb : Books size past s) {e : Event ι} (hcalls : calls ⟨s, e⟩ = [])
    (hrefused : refused ⟨s, e⟩ = []) (hstages : s'.stages = s.stages) (hqueue : s'.queue = s.queue)
    (hmetrics : s'.metrics = s.metrics) : Books size (past ++ [⟨s, e⟩]) s' := by
  refine hb.post ?_ ?_ ?_ ?_
  · rw [hstages]
  · simp [entered, decided, hstages, hqueue, hmetrics, hrefused]
  · rw [hstages, hmetrics]
  · simp [hstages, hmetrics, hcalls]

theorem Books.counted {w : Nat} {stage : Stage ι} (hb : Books size past s) (hw : s.stages[w]? = some stage) :
    stage.dispatching.toNat ≤ s.metrics.occupancy := by
  rw [hb.gauge]
  cases hd : stage.dispatching with
  | false => exact Nat.zero_le _
  | true => exact List.countP_pos_iff.mpr ⟨stage, List.mem_of_getElem? hw, hd⟩

/-- A move of worker `w` keeps the books, whatever the event `e` that brings it about. -/
theorem Books.move {w : Nat} {reply : Reply} {stage next : Stage ι} (hb : Books size past s)
    (hw : s.stages[w]? = some stage) (hm : Moves s w reply stage next s') {e : Event ι}
    (hcalls : calls ⟨s, e⟩ = calls ⟨s, .worker w reply⟩) (hrefused : refused ⟨s, e⟩ = []) :
    Books size (past ++ [⟨s, e⟩]) (s'.setStage w next) := by
  have hstages := hm.stages_eq
  refine hb.post ?_ ?_ ?_ ?_
  · simp [setStage, hstages]
  · have hmove := hm.balance
    have hcount := countP_setStage hw hstages Stage.owing next
    simp only [entered, decided, setStage] at hmove hcount ⊢
    rw [hrefused, List.length_nil]
    omega
  · have hcount := countP_setStage hw hstages Stage.dispatching next
    have hmove := hm.gauge (hb.counted hw)
    simp only [setStage] at hcount ⊢
    omega
  · have hmove := hm.units hw
    have hcount := countP_setStage hw hstages Stage.granted next
    rw [hcalls]
    simp only [setStage] at hcount ⊢
    omega

theorem Books.beginStop {w : Nat} {c : ι} (hb : Books size past s) (hw : s.stages[w]? = some (.working c)) :
    Books size (past ++ [⟨s, .beginStop w⟩]) (s.setStage w (.stopping c .entered)) := by
  have hcount (p : Stage ι → Bool) := countP_setStage hw rfl p (.stopping c .entered)
  have howing := hcount Stage.owing
  have hgauge := hcount Stage.dispatching
  have hgranted := hcount Stage.granted
  simp only [Stage.owing, Stage.dispatching, Stage.granted, setStage] at howing hgauge hgranted
  refine hb.post ?_ ?_ ?_ ?_
  · simp [setStage]
  · simp only [entered, decided, setStage, refused, List.length_nil]
    omega
  · simp only [setStage]
    omega
  · simp only [setStage, calls, List.countP_nil]
    omega

theorem Books.next {e : Event ι} (hb : Books size past s) (h : Change s e s') :
    Books size (past ++ [⟨s, e⟩]) s' := by
  cases h with
  | idle silent kept => exact hb.frame silent kept rfl rfl rfl
  | refuse closed =>
    refine hb.post rfl ?_ rfl ?_
    · -- entered as refused, and given back
      simp [refused, schedule, closed, entered, decided, record, Metrics.record]
      omega
    · simp [calls, closed, record, Metrics.record]
  | fault isOpen =>
    refine hb.post rfl ?_ rfl ?_
    · simp [refused, schedule, isOpen]
    · simp [calls, isOpen, isUnit, isWelcome]
  | enqueue isOpen =>
    refine hb.post rfl ?_ rfl ?_
    · -- entered as scheduled, and queued
      simp [refused, schedule, isOpen, entered, decided, record, Metrics.record]
      omega
    · simp [calls, isOpen, record, Metrics.record, isUnit, isWelcome]
  | worker place move => exact hb.move place move rfl rfl
  | misread place move =>
    -- reading the gauge is no call, so the reply does not matter
    exact hb.move place move (by simp [calls, nextCall, place]) rfl
  | beginStop place => exact hb.beginStop place
  | callClose => exact hb.frame rfl rfl rfl rfl rfl
  | @caller i =>
    have hs := s.stepCaller_frame i
    exact hb.frame rfl rfl hs.1 hs.2.1 hs.2.2

end

/-- After every run of a pool the three accounts agree. -/
theorem books (size : Nat) (events : List (Event ι)) :
    Books size (moments next (ofSize size) events) (final next (ofSize size) events) :=
  along (Books size) (books_ofSize size) (fun _ t e hb => hb.next (t.next_change e)) events

/-- Of every run of a pool of any size, however its connections and its detector answer,
    wherever it is closed and whichever old readings of the gauge its workers go by. While
    each worker waits or is inside a unit of work, the connections put on the queue and
    refused are those queued, running, handed back, resubmitted, closed, and given back to
    callers from outside. The gauge shows the workers that run a connection, and units of
    work have begun once for every rerun and for every connection that took the news of its
    worker. -/
theorem decisions_balanced (size : Nat) (events : List (Event ι)) (rest : (final next (ofSize size) events).AtRest) :
    let s := final next (ofSize size) events
    let past := moments next (ofSize size) events
    s.metrics.scheduled + s.metrics.rejected =
        s.queue.length + s.running + s.metrics.handedBack + s.metrics.resubmits + s.metrics.closed +
          (past.flatMap refused).length ∧
      s.running = s.metrics.occupancy ∧ s.metrics.occupancy ≤ size ∧
      (past.flatMap calls).countP isUnit = s.metrics.inlineReruns + (past.flatMap calls).countP isWelcome := by
  intro s past
  have hb : Books size past s := books size events
  have howing : s.stages.countP Stage.owing = s.running :=
    List.countP_congr fun stage hin => by rw [Stage.owing_of_atRest (rest stage hin)]
  have hgauge : s.stages.countP Stage.dispatching = s.running :=
    List.countP_congr fun stage hin => by rw [Stage.dispatching_of_atRest (rest stage hin)]
  have hgranted : s.stages.countP Stage.granted = 0 :=
    List.countP_eq_zero.mpr fun stage hin => by simp [Stage.granted_of_atRest (rest stage hin)]
  refine ⟨?_, ?_, ?_, ?_⟩
  · have hbalance := hb.balance
    simp only [entered, decided] at hbalance
    omega
  · rw [hb.gauge, hgauge]
  · rw [hb.gauge, ← hb.workers]
    exact List.countP_le_length
  · have hunits := hb.units
    omega

/-- A pool of one worker: connection 0 runs, is rerun as the pool is busy, faults in its
    second unit and again while it is closed; connection 1 is in a unit of work when the
    pool is closed, connection 2 is still queued, and connection 3 is refused. -/
theorem closing_balanced :
    let replies : List Reply :=
      [.returned true, .returned true, .returned true, .returned false, .returned true, .returned true,
        .returned true, .raised (.text "unit"), .raised (.text "close"), .returned true,
        .returned true, .returned true, .returned true]
    let events : List (Event Nat) := List.flatten
      [[.schedule 0 (.returned true), .schedule 1 (.returned true)], replies.map (.worker 0),
        [.schedule 2 (.returned true), .callClose, .caller 0, .caller 0, .schedule 3 (.returned true)]]
    let s := final next (ofSize 1) events
    s.AtRest ∧ s.metrics.scheduled = 3 ∧ s.metrics.rejected = 1 ∧ s.metrics.closed = 1 ∧
      s.metrics.scheduled + s.metrics.rejected =
        s.queue.length + s.running + s.metrics.handedBack + s.metrics.resubmits + s.metrics.closed +
          ((moments next (ofSize 1) events).flatMap refused).length := by
  intro replies events s
  have rest : s.AtRest := by decide
  exact ⟨rest, by decide, by decide, by decide, (decisions_balanced 1 events rest).1⟩

/-! ## How far the counters come -/

section
variable {s s' : State ι} {w : Nat} {reply : Reply} {stage next : Stage ι}

theorem Moves.count_le (h : Moves s w reply stage next s') (d : Decision) :
    s'.metrics.count d ≤ s.metrics.count d + 1 := by
  cases h with
  | stopFurther further _ | stopped further =>
    rw [metrics_of_stepClosing further]
    exact Nat.le_succ _
  | finish | arriveFault | unitFault | changedFault | partialFault | rerun | resubmit | enqueue | refuse | park
  | parkFault | close | closeFault => exact Metrics.count_record_le _ _ d
  | leaveFault =>
    rw [← Metrics.count_leave s.metrics]
    exact Metrics.count_record_le _ _ d
  | take =>
    rw [← Metrics.count_enter s.metrics]
    exact Nat.le_succ _
  | leave =>
    rw [← Metrics.count_leave s.metrics]
    exact Nat.le_succ _
  | _ => exact Nat.le_succ _

/-- An event counts no decision twice. -/
theorem count_next_le (s : State ι) (e : Event ι) (d : Decision) :
    (s.next e).metrics.count d ≤ s.metrics.count d + 1 := by
  have hchange := s.next_change e
  generalize s.next e = s' at hchange
  cases hchange with
  | refuse | enqueue => exact Metrics.count_record_le _ _ d
  | worker _ move | misread _ move => exact move.count_le d
  | @caller i =>
    rw [(s.stepCaller_frame i).2.2]
    exact Nat.le_succ _
  | _ => exact Nat.le_succ _

end

/-- So counters of 64 bits do not wrap in fewer than 2^64 events, nor does a gauge that has a bit
    for each worker. -/
theorem counters_fit (size : Nat) (events : List (Event ι)) (hfew : events.length < 2 ^ 64) :
    let m := (final next (ofSize size) events).metrics
    (∀ d, m.count d ≤ events.length ∧ m.count d < 2 ^ 64) ∧ m.occupancy ≤ size := by
  intro m
  have hcount (d : Decision) : m.count d ≤ events.length := by
    have hstart : (ofSize size : State ι).metrics.count d ≤ 0 := by cases d <;> exact Nat.le_refl 0
    have hall : m.count d ≤ (moments next (ofSize size) events).length := by
      refine along (fun past (s : State ι) => s.metrics.count d ≤ past.length) hstart (fun past s e hle => ?_) events
      rw [List.length_append, List.length_singleton]
      exact Nat.le_trans (s.count_next_le e d) (Nat.succ_le_succ hle)
    rwa [length_moments] at hall
  have hb : Books size _ (final next (ofSize size) events) := books size events
  refine ⟨fun d => ⟨hcount d, Nat.lt_of_le_of_lt (hcount d) hfew⟩, ?_⟩
  show (final next (ofSize size) events).metrics.occupancy ≤ size
  rw [hb.gauge]
  exact Nat.le_trans List.countP_le_length (Nat.le_of_eq hb.workers)

end State

end MessageBroker.Pool
