/-
  MessageBroker.Proofs.Pool.Turns — who goes on with work that is left.

  A worker that has work left on its connection reads the gauge. While nobody raises or
  lowers it in between, the gauge is the number of workers that have a connection, so the
  worker goes on at once exactly if there is no other that waits or is gone (`decides`). A
  pool of one worker therefore never puts a connection on its queue again: its worker has
  one connection after the other, in the order in which they came, each until it has done
  with it.
  - `turn`: what a worker tells a connection that it does not put on the queue again.
  - `Moves.turns`: one move, from the words of one stage to those of the next.
  - `InTurn`: the invariant, kept by every event but a stale reading (`InTurn.next`).
  - `saturation_decides`: both, for every run.
-/

import MessageBroker.Proofs.Pool.Balance
import MessageBroker.Proofs.Pool.Draining

namespace MessageBroker.Pool

open History Protocol
open scoped Computability

variable {ι : Type}

namespace Protocol

/-- What a worker closes a connection upon that the queue has not refused. -/
def faulted : Language Callback :=
  faults (.notify .running) + runs * (faultyUnit + idleUnit * faults (.notify .awaitingReadiness))

/-- All that a worker tells a connection from when it has it until it has it no more, if it
    does not put it on the queue: the connection ended, or was idle and given to the
    detector, or faulted and was closed. -/
def turn : Language Callback :=
  runs * lastUnit + runs * idleUnit * returns (.notify .awaitingReadiness) * (returns .handOver + faults .handOver) +
    faulted * closes

theorem faulty_le_faulted : runs * faultyUnit ≤ faulted := (mul_le_mul_right le_sup_left runs).trans le_sup_right

theorem idle_le_faulted : runs * (idleUnit * faults (.notify .awaitingReadiness)) ≤ faulted :=
  (mul_le_mul_right le_sup_right runs).trans le_sup_right

theorem faulted_closes_le_turn : faulted * closes ≤ turn := le_sup_right

theorem parked_le_turn :
    runs * idleUnit * returns (.notify .awaitingReadiness) * (returns .handOver + faults .handOver) ≤ turn :=
  le_sup_right.trans le_sup_left

theorem last_le_turn : runs * lastUnit ≤ turn := le_sup_left.trans le_sup_left

end Protocol

namespace Stage

/-- What a worker at this stage has told its connection, if it puts none on the queue. -/
def sofar : Stage ι → Language Callback
  | .closing _ => faulted
  | .resubmitting _ => 0
  | stage => stage.recent

end Stage

namespace State

/-! ## The gauge -/

section
variable {s s' : State ι} {w : Nat} {reply : Reply} {stage next : Stage ι} {c : ι}

theorem Moves.poolSize (h : Moves s w reply stage next s') : s'.metrics.poolSize = s.metrics.poolSize := by
  cases h with
  | stopFurther further _ | stopped further => rw [metrics_of_stepClosing further]
  | _ => rfl

theorem poolSize_next (s : State ι) (e : Event ι) : (s.next e).metrics.poolSize = s.metrics.poolSize := by
  have hchange := s.next_change e
  generalize s.next e = s' at hchange
  cases hchange with
  | idle | refuse | fault | enqueue | beginStop | callClose => rfl
  | worker _ move | misread _ move => exact move.poolSize
  | @caller i => rw [(s.stepCaller_frame i).2.2]

theorem poolSize_final (size : Nat) (events : List (Event ι)) :
    (final State.next (ofSize size) events).metrics.poolSize = size :=
  along (fun _ (t : State ι) => t.metrics.poolSize = size) rfl (fun _ t e h => (t.poolSize_next e).trans h) events

theorem full_iff {size : Nat} {past : List (Moment (State ι) (Event ι))} (hb : Books size past s) :
    size ≤ s.metrics.occupancy ↔ ∀ stage ∈ s.stages, stage.dispatching = true := by
  rw [hb.gauge, ← List.countP_eq_length, ← hb.workers]
  have hle := List.countP_le_length (p := Stage.dispatching) (l := s.stages)
  omega

/-- A worker with work left goes on at once, or puts its connection on the queue. -/
theorem step_deciding (hw : s.stages[w]? = some (.deciding c)) (reply : Reply) :
    s.step w reply = if s.metrics.poolSize ≤ s.metrics.occupancy then (s.record .inlineRerun).setStage w (.starting c)
      else (s.record .resubmit).setStage w (.resubmitting c) := by
  rw [step_eq hw, advance, goOn]
  by_cases hfull : s.metrics.poolSize ≤ s.metrics.occupancy
  · simp [hfull]
  · simp [hfull]

theorem rerun_ne_resubmit (hw : s.stages[w]? = some (.deciding c)) :
    (s.record .inlineRerun).setStage w (.starting c) ≠ (s.record .resubmit).setStage w (.resubmitting c) := by
  intro hsame
  have hrerun := setStage_self hw (show (s.record .inlineRerun).stages = s.stages from rfl) (.starting c)
  have hresubmit := setStage_self hw (show (s.record .resubmit).stages = s.stages from rfl) (.resubmitting c)
  rw [hsame, hresubmit] at hrerun
  cases hrerun

/-- Some worker is free exactly if one other than `w` is, which has work left. -/
theorem free_iff (hw : s.stages[w]? = some (.deciding c)) :
    (¬∀ stage ∈ s.stages, stage.dispatching = true) ↔
      ∃ v stage, v ≠ w ∧ s.stages[v]? = some stage ∧ stage.dispatching = false := by
  constructor
  · intro hnot
    simp only [not_forall] at hnot
    obtain ⟨stage, hin, hfree⟩ := hnot
    obtain ⟨v, hv⟩ := List.mem_iff_getElem?.mp hin
    have hfree' : stage.dispatching = false := by simpa using hfree
    refine ⟨v, stage, ?_, hv, hfree'⟩
    rintro rfl
    obtain rfl := Option.some.inj (hw.symm.trans hv)
    cases hfree'
  · rintro ⟨v, stage, -, hv, hfree⟩ hall
    rw [hall stage (List.mem_of_getElem? hv)] at hfree
    cases hfree

/-- A worker with work left goes on at once exactly if every worker has a connection, and
    puts its own on the queue exactly if another worker has none. -/
theorem decides {size : Nat} {past : List (Moment (State ι) (Event ι))} (hb : Books size past s)
    (hsize : s.metrics.poolSize = size) (hw : s.stages[w]? = some (.deciding c)) (reply : Reply) :
    (s.step w reply = (s.record .inlineRerun).setStage w (.starting c) ↔
        ∀ stage ∈ s.stages, stage.dispatching = true) ∧
      (s.step w reply = (s.record .resubmit).setStage w (.resubmitting c) ↔
        ∃ v stage, v ≠ w ∧ s.stages[v]? = some stage ∧ stage.dispatching = false) := by
  rw [step_deciding hw, hsize, ← free_iff hw, ← full_iff hb]
  by_cases hfull : size ≤ s.metrics.occupancy
  · simp [hfull, rerun_ne_resubmit hw]
  · simp [hfull, (rerun_ne_resubmit hw).symm]

end

/-! ## One move of the only worker -/

section
variable {s s' : State ι} {w : Nat} {reply : Reply} {stage next : Stage ι} {c : ι} {u : List Callback}

/-- The move of a worker that holds `c` and does not put it on the queue. It goes on with `c`,
    or it has done with it. -/
theorem Moves.turns (h : Moves s w reply stage next s') (hheld : stage.held = some c)
    (hnext : ∀ d, next ≠ .resubmitting d) (hu : u ∈ stage.sofar) :
    (next.held = some c ∧ u ++ stage.tells s.isOpen reply ∈ next.sofar) ∨
      (next.held = none ∧ u ++ stage.tells s.isOpen reply ∈ turn) := by
  cases h with
  | take | wait | exit | leave | leaveFault | gone => cases hheld
  | arrive =>
    obtain rfl := hu
    exact .inl ⟨hheld, returns_le_runs (mem_returns _ _)⟩
  | arriveFault =>
    obtain rfl := hu
    exact .inl ⟨hheld, .inl (mem_faults _ _)⟩
  | start => exact .inl ⟨hheld, Language.append_mem_mul hu mem_begins⟩
  | finish => exact .inr ⟨rfl, last_le_turn (append_mem hu (mem_ends true) le_rfl)⟩
  | pause => exact .inl ⟨hheld, append_mem hu (mem_ends false) le_rfl⟩
  | unitFault =>
    exact .inl ⟨hheld, faulty_le_faulted (append_mem hu (mem_endsInFault _) (le_sup_left.trans le_sup_left))⟩
  | stopFurther | stopped => exact .inl ⟨hheld, mem_append_nil hu⟩
  | changed => exact .inl ⟨hheld, append_mem hu (mem_answers _ _) le_sup_left⟩
  | unchanged => exact .inl ⟨hheld, append_mem hu (mem_answers _ _) le_rfl⟩
  | changedFault =>
    exact .inl ⟨hheld, faulty_le_faulted (append_mem hu (mem_faults _ _) (le_sup_right.trans le_sup_left))⟩
  | partialRead => exact .inl ⟨hheld, append_mem hu (mem_answers _ _) le_sup_right⟩
  | idle => exact .inl ⟨hheld, append_mem hu (mem_answers _ _) le_rfl⟩
  | partialFault => exact .inl ⟨hheld, faulty_le_faulted (append_mem hu (mem_faults _ _) le_sup_right)⟩
  | rerun => exact .inl ⟨hheld, mem_append_nil (mul_kstar_mul_le _ _ hu)⟩
  | resubmit => exact absurd rfl (hnext _)
  | enqueue | enqueueFault | refuse => exact (Language.notMem_zero _ hu).elim
  | park => exact .inl ⟨hheld, Language.append_mem_mul hu (mem_returns _ _)⟩
  | parkFault => exact .inl ⟨hheld, idle_le_faulted (append_mem hu (mem_faults _ _) le_rfl)⟩
  | hand => exact .inr ⟨rfl, parked_le_turn (Language.append_mem_mul hu (.inl (mem_returns _ _)))⟩
  | handFault => exact .inr ⟨rfl, parked_le_turn (Language.append_mem_mul hu (.inr (mem_faults _ _)))⟩
  | close => exact .inr ⟨rfl, faulted_closes_le_turn (Language.append_mem_mul hu (.inl (mem_returns _ _)))⟩
  | closeFault => exact .inr ⟨rfl, faulted_closes_le_turn (Language.append_mem_mul hu (.inr (mem_faults _ _)))⟩

theorem Moves.queue_of_turn (h : Moves s w reply stage next s') (hheld : stage.held = some c) (hu : u ∈ stage.sofar) :
    s'.queue = s.queue := by
  cases h with
  | take | wait | exit | leave | leaveFault | gone => cases hheld
  | stopFurther further _ | stopped further => rw [queue_of_stepClosing further]
  | enqueue | enqueueFault | refuse => exact (Language.notMem_zero _ hu).elim
  | _ => rfl

theorem Moves.comes (h : Moves s w reply stage next s') (hheld : stage.held = none) :
    (∃ c, next = .arriving c ∧ s.queue = c :: s'.queue) ∨ (next.held = none ∧ s'.queue = s.queue) := by
  cases h with
  | take queued => exact .inl ⟨_, rfl, queued⟩
  | wait | exit | leave | leaveFault | gone => exact .inr ⟨rfl, rfl⟩
  | _ => cases hheld

/-- Resubmissions are counted where they are decided. -/
theorem Moves.resubmits (h : Moves s w reply stage next s') (hnext : ∀ d, next ≠ .resubmitting d) :
    s'.metrics.resubmits = s.metrics.resubmits := by
  cases h with
  | stopFurther further _ | stopped further => rw [metrics_of_stepClosing further]
  | resubmit => exact absurd rfl (hnext _)
  | _ => rfl

end

/-! ## One worker -/

def spoken (m : Moment (State ι) (Event ι)) : List (ι × Callback) :=
  match m.event with
  | .worker _ _ => callbacks m
  | _ => []

def accepted (m : Moment (State ι) (Event ι)) : List ι :=
  match m.event with
  | .schedule c reply => if (m.before.schedule c reply).1 = .accepted then [c] else []
  | _ => []

/-- The only worker has told each connection in its turn: those it has done with, and the one
    that it holds. They came in that order, and in front of those on the queue. -/
structure InTurn (past : List (Moment (State ι) (Event ι))) (s : State ι) (stage : Stage ι)
    (done : List (ι × List Callback)) (now : Option (ι × List Callback)) : Prop where
  worker : s.stages = [stage]
  resubmits : s.metrics.resubmits = 0
  spoken_eq : past.flatMap spoken = (done ++ now.toList).flatMap fun v => v.2.map (v.1, ·)
  accepted_eq : past.flatMap accepted = (done ++ now.toList).map Prod.fst ++ s.queue
  whole : ∀ v ∈ done, v.2 ∈ turn
  /-- The turn under way is that of the connection it holds. -/
  held : now.map Prod.fst = stage.held
  sofar : ∀ v ∈ now, v.2 ∈ stage.sofar

section
variable {past : List (Moment (State ι) (Event ι))} {s s' : State ι} {stage : Stage ι}
  {done : List (ι × List Callback)} {now : Option (ι × List Callback)} {e : Event ι} {reply : Reply}

theorem inTurn_ofSize : InTurn [] (ofSize 1 : State ι) .waiting [] none :=
  ⟨rfl, rfl, rfl, rfl, nofun, rfl, nofun⟩

theorem InTurn.frame (h : InTurn past s stage done now) (hspoken : spoken ⟨s, e⟩ = []) (haccepted : accepted ⟨s, e⟩ = [])
    (hstages : s'.stages = s.stages) (hqueue : s'.queue = s.queue) (hmetrics : s'.metrics.resubmits = s.metrics.resubmits) :
    InTurn (past ++ [⟨s, e⟩]) s' stage done now where
  worker := hstages.trans h.worker
  resubmits := hmetrics.trans h.resubmits
  spoken_eq := by rw [flatMap_snoc, hspoken, List.append_nil, h.spoken_eq]
  accepted_eq := by rw [flatMap_snoc, haccepted, List.append_nil, hqueue, h.accepted_eq]
  whole := h.whole
  held := h.held
  sofar := h.sofar

theorem InTurn.schedule (h : InTurn past s stage done now) (c : ι) (reply : Reply) :
    InTurn (past ++ [⟨s, .schedule c reply⟩]) (s.next (.schedule c reply)) stage done now := by
  rcases s.schedule_cases c reply with ⟨hclosed, hs⟩ | ⟨hopen, fault, rfl, hs⟩ | ⟨hopen, b, rfl, hs⟩
  · refine h.frame rfl ?_ ?_ ?_ ?_ <;> simp [accepted, State.next, hs, record, Metrics.record]
  · refine h.frame rfl ?_ ?_ ?_ ?_ <;> simp [accepted, State.next, hs]
  · have haccepted : accepted ⟨s, .schedule c (.returned b)⟩ = [c] := by simp [accepted, hs]
    have hnext : s.next (.schedule c (.returned b)) = { s.record .scheduled with queue := s.queue ++ [c] } := by
      rw [State.next, hs]
    rw [hnext]
    refine ⟨h.worker, h.resubmits, ?_, ?_, h.whole, h.held, h.sofar⟩
    · rw [flatMap_snoc, h.spoken_eq]
      exact List.append_nil _
    · rw [flatMap_snoc, haccepted, h.accepted_eq, List.append_assoc]

/-- While it is the only worker, it does not put its connection on the queue again. -/
theorem not_resubmitting (hb : Books 1 past s) (hsize : s.metrics.poolSize = 1) (hw : s.stages = [stage]) (reply : Reply) :
    ∀ d, (s.advance 0 reply stage).1 ≠ .resubmitting d := by
  intro d hnext
  have hm := advance_moves s 0 reply stage
  rw [hnext] at hm
  generalize (s.advance 0 reply stage).2 = s' at hm
  cases hm with
  | resubmit =>
    have hfull : s.metrics.poolSize ≤ s.metrics.occupancy := by
      rw [hb.gauge, hw, hsize]
      exact Nat.le_refl 1
    simp only [advance, goOn, hfull, decide_true, if_true] at hnext
    cases hnext

theorem InTurn.step (h : InTurn past s stage done now) (hb : Books 1 past s) (hsize : s.metrics.poolSize = 1)
    (reply : Reply) :
    ∃ stage' done' now', InTurn (past ++ [⟨s, .worker 0 reply⟩]) (s.next (.worker 0 reply)) stage' done' now' := by
  have hw : s.stages[0]? = some stage := by rw [h.worker]; rfl
  have hnext := not_resubmitting hb hsize h.worker reply
  have hm := advance_moves s 0 reply stage
  have hs : s.next (.worker 0 reply) = (s.advance 0 reply stage).2.setStage 0 (s.advance 0 reply stage).1 := step_eq hw reply
  rw [hs]
  generalize (s.advance 0 reply stage).1 = after at hm hnext
  generalize (s.advance 0 reply stage).2 = s' at hm
  have hworker : (s'.setStage 0 after).stages = [after] := by rw [setStage, hm.stages_eq, h.worker]; rfl
  have hresubmits : (s'.setStage 0 after).metrics.resubmits = 0 := (hm.resubmits hnext).trans h.resubmits
  have hspoken : spoken ⟨s, .worker 0 reply⟩ = stage.callbacks s.isOpen reply := callbacks_worker hw reply
  have haccepted : accepted ⟨s, .worker 0 reply⟩ = [] := rfl
  cases hheld : stage.held with
  | none =>
    obtain rfl : now = none := Option.map_eq_none_iff.mp (h.held.trans hheld)
    have hsilent : List.flatMap spoken (past ++ [⟨s, .worker 0 reply⟩]) = done.flatMap fun v => v.2.map (v.1, ·) := by
      rw [flatMap_snoc, hspoken, Stage.callbacks, hheld, h.spoken_eq, Option.toList_none, List.append_nil]
      exact List.append_nil _
    rcases hm.comes hheld with ⟨c, rfl, hqueue⟩ | ⟨hnone, hqueue⟩
    · refine ⟨_, done, some (c, []), hworker, hresubmits, ?_, ?_, h.whole, rfl, ?_⟩
      · rw [hsilent]
        simp
      · rw [flatMap_snoc, haccepted, h.accepted_eq, hqueue]
        simp [setStage]
      · rintro v ⟨rfl⟩
        exact Language.nil_mem_one
    · refine ⟨_, done, none, hworker, hresubmits, ?_, ?_, h.whole, hnone.symm, ?_⟩
      · rw [hsilent]
        simp
      · rw [flatMap_snoc, haccepted, h.accepted_eq, List.append_nil]
        exact congrArg _ hqueue.symm
      · intro v hv
        cases hv
  | some c =>
    obtain ⟨⟨d, u⟩, rfl, rfl⟩ := Option.map_eq_some_iff.mp (h.held.trans hheld)
    have hu : u ∈ stage.sofar := h.sofar _ rfl
    have hqueue : s'.queue = s.queue := hm.queue_of_turn hheld hu
    have hsaid : List.flatMap spoken (past ++ [⟨s, .worker 0 reply⟩]) =
        (done ++ [(d, u ++ stage.tells s.isOpen reply)]).flatMap fun v => v.2.map (v.1, ·) := by
      rw [flatMap_snoc, hspoken, h.spoken_eq]
      simp [Stage.callbacks, hheld]
    have hsame : List.flatMap accepted (past ++ [⟨s, .worker 0 reply⟩]) =
        (done ++ [(d, u ++ stage.tells s.isOpen reply)]).map Prod.fst ++ (s'.setStage 0 after).queue := by
      rw [flatMap_snoc, haccepted, h.accepted_eq]
      simp [setStage, hqueue]
    rcases hm.turns hheld hnext hu with ⟨hafter, hword⟩ | ⟨hafter, hword⟩
    · refine ⟨_, done, some (d, u ++ stage.tells s.isOpen reply), hworker, hresubmits, hsaid, hsame, h.whole,
        hafter.symm, ?_⟩
      rintro v ⟨rfl⟩
      exact hword
    · refine ⟨_, done ++ [(d, u ++ stage.tells s.isOpen reply)], none, hworker, hresubmits, ?_, ?_, ?_, hafter.symm, ?_⟩
      · rw [hsaid, Option.toList_none, List.append_nil]
      · rw [hsame, Option.toList_none, List.append_nil]
      · intro v hv
        rcases List.mem_append.mp hv with hv | hv
        · exact h.whole v hv
        · obtain rfl := List.mem_singleton.mp hv
          exact hword
      · intro v hv
        cases hv

theorem InTurn.beginStop (h : InTurn past s stage done now) (w : Nat) :
    ∃ stage', InTurn (past ++ [⟨s, .beginStop w⟩]) (s.next (.beginStop w)) stage' done now := by
  rcases s.beginStop_cases w with hs | ⟨c, hw, hs⟩
  · rw [State.next, hs]
    exact ⟨stage, h.frame rfl rfl rfl rfl rfl⟩
  · obtain ⟨hlt, -⟩ := List.getElem?_eq_some_iff.mp hw
    obtain rfl : w = 0 := by
      rw [h.worker, List.length_singleton] at hlt
      omega
    obtain rfl : stage = .working c := by
      rw [h.worker] at hw
      exact Option.some.inj hw
    have hworker : (s.setStage 0 (.stopping c .entered)).stages = [.stopping c .entered] := by
      rw [setStage, h.worker]
      rfl
    rw [State.next, hs]
    refine ⟨_, hworker, h.resubmits, ?_, ?_, h.whole, h.held, h.sofar⟩
    · rw [flatMap_snoc, h.spoken_eq]
      exact List.append_nil _
    · rw [flatMap_snoc, h.accepted_eq]
      exact List.append_nil _

theorem InTurn.next (h : InTurn past s stage done now) (hb : Books 1 past s) (hsize : s.metrics.poolSize = 1)
    (hfresh : ∀ w busy, e ≠ .misread w busy) :
    ∃ stage' done' now', InTurn (past ++ [⟨s, e⟩]) (s.next e) stage' done' now' := by
  cases e with
  | schedule c reply => exact ⟨_, _, _, h.schedule c reply⟩
  | worker w reply =>
    cases w with
    | zero => exact h.step hb hsize reply
    | succ w =>
      have hw : s.stages[w + 1]? = none := by rw [h.worker]; rfl
      rw [State.next, step_of_none hw]
      exact ⟨_, _, _, h.frame (by simp [spoken, callbacks, calls, nextCall, hw]) rfl rfl rfl rfl⟩
  | misread w busy => exact absurd rfl (hfresh w busy)
  | beginStop w =>
    obtain ⟨stage', hnext⟩ := h.beginStop w
    exact ⟨stage', _, _, hnext⟩
  | callClose => exact ⟨_, _, _, h.frame rfl rfl rfl rfl rfl⟩
  | caller i =>
    have hs := s.stepCaller_frame i
    exact ⟨_, _, _, h.frame rfl rfl hs.1 hs.2.1 (congrArg Metrics.resubmits hs.2.2)⟩

end

/-! ## Every run -/

theorem inTurn (events : List (Event ι)) (hfresh : ∀ w busy, .misread w busy ∉ events) :
    ∃ stage done now, InTurn (moments State.next (ofSize 1) events) (final State.next (ofSize 1) events) stage done now := by
  have hall : Books 1 (moments State.next (ofSize 1) events) (final State.next (ofSize 1) events) ∧
      (final State.next (ofSize 1) events).metrics.poolSize = 1 ∧
      ∃ stage done now, InTurn (moments State.next (ofSize 1) events) (final State.next (ofSize 1) events) stage done now := by
    refine along_allowed (P := fun e => ∀ w busy, e ≠ .misread w busy)
      (fun past s => Books 1 past s ∧ s.metrics.poolSize = 1 ∧ ∃ stage done now, InTurn past s stage done now) ?_ ?_ ?_
    · exact ⟨books_ofSize 1, rfl, _, _, _, inTurn_ofSize⟩
    · rintro past s e he ⟨hb, hsize, stage, done, now, hturn⟩
      exact ⟨hb.next (s.next_change e), (s.poolSize_next e).trans hsize, hturn.next hb hsize he⟩
    · rintro e he w busy rfl
      exact hfresh w busy he
  exact hall.2.2

/-- Of every run of a pool of any size, however its connections and its detector answer and
    wherever it is closed. A worker that has work left, and goes by the gauge as it is, goes
    on at once exactly if every worker has a connection, and puts its own on the queue
    exactly if another worker has none.

    Of every such run of a pool of one worker in which no reading of the gauge is out of
    date. Nothing is put on the queue again. All that connections hear of the worker is one
    turn after the other, of one connection each: the turns that are over ended with the
    unit of work that ended the connection, with the detector, or with a close upon a fault,
    and the last is that of the connection which the worker holds. The connections had their
    turns in the order in which they were put on the queue from outside, and those on the
    queue are next. -/
theorem saturation_decides :
    (∀ {ι : Type} (size : Nat) (events : List (Event ι)), ∀ m ∈ moments State.next (ofSize size) events,
      ∀ (w : Nat) (reply : Reply) (c : ι), m.event = .worker w reply → m.before.stages[w]? = some (.deciding c) →
        m.before.stages.length = size ∧
        (m.before.next m.event = (m.before.record .inlineRerun).setStage w (.starting c) ↔
          ∀ stage ∈ m.before.stages, stage.dispatching = true) ∧
        (m.before.next m.event = (m.before.record .resubmit).setStage w (.resubmitting c) ↔
          ∃ v stage, v ≠ w ∧ m.before.stages[v]? = some stage ∧ stage.dispatching = false)) ∧
    ∀ {ι : Type} (events : List (Event ι)), (∀ w busy, .misread w busy ∉ events) →
      let past := moments State.next (ofSize 1) events
      let s := final State.next (ofSize 1) events
      s.metrics.resubmits = 0 ∧
      ∃ (stage : Stage ι) (done : List (ι × List Callback)) (now : Option (ι × List Callback)),
        s.stages = [stage] ∧
        past.flatMap spoken = ((done ++ now.toList).flatMap fun v => v.2.map (v.1, ·)) ∧
        past.flatMap accepted = (done ++ now.toList).map Prod.fst ++ s.queue ∧
        (∀ v ∈ done, v.2 ∈ turn) ∧ now.map Prod.fst = stage.held ∧ ∀ v ∈ now, v.2 ∈ stage.sofar := by
  refine ⟨fun size events m hm w reply c hevent hw => ?_, fun events hfresh => ?_⟩
  · obtain ⟨past, later, hsplit⟩ := List.append_of_mem hm
    obtain ⟨first, -, -, hpast, hbefore, -⟩ := moments_split hsplit
    have hb : Books size past m.before := by
      rw [hpast, hbefore]
      exact books size first
    have hsize : m.before.metrics.poolSize = size := by
      rw [hbefore]
      exact poolSize_final size first
    rw [hevent]
    exact ⟨hb.workers, decides hb hsize hw reply⟩
  · obtain ⟨stage, done, now, h⟩ := inTurn events hfresh
    exact ⟨h.resubmits, stage, done, now, h.worker, h.spoken_eq, h.accepted_eq, h.whole, h.held, h.sofar⟩

/-- A pool of two workers has work left on connection 0 while the second worker is free. In a
    pool of one, connection 0 is rerun and then given to the detector, and connection 1, which
    came meanwhile, faults in its unit of work and is closed. -/
theorem second_worker_free :
    let yes : Reply := .returned true
    let no : Reply := .returned false
    let first : List (Event Nat) := .schedule 0 yes :: [yes, yes, yes, no, yes].map (.worker 0)
    let events : List (Event Nat) := List.flatten
      [first, [.schedule 1 yes], [yes, yes, no, no, no, yes, yes, yes, yes, yes, yes].map (.worker 0),
        [.raised .untold, yes, yes].map (.worker 0)]
    let s := final State.next (ofSize 2) first
    let t := final State.next (ofSize 1) events
    s.next (.worker 0 yes) = (s.record .resubmit).setStage 0 (.resubmitting 0) ∧
    t.metrics.resubmits = 0 ∧ t.metrics.inlineReruns = 1 ∧ t.stages = [.waiting] ∧
    ∃ done : List (Nat × List Callback), done.map Prod.fst = [0, 1] ∧ ∀ v ∈ done, v.2 ∈ turn := by
  intro yes no first events s t
  have hin : ⟨s, .worker 0 yes⟩ ∈ moments State.next (ofSize 2) (first ++ [.worker 0 yes]) := by
    rw [moments_snoc]
    exact List.mem_append_right _ List.mem_cons_self
  have hdeciding : s.stages[0]? = some (.deciding 0) := by decide
  have hfree : s.stages[1]? = some .waiting := by decide
  obtain ⟨-, -, hresubmit⟩ := saturation_decides.1 2 _ _ hin 0 yes 0 rfl hdeciding
  obtain ⟨hresubmits, stage, done, now, hstage, -, haccepted, hwhole, hheld, -⟩ :=
    saturation_decides.2 events (by simp [events, first])
  have ht : t = final State.next (ofSize 1) events := rfl
  rw [← ht] at hresubmits hstage haccepted
  have hwaiting : t.stages = [.waiting] := by decide
  have hqueue : t.queue = [] := by decide
  have hrerun : t.metrics.inlineReruns = 1 := by decide
  have horder : (moments State.next (ofSize 1) events).flatMap accepted = [0, 1] := by decide
  obtain rfl : stage = .waiting := (List.cons.inj (hwaiting.symm.trans hstage)).1.symm
  obtain rfl : now = none := Option.map_eq_none_iff.mp hheld
  rw [horder, hqueue, Option.toList_none, List.append_nil, List.append_nil] at haccepted
  exact ⟨hresubmit.mpr ⟨1, .waiting, Nat.one_ne_zero, hfree, rfl⟩, hresubmits, hrerun, hwaiting, done, haccepted.symm,
    hwhole⟩

end State

end MessageBroker.Pool
