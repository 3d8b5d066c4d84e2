/-
  MessageBroker.Proofs.Pool.Ownership — the connections that a pool has.

  A connection in the pool is on the queue or held by a worker (`kept`). It leaves when a
  worker lets it go (`letsGo`): it has ended or been closed, is handed to the detector, or
  is lost to a fault on its way back to the queue.
  - `kept_step`: a step of a worker moves connections about, or lets one go.
-/

import MessageBroker.Proofs.Pool.Moves

namespace MessageBroker.Pool

variable {ι : Type}

/-- The connection that leaves the pool when its worker goes on from a stage. -/
def Stage.letsGo (isOpen : Bool) (reply : Reply) : Stage ι → Option ι
  | .working c => if reply = .returned true then some c else none
  | .resubmitting c =>
    match isOpen, reply with
    | true, .raised _ => some c
    | _, _ => none
  | .handing c | .closing c => some c
  | _ => none

namespace State

def kept (s : State ι) : List ι := s.queue ++ s.stages.filterMap Stage.held

def letsGo (s : State ι) (w : Nat) (reply : Reply) : Option ι := s.stages[w]?.bind (·.letsGo s.isOpen reply)

variable {s s' : State ι} {w : Nat} {reply : Reply} {stage next : Stage ι}

/-- Outside units of work, a step without a call lets no connection go. -/
theorem letsGo_of_nextCall_none (hcall : s.nextCall w = none)
    (hunit : ∀ c, s.stages[w]? ≠ some (.working c)) (b : Bool) :
    s.letsGo w (.returned b) = none := by
  cases hw : s.stages[w]? with
  | none => simp [letsGo, hw]
  | some stage =>
    cases stage with
    | working c => exact absurd hw (hunit c)
    | handing | closing => simp [nextCall, hw] at hcall
    | resubmitting => cases hopen : s.isOpen <;> simp [letsGo, hw, Stage.letsGo, hopen]
    | _ => simp [letsGo, hw, Stage.letsGo]

/-- A step with a call lets a connection go if it closes it or hands it over, or if the
    connection faults at the news that it is queued. -/
theorem letsGo_of_nextCall {c d : ι} {call : Call} (hcall : s.nextCall w = some (c, call))
    (hgone : s.letsGo w reply = some d) :
    d = c ∧ (call = .close ∨ call = .handOver ∨ ∃ state fault, call = .notify state ∧ reply = .raised fault) := by
  cases hw : s.stages[w]? with
  | none => simp [letsGo, hw] at hgone
  | some stage =>
    cases stage with
    | working => simp [nextCall, hw] at hcall
    | handing | closing =>
      simp [nextCall, hw] at hcall
      simp [letsGo, hw, Stage.letsGo] at hgone
      simp [← hcall.1, ← hcall.2, hgone]
    | resubmitting =>
      cases hopen : s.isOpen with
      | false => simp [nextCall, hw, hopen] at hcall
      | true =>
        cases reply with
        | returned b => simp [letsGo, hw, Stage.letsGo, hopen] at hgone
        | raised fault =>
          simp [nextCall, hw, hopen] at hcall
          simp [letsGo, hw, Stage.letsGo, hopen] at hgone
          exact ⟨hgone.symm.trans hcall.1, .inr (.inr ⟨_, fault, hcall.2.symm, rfl⟩)⟩
    | _ => simp [letsGo, hw, Stage.letsGo] at hgone

theorem letsGo_of_handOver {c : ι} (hcall : s.nextCall w = some (c, .handOver)) (reply : Reply) :
    s.letsGo w reply = some c := by
  cases hw : s.stages[w]? with
  | none => simp [nextCall, hw] at hcall
  | some stage =>
    cases stage with
    | handing => simpa [nextCall, letsGo, hw, Stage.letsGo] using hcall
    | resubmitting => cases hopen : s.isOpen <;> simp [nextCall, hw, hopen] at hcall
    | _ => simp [nextCall, hw] at hcall

theorem held_setStage (hw : s.stages[w]? = some stage) (hs : s'.stages = s.stages) (next : Stage ι) :
    (stage.held.toList ++ (s'.setStage w next).stages.filterMap Stage.held).Perm
      (next.held.toList ++ s.stages.filterMap Stage.held) := by
  have hperm := (cons_set_perm hw next).filterMap Stage.held
  simp only [setStage, hs]
  cases hold : stage.held <;> cases hnew : next.held <;> simpa [List.filterMap_cons, hold, hnew] using hperm

theorem Moves.keeps (h : Moves s w reply stage next s') :
    (s.queue ++ stage.held.toList).Perm
      (s'.queue ++ next.held.toList ++ (stage.letsGo s.isOpen reply).toList) := by
  cases h with
  | stopFurther further _ | stopped further => simp [queue_of_stepClosing further, Stage.held, Stage.letsGo]
  | take queued =>
    rw [queued]
    simpa [Stage.held, Stage.letsGo] using (List.perm_append_singleton _ _).symm
  | enqueue isOpen | enqueueFault isOpen | refuse isOpen =>
    simp [Stage.held, Stage.letsGo, record, isOpen]
  | _ => simp [Stage.held, Stage.letsGo, record, report, caught]

theorem kept_move (hw : s.stages[w]? = some stage) (hm : Moves s w reply stage next s') :
    s.kept.Perm ((s'.setStage w next).kept ++ (stage.letsGo s.isOpen reply).toList) := by
  classical
  have hheld := held_setStage hw hm.stages_eq next
  have hmove := hm.keeps
  -- as multisets: the old stage's connection cancels
  rw [List.perm_iff_count] at hheld hmove ⊢
  intro c
  have h1 := hheld c
  have h2 := hmove c
  simp only [kept, setStage, List.count_append] at h1 h2 ⊢
  omega

/-- What a step of a worker does to the connections in the pool. -/
theorem kept_step (s : State ι) (w : Nat) (reply : Reply) :
    s.kept.Perm ((s.step w reply).kept ++ (s.letsGo w reply).toList) := by
  cases hw : s.stages[w]? with
  | none => simp [step_of_none hw, letsGo, hw]
  | some stage =>
    obtain ⟨next, s', hm, hstep⟩ := step_moves hw reply
    rw [hstep]
    simpa [letsGo, hw] using kept_move hw hm

theorem mem_kept_step {c : ι} (hc : c ∈ s.kept) (w : Nat) (reply : Reply) :
    c ∈ (s.step w reply).kept ∨ s.letsGo w reply = some c := by
  rw [(s.kept_step w reply).mem_iff] at hc
  exact (List.mem_append.mp hc).imp_right Option.mem_toList.mp

theorem kept_misread (s : State ι) (w : Nat) (busy : Bool) : s.kept.Perm (s.misread w busy).kept := by
  rcases s.misread_cases w busy with hs | ⟨c, hw, next, s', hm, hs⟩
  · rw [hs]
  · rw [hs]
    simpa [Stage.letsGo] using kept_move hw (hm (.returned true))

theorem kept_schedule (s : State ι) (c : ι) (b : Bool) :
    (s.schedule c (.returned b)).2.kept.Perm (if s.isOpen then c :: s.kept else s.kept) := by
  cases hopen : s.isOpen with
  | false => simp [schedule, hopen, kept, record]
  | true => simp [schedule, hopen, kept, record]

theorem kept_stepCaller (s : State ι) (i : Nat) : (s.stepCaller i).kept = s.kept := by
  have hs := s.stepCaller_frame i
  rw [kept, hs.1, hs.2.1, kept]

end State

end MessageBroker.Pool
