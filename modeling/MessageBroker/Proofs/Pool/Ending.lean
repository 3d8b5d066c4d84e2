/-
  MessageBroker.Proofs.Pool.Ending — when a pool that is closed from outside has ended.

  A worker exits only from a queue that is shut and empty, and such a queue stays empty. A
  caller of `close` waits for each worker that it has not seen exited, and a worker that has
  exited does nothing more. So when the pool is joined, nothing is left in it (`kept_joined`).
  Units of work that close the pool themselves are left out: the joiner may then be a worker.
-/

import MessageBroker.Proofs.Pool.Ownership

namespace MessageBroker.Pool

variable {ι : Type}

def Stage.isStopping : Stage ι → Bool
  | .stopping _ _ => true
  | _ => false

namespace State

/-- The event is no call of `close` from a unit of work. -/
def Event.fromOutside : Event ι → Bool
  | .beginStop _ => false
  | _ => true

section
variable {s s' : State ι} {w : Nat} {reply : Reply} {stage next : Stage ι}

theorem Moves.closing_eq (h : Moves s w reply stage next s') (hstage : stage.isStopping = false) :
    next.isStopping = false ∧ s'.isOpen = s.isOpen ∧ s'.callers = s.callers ∧ s'.joined = s.joined := by
  cases h with
  | stopFurther | stopped => cases hstage
  | _ => exact ⟨rfl, rfl, rfl, rfl⟩

theorem Moves.exits (h : Moves s w reply stage .exited s') :
    stage = .exited ∨ (s.isOpen = false ∧ s.queue = []) := by
  cases h with
  | exit drained closed => exact .inr ⟨closed, drained⟩
  | gone => exact .inl rfl

theorem Moves.queue_eq_nil (h : Moves s w reply stage next s') (hclosed : s.isOpen = false) (hqueue : s.queue = []) :
    s'.queue = [] := by
  cases h with
  | take queued => rw [hqueue] at queued; cases queued
  | enqueue isOpen => rw [hclosed] at isOpen; cases isOpen
  | stopFurther further | stopped further => rw [queue_of_stepClosing further, hqueue]
  | _ => exact hqueue

end

/-- How far a pool of `size` workers, closed from outside, has come to its end. -/
structure Ending (size : Nat) (s : State ι) : Prop where
  workers : s.stages.length = size
  outside : ∀ stage ∈ s.stages, stage.isStopping = false
  drained : .exited ∈ s.stages → s.isOpen = false ∧ s.queue = []
  /-- A caller has seen the workers exited that it does not wait for any more. -/
  joining : ∀ left, .joining left ∈ s.callers → ∀ v < size, v ∉ left → s.stages[v]? = some .exited
  joined : s.joined = true → ∀ v < size, s.stages[v]? = some .exited

theorem ending_ofSize (size : Nat) : Ending size (ofSize size : State ι) where
  workers := List.length_replicate
  outside stage hin := by
    rw [List.eq_of_mem_replicate hin]
    rfl
  drained hin := by cases List.eq_of_mem_replicate hin
  joining left hin := by cases hin
  joined h := by cases h

section
variable {size : Nat} {s s' : State ι}

theorem Ending.frame (he : Ending size s) (hstages : s'.stages = s.stages) (hopen : s'.isOpen = s.isOpen)
    (hqueue : s.isOpen = false → s'.queue = s.queue)
    (hcallers : ∀ left, .joining left ∈ s'.callers → .joining left ∈ s.callers)
    (hjoined : s'.joined = s.joined) : Ending size s' where
  workers := by rw [hstages, he.workers]
  outside := by rw [hstages]; exact he.outside
  drained hin := by
    rw [hstages] at hin
    obtain ⟨hclosed, hnil⟩ := he.drained hin
    exact ⟨hopen.trans hclosed, (hqueue hclosed).trans hnil⟩
  joining left hin := by rw [hstages]; exact he.joining left (hcallers left hin)
  joined h := by rw [hstages]; exact he.joined (hjoined ▸ h)

theorem Ending.move {w : Nat} {reply : Reply} {stage next : Stage ι} (he : Ending size s)
    (hw : s.stages[w]? = some stage) (hm : Moves s w reply stage next s') : Ending size (s'.setStage w next) := by
  have hstage := he.outside stage (List.mem_of_getElem? hw)
  obtain ⟨hnext, hopen, hcallers, hjoined⟩ := hm.closing_eq hstage
  have hstages := hm.stages_eq
  -- an exited worker stays where it is
  have hstays : ∀ v : Nat, s.stages[v]? = some .exited → (s'.setStage w next).stages[v]? = some .exited := by
    intro v hv
    simp only [setStage, hstages]
    by_cases hvw : w = v
    · subst hvw
      obtain rfl : stage = .exited := Option.some.inj (hw.symm.trans hv)
      cases hm
      rw [List.getElem?_set_self (List.getElem?_eq_some_iff.mp hv).1]
    · rw [List.getElem?_set_ne hvw, hv]
  constructor
  · simp [setStage, hstages, he.workers]
  · intro stage' hin
    simp only [setStage, hstages] at hin
    rcases List.mem_or_eq_of_mem_set hin with hin | rfl
    · exact he.outside stage' hin
    · exact hnext
  · intro hin
    simp only [setStage, hstages] at hin
    have hend : s.isOpen = false ∧ s.queue = [] := by
      rcases List.mem_or_eq_of_mem_set hin with hin | heq
      · exact he.drained hin
      · subst heq
        rcases hm.exits with rfl | hend
        · exact he.drained (List.mem_of_getElem? hw)
        · exact hend
    exact ⟨hopen.trans hend.1, hm.queue_eq_nil hend.1 hend.2⟩
  · intro left hin v hv hleft
    exact hstays v (he.joining left (hcallers ▸ hin) v hv hleft)
  · intro h v hv
    exact hstays v (he.joined (hjoined ▸ h) v hv)

/-- What a caller from outside has seen by its next point, and has done by then. -/
theorem Ending.stepClosing {point : Closing} (he : Ending size s) (hin : point ∈ s.callers) :
    (s.stepClosing none point).2.callers = s.callers ∧
      ((s.stepClosing none point).2.isOpen = true → s.isOpen = true) ∧
      (∀ left, (s.stepClosing none point).1 = .joining left →
        ∀ v < size, v ∉ left → s.stages[v]? = some .exited) ∧
      ((s.stepClosing none point).2.joined = true → ∀ v < size, s.stages[v]? = some .exited) := by
  rcases point with _ | _ | (_ | ⟨v, rest⟩) | _ | _
  · exact ⟨rfl, nofun, nofun, he.joined⟩
  · simp only [State.stepClosing]
    split
    · exact ⟨rfl, id, by rintro _ ⟨⟩, he.joined⟩
    · refine ⟨rfl, id, fun left hleft v hv hnot => ?_, he.joined⟩
      -- who joins the workers waits for every one of them
      cases hleft
      exact absurd (by simpa [he.workers, State.size] using hv) hnot
  · exact ⟨rfl, id, by rintro _ ⟨⟩, fun _ v hv => he.joining [] hin v hv List.not_mem_nil⟩
  · have hseen := he.joining _ hin
    simp only [State.stepClosing]
    split
    · rename_i hv
      refine ⟨rfl, id, fun left hleft u hu hnot => ?_, he.joined⟩
      cases hleft
      by_cases huv : u = v
      · rw [huv, hv]
      · exact hseen u hu (by simp [huv, hnot])
    · rename_i hv
      refine ⟨rfl, id, fun left hleft u hu hnot => ?_, he.joined⟩
      cases hleft
      have huv : u ≠ v := by
        rintro rfl
        have := List.getElem?_eq_none_iff.mp hv
        have := he.workers
        omega
      exact hseen u hu (by simp [huv, hnot])
    · exact ⟨rfl, id, fun left hleft => by cases hleft; exact hseen, he.joined⟩
  · refine ⟨rfl, id, fun left hleft => ?_, he.joined⟩
    simp only [State.stepClosing] at hleft
    split at hleft <;> cases hleft
  · exact ⟨rfl, id, by rintro _ ⟨⟩, he.joined⟩

/-- A caller from outside goes on; the pool is joined when it has seen every worker exited. -/
theorem Ending.stepCaller (he : Ending size s) (i : Nat) : Ending size (s.stepCaller i) := by
  unfold State.stepCaller
  split
  · exact he
  · rename_i point hpoint
    obtain ⟨hcallers, hopen, hjoining, hjoined⟩ := he.stepClosing (List.mem_of_getElem? hpoint)
    cases hstep : s.stepClosing none point with
    | mk next s' =>
      rw [hstep] at hcallers hopen hjoining hjoined
      have hstages := stages_of_stepClosing hstep
      have hqueue := queue_of_stepClosing hstep
      constructor
      · rw [hstages, he.workers]
      · rw [hstages]
        exact he.outside
      · intro hin
        rw [hstages] at hin
        obtain ⟨hclosed, hnil⟩ := he.drained hin
        refine ⟨?_, hqueue.trans hnil⟩
        by_contra hreopened
        rw [hopen (by simpa using hreopened)] at hclosed
        cases hclosed
      · intro left hin
        rw [hstages]
        rcases List.mem_or_eq_of_mem_set hin with hin | heq
        · exact he.joining left (hcallers ▸ hin)
        · exact hjoining left heq.symm
      · intro h
        rw [hstages]
        exact hjoined h

theorem Ending.next {e : Event ι} (he : Ending size s) (houtside : e.fromOutside = true) (h : Change s e s') :
    Ending size s' := by
  cases h with
  | idle | fault => exact he
  | refuse => exact he.frame rfl rfl (fun _ => rfl) (fun _ hin => hin) rfl
  | enqueue hopen =>
    refine he.frame rfl rfl (fun hclosed => ?_) (fun _ hin => hin) rfl
    rw [hopen] at hclosed
    cases hclosed
  | worker place move => exact he.move place move
  | misread place move => exact he.move place move
  | beginStop => cases houtside
  | callClose => exact he.frame rfl rfl (fun _ => rfl) (fun left hin => by simpa [callClose] using hin) rfl
  | caller => exact he.stepCaller _

/-- When a pool of at least one worker is joined, no connection is left in it. -/
theorem Ending.kept_joined (he : Ending size s) (hsize : 0 < size) (hjoined : s.joined = true) : s.kept = [] := by
  have hexited : ∀ stage ∈ s.stages, stage = .exited := by
    intro stage hin
    obtain ⟨v, hv⟩ := List.getElem?_of_mem hin
    have hlt : v < size := he.workers ▸ (List.getElem?_eq_some_iff.mp hv).1
    exact Option.some.inj (hv.symm.trans (he.joined hjoined v hlt))
  have hqueue := (he.drained (List.mem_of_getElem? (he.joined hjoined 0 hsize))).2
  have hheld : s.stages.filterMap Stage.held = [] :=
    List.filterMap_eq_nil_iff.mpr fun stage hin => by rw [hexited stage hin]; rfl
  rw [kept, hqueue, hheld, List.nil_append]

end

/-! ## Joined for good -/

theorem joined_stepClosing {s : State ι} (hjoined : s.joined = true) (self : Option Nat) (point : Closing) :
    (s.stepClosing self point).2.joined = true := by
  rcases point with _ | _ | (_ | ⟨v, rest⟩) | _ | _
  · exact hjoined
  · simp only [stepClosing]
    split <;> exact hjoined
  · rfl
  · simp only [stepClosing]
    split <;> exact hjoined
  · exact hjoined
  · exact hjoined

theorem Change.joined {s s' : State ι} {e : Event ι} (h : Change s e s') (hjoined : s.joined = true) :
    s'.joined = true := by
  have hmove {w : Nat} {reply : Reply} {stage next : Stage ι} {s' : State ι}
      (hm : Moves s w reply stage next s') :
      (s'.setStage w next).joined = true := by
    cases hm with
    | @stopFurther _ _ point _ _ further | @stopped _ _ point _ further =>
      have := joined_stepClosing hjoined (some w) point
      rwa [further] at this
    | _ => exact hjoined
  cases h with
  | idle | refuse | fault | enqueue | beginStop | callClose => exact hjoined
  | worker _ move => exact hmove move
  | misread _ move => exact hmove move
  | caller =>
    unfold stepCaller
    split
    · exact hjoined
    · exact joined_stepClosing hjoined none _

end State

end MessageBroker.Pool
