/-
  MessageBroker.Proofs.Pool.Shares — what one worker says and counts, while others go on.

  A counter grows by what each worker adds to it and by what callers do. `said` is what one worker
  says to connections in a part of a run, `share` what it adds to a counter, and `others` the rest.
  - `share_add_others` / `grows_of_share`: a counter grows by a worker's share and the rest.
  - `stage_other`: a worker stays where it is while others go on.
  - `tally`: its shares of the counters of decisions; `tally_own` is what one moment of its own adds.
-/

import Mathlib.Algebra.Ring.Int.Defs
import MessageBroker.Proofs.Pool.Visits

namespace MessageBroker.Pool

open History

variable {ι : Type}

namespace State

/-! ## What a worker says and adds -/

/-- It is worker `w` that goes on. -/
def ofWorker (w : Nat) (m : Moment (State ι) (Event ι)) : Bool :=
  match m.event with
  | .worker v _ | .misread v _ | .beginStop v => v == w
  | _ => false

def said (w : Nat) (part : List (Moment (State ι) (Event ι))) : List (ι × Callback) :=
  (part.filter (ofWorker w)).flatMap callbacks

def added (f : Metrics → Nat) (m : Moment (State ι) (Event ι)) : Int :=
  f (m.before.next m.event).metrics - f m.before.metrics

def share (f : Metrics → Nat) (w : Nat) (part : List (Moment (State ι) (Event ι))) : Int :=
  ((part.filter (ofWorker w)).map (added f)).sum

def others (f : Metrics → Nat) (w : Nat) (part : List (Moment (State ι) (Event ι))) : Int :=
  ((part.filter fun m => !ofWorker w m).map (added f)).sum

/-- Worker `w` makes a counter grow by `n`: whatever else it grows by is of others. -/
def Grows (f : Metrics → Nat) (n : Nat) (w : Nat) (s : State ι) (events : List (Event ι)) : Prop :=
  (f (final State.next s events).metrics : Int) = f s.metrics + n + others f w (moments State.next s events)

section
variable {w : Nat} {f : Metrics → Nat} {past part : List (Moment (State ι) (Event ι))}
  {m : Moment (State ι) (Event ι)}

theorem said_snoc (w : Nat) (past : List (Moment (State ι) (Event ι))) (m : Moment (State ι) (Event ι)) :
    said w (past ++ [m]) = said w past ++ said w [m] := by
  simp [said]

theorem share_snoc (f : Metrics → Nat) (w : Nat) (past : List (Moment (State ι) (Event ι)))
    (m : Moment (State ι) (Event ι)) : share f w (past ++ [m]) = share f w past + share f w [m] := by
  simp [share]

theorem said_own (hown : ofWorker w m = true) : said w [m] = callbacks m := by
  simp [said, hown]

theorem share_own (hown : ofWorker w m = true) : share f w [m] = added f m := by
  simp [share, hown]

theorem said_other (hother : ofWorker w m = false) : said w [m] = [] := by
  simp [said, hother]

theorem share_other (hother : ofWorker w m = false) : share f w [m] = 0 := by
  simp [share, hother]

/-- A counter grows by what a worker adds and what all others add. -/
theorem share_add_others (f : Metrics → Nat) (w : Nat) (s : State ι) (events : List (Event ι)) :
    share f w (moments State.next s events) + others f w (moments State.next s events) =
      f (final State.next s events).metrics - f s.metrics := by
  induction events generalizing s with
  | nil => simp [moments, share, others, final]
  | cons e rest ih =>
    have hrest := ih (s.next e)
    have hfinal : final State.next s (e :: rest) = final State.next (s.next e) rest := rfl
    rw [hfinal]
    cases hown : ofWorker w ⟨s, e⟩ <;>
      simp only [moments, share, others, hown, added, List.filter_cons, Bool.not_true, Bool.not_false, if_true,
        Bool.false_eq_true, if_false, List.map_cons, List.sum_cons] at hrest ⊢ <;>
      omega

theorem grows_of_share {s : State ι} {events : List (Event ι)} {n : Nat}
    (h : share f w (moments State.next s events) = n) : Grows f n w s events := by
  have hall := share_add_others f w s events
  unfold Grows
  omega

theorem stage_other {s : State ι} {e : Event ι} (hother : ofWorker w ⟨s, e⟩ = false) :
    (s.next e).stages[w]? = s.stages[w]? := by
  have hchange := s.next_change e
  generalize s.next e = s' at hchange
  cases hchange with
  | worker _ move => exact setStage_ne (by simpa [ofWorker] using hother) move.stages_eq _
  | misread _ move => exact setStage_ne (by simpa [ofWorker] using hother) move.stages_eq _
  | beginStop => exact setStage_ne (by simpa [ofWorker] using hother) rfl _
  | caller => rw [(s.stepCaller_frame _).1]
  | _ => rfl

end

/-! ## The counters of decisions -/

structure Tally where
  closed : Int := 0
  handedBack : Int := 0
  resubmits : Int := 0
  workerFaults : Int := 0

def Tally.after (t : Tally) (m m' : Metrics) : Tally where
  closed := t.closed + (m'.closed - m.closed)
  handedBack := t.handedBack + (m'.handedBack - m.handedBack)
  resubmits := t.resubmits + (m'.resubmits - m.resubmits)
  workerFaults := t.workerFaults + (m'.workerFaults - m.workerFaults)

theorem Tally.after_self (t : Tally) (m : Metrics) : t.after m m = t := by
  simp [Tally.after]

def tally (w : Nat) (part : List (Moment (State ι) (Event ι))) : Tally where
  closed := share (·.closed) w part
  handedBack := share (·.handedBack) w part
  resubmits := share (·.resubmits) w part
  workerFaults := share (·.workerFaults) w part

section
variable {s : State ι} {e : Event ι} {w : Nat} {part : List (Moment (State ι) (Event ι))}

theorem tally_own (hown : ofWorker w ⟨s, e⟩ = true) :
    tally w (part ++ [⟨s, e⟩]) = (tally w part).after s.metrics (s.next e).metrics := by
  simp only [tally, share_snoc, share_own hown]
  rfl

end

end State

end MessageBroker.Pool
