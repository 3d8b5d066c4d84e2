/-
  MessageBroker.Proofs.Pool.Visits — every connection hears the pool as the protocol has it.

  A connection has one owner at a time (`Owned`): who offers it to the pool has it, and does
  not have it while it is in the pool or once the pool has dropped it. So a connection is in
  one place: on the queue, with one worker, away, or gone. What it has heard by then is a
  word that belongs to the place (`Told`).
  - `Moves.leads`: what a worker tells its connection when it goes on leads from the words of
    one place to those of the next.
  - `Told.next`: so does every event.
  - `callbacks_follow_protocol`: what a connection has heard begins a word of the protocol,
    no two workers have it, and it is closed once at most.
-/

import MessageBroker.Proofs.Pool.Ownership
import MessageBroker.Proofs.Pool.Protocol

namespace MessageBroker.Pool

open History Protocol
open scoped Computability

variable {ι : Type}

def Callback.ofCall : Call → Reply → Callback
  | .work, _ => .workBegins
  | call, reply => .made call reply

namespace Stage

def tells (isOpen : Bool) (reply : Reply) : Stage ι → List Callback
  | .arriving _ => [.made (.notify .running) reply]
  | .starting _ => [.workBegins]
  | .working _ => [.workEnds reply]
  | .askingChanged _ => [.made .changed reply]
  | .askingPartial _ => [.made .partialRead reply]
  | .resubmitting _ => if isOpen then [.made (.notify .queued) reply] else []
  | .parking _ => [.made (.notify .awaitingReadiness) reply]
  | .handing _ => [.made .handOver reply]
  | .closing _ => [.made .close reply]
  | _ => []

/-- The connection that ends its life when its worker goes on from a stage: it leaves the
    pool, and not by way of the detector. -/
def drops (isOpen : Bool) (reply : Reply) : Stage ι → Option ι
  | .handing c =>
    match reply with
    | .returned _ => none
    | .raised _ => some c
  | stage => stage.letsGo isOpen reply

def callbacks (isOpen : Bool) (reply : Reply) (stage : Stage ι) : List (ι × Callback) :=
  stage.held.toList.flatMap fun c => (stage.tells isOpen reply).map (c, ·)

/-- What a worker at this stage has said to its connection. -/
def recent : Stage ι → Language Callback
  | .starting _ => runs
  | .working _ | .stopping _ _ => runs * begins
  | .askingChanged _ => runs * paused
  | .askingPartial _ => runs * unchanged
  | .deciding _ | .resubmitting _ => runs * moreUnit
  | .parking _ => runs * idleUnit
  | .handing _ => runs * idleUnit * returns (.notify .awaitingReadiness)
  | .closing _ => spoilt
  | .waiting | .arriving _ | .leaving _ | .exited => 1

theorem letsGo_of_drops {stage : Stage ι} {isOpen : Bool} {reply : Reply} {c : ι}
    (h : stage.drops isOpen reply = some c) : stage.letsGo isOpen reply = some c := by
  cases stage with
  | handing d =>
    cases reply with
    | returned b => cases h
    | raised fault => exact h
  | _ => exact h

theorem exists_goes {stage : Stage ι} {c : ι} {u : List Callback} (hheld : stage.held = some c)
    (hu : u ∈ stage.recent) : ∃ t, u ++ t ∈ goes := by
  have hclosed {x : List Callback} (hx : x ∈ spoilt) : x ++ [.made .close (.returned true)] ∈ goes :=
    spoilt_closes_le_goes (Language.append_mem_mul hx (.inl (mem_returns _ _)))
  have hfault {x : List Callback} {y : Callback} (h : x ++ [y] ∈ spoilt) : ∃ t, x ++ t ∈ goes :=
    ⟨[y, .made .close (.returned true)], by simpa using hclosed h⟩
  cases stage with
  | waiting | leaving _ | exited => cases hheld
  | arriving d =>
    obtain rfl := hu
    exact hfault (.inl (mem_faults _ .untold))
  | starting d =>
    refine ⟨[.workBegins] ++ [.workEnds (.returned true)], .inl (.inl (.inl ?_))⟩
    exact Language.append_mem_mul hu (Language.append_mem_mul mem_begins (mem_ends true))
  | working d | stopping d point => exact ⟨_, .inl (.inl (.inl (append_mem hu (mem_ends true) le_rfl)))⟩
  | askingChanged d =>
    exact hfault (faulty_le_spoilt (append_mem hu (mem_faults _ .untold) (le_sup_right.trans le_sup_left)))
  | askingPartial d => exact hfault (faulty_le_spoilt (append_mem hu (mem_faults _ .untold) le_sup_right))
  | deciding d | resubmitting d => exact ⟨_, hclosed (more_le_spoilt hu)⟩
  | parking d => exact hfault (idle_le_spoilt (append_mem hu (mem_faults _ .untold) le_rfl))
  | handing d => exact ⟨_, .inr (Language.append_mem_mul hu (mem_faults _ .untold))⟩
  | closing d => exact ⟨_, hclosed hu⟩

end Stage

namespace State

/-! ## What is said, and who has a connection -/

def callbacks (m : Moment (State ι) (Event ι)) : List (ι × Callback) :=
  match m.event with
  | .worker w reply =>
    match m.before.stages[w]? with
    | some (.working c) => [(c, .workEnds reply)]
    | _ => (calls m).map fun (c, call, reply) => (c, .ofCall call reply)
  | _ => (calls m).map fun (c, call, reply) => (c, .ofCall call reply)

def heard [DecidableEq ι] (c : ι) (past : List (Moment (State ι) (Event ι))) : List Callback :=
  (past.flatMap callbacks).filterMap fun (d, x) => if d = c then some x else none

def offered (m : Moment (State ι) (Event ι)) : List ι :=
  match m.event with
  | .schedule c _ => [c]
  | _ => []

/-- The connections that end their lives in a moment: they ended, were closed, or are lost
    to a fault. -/
def dropped (m : Moment (State ι) (Event ι)) : List ι :=
  match m.event with
  | .schedule c (.raised _) => if m.before.isOpen then [c] else []
  | .worker w reply => (m.before.stages[w]?.bind (·.drops m.before.isOpen reply)).toList
  | _ => []

/-- Who offers a connection has it: it is not in the pool, and the pool has not dropped it. -/
structure Owned (past : List (Moment (State ι) (Event ι))) : Prop where
  apart : ∀ m ∈ past, ∀ c ∈ offered m, c ∉ m.before.kept
  alive : past.Pairwise fun earlier m => ∀ c ∈ offered m, c ∉ dropped earlier

instance [DecidableEq ι] (past : List (Moment (State ι) (Event ι))) : Decidable (Owned past) :=
  decidable_of_iff
    ((∀ m ∈ past, ∀ c ∈ offered m, c ∉ m.before.kept) ∧
      past.Pairwise fun earlier m => ∀ c ∈ offered m, c ∉ dropped earlier)
    ⟨fun h => ⟨h.1, h.2⟩, fun h => ⟨h.apart, h.alive⟩⟩

theorem Owned.of_snoc {past : List (Moment (State ι) (Event ι))} {m : Moment (State ι) (Event ι)}
    (h : Owned (past ++ [m])) :
    Owned past ∧ ∀ c ∈ offered m, c ∉ m.before.kept ∧ ∀ earlier ∈ past, c ∉ dropped earlier := by
  obtain ⟨hpast, -, hlast⟩ := List.pairwise_append.mp h.alive
  refine ⟨⟨fun x hx => h.apart x (List.mem_append_left _ hx), hpast⟩, fun c hc => ⟨?_, ?_⟩⟩
  · exact h.apart m (by simp) c hc
  · exact fun earlier hin => hlast earlier hin m List.mem_cons_self c hc

theorem Owned.snoc_of_offered_nil {past : List (Moment (State ι) (Event ι))} {m : Moment (State ι) (Event ι)}
    (h : Owned past) (hm : offered m = []) : Owned (past ++ [m]) := by
  constructor
  · intro x hx c hc
    rcases List.mem_append.mp hx with hx | hx
    · exact h.apart x hx c hc
    · obtain rfl := List.mem_singleton.mp hx
      rw [hm] at hc
      cases hc
  · refine List.pairwise_append.mpr ⟨h.alive, List.pairwise_singleton _ _, ?_⟩
    intro earlier _ x hx c hc
    obtain rfl := List.mem_singleton.mp hx
    rw [hm] at hc
    cases hc

section
variable [DecidableEq ι] {past : List (Moment (State ι) (Event ι))} {s s' : State ι} {w : Nat} {reply : Reply}
  {stage next : Stage ι} {c : ι} {e : Event ι}

@[simp] theorem heard_nil (c : ι) : heard c ([] : List (Moment (State ι) (Event ι))) = [] := rfl

theorem heard_snoc (c : ι) (past : List (Moment (State ι) (Event ι))) (m : Moment (State ι) (Event ι)) :
    heard c (past ++ [m]) = heard c past ++ heard c [m] := by
  simp [heard]

omit [DecidableEq ι] in
theorem callbacks_worker (hw : s.stages[w]? = some stage) (reply : Reply) :
    callbacks ⟨s, .worker w reply⟩ = stage.callbacks s.isOpen reply := by
  cases stage with
  | resubmitting c =>
    cases hopen : s.isOpen <;>
      simp [callbacks, calls, nextCall, hw, hopen, Stage.callbacks, Stage.held, Stage.tells, Callback.ofCall]
  | _ => simp [callbacks, calls, nextCall, hw, Stage.callbacks, Stage.held, Stage.tells, Callback.ofCall]

theorem heard_own (hsaid : callbacks ⟨s, e⟩ = stage.callbacks s.isOpen reply) (hheld : stage.held = some c) :
    heard c [⟨s, e⟩] = stage.tells s.isOpen reply := by
  simp [heard, hsaid, Stage.callbacks, hheld, List.filterMap_map]

theorem heard_other (hsaid : callbacks ⟨s, e⟩ = stage.callbacks s.isOpen reply) (hheld : stage.held ≠ some c) :
    heard c [⟨s, e⟩] = [] := by
  cases hown : stage.held with
  | none => simp [heard, hsaid, Stage.callbacks, hown]
  | some d =>
    have hd : d ≠ c := fun h => hheld (by rw [hown, h])
    simp [heard, hsaid, Stage.callbacks, hown, List.filterMap_map, hd]

end

/-! ## One move -/

section
variable {s s' : State ι} {w : Nat} {reply : Reply} {stage next : Stage ι} {c : ι} {u : List Callback}

/-- A worker that holds `c` goes on. It keeps `c`, or `c` is on the queue again, with the
    detector, or gone; and what it tells `c` makes a word of the old place one of the new. -/
theorem Moves.leads (h : Moves s w reply stage next s') (hheld : stage.held = some c) (hu : u ∈ stage.recent) :
    (next.held = some c ∧ u ++ stage.tells s.isOpen reply ∈ next.recent) ∨
      (c ∈ s'.queue ∧ u ++ stage.tells s.isOpen reply ∈ again) ∨
      (stage.letsGo s.isOpen reply = some c ∧ stage.drops s.isOpen reply = none ∧
        u ++ stage.tells s.isOpen reply ∈ parks) ∨
      (stage.drops s.isOpen reply = some c ∧ u ++ stage.tells s.isOpen reply ∈ goes) := by
  cases h with
  | take | wait | exit | leave | leaveFault | gone => cases hheld
  | arrive =>
    obtain rfl := hu
    exact .inl ⟨hheld, returns_le_runs (mem_returns _ _)⟩
  | arriveFault =>
    obtain rfl := hu
    exact .inl ⟨hheld, .inl (mem_faults _ _)⟩
  | start => exact .inl ⟨hheld, Language.append_mem_mul hu mem_begins⟩
  | finish =>
    cases hheld
    exact .inr (.inr (.inr ⟨rfl, .inl (.inl (.inl (append_mem hu (mem_ends true) le_rfl)))⟩))
  | pause => exact .inl ⟨hheld, append_mem hu (mem_ends false) le_rfl⟩
  | unitFault =>
    exact .inl ⟨hheld, faulty_le_spoilt (append_mem hu (mem_endsInFault _) (le_sup_left.trans le_sup_left))⟩
  | stopFurther | stopped | resubmit => exact .inl ⟨hheld, mem_append_nil hu⟩
  | changed => exact .inl ⟨hheld, append_mem hu (mem_answers _ _) le_sup_left⟩
  | unchanged => exact .inl ⟨hheld, append_mem hu (mem_answers _ _) le_rfl⟩
  | changedFault =>
    exact .inl ⟨hheld, faulty_le_spoilt (append_mem hu (mem_faults _ _) (le_sup_right.trans le_sup_left))⟩
  | partialRead => exact .inl ⟨hheld, append_mem hu (mem_answers _ _) le_sup_right⟩
  | idle => exact .inl ⟨hheld, append_mem hu (mem_answers _ _) le_rfl⟩
  | partialFault =>
    exact .inl ⟨hheld, faulty_le_spoilt (append_mem hu (mem_faults _ _) le_sup_right)⟩
  | rerun => exact .inl ⟨hheld, mem_append_nil (mul_kstar_mul_le _ _ hu)⟩
  | enqueue isOpen =>
    cases hheld
    rw [Stage.tells, isOpen]
    exact .inr (.inl ⟨by simp, Language.append_mem_mul hu (mem_returns _ _)⟩)
  | enqueueFault isOpen =>
    cases hheld
    rw [Stage.tells, isOpen]
    exact .inr (.inr (.inr ⟨rfl, .inl (.inr (Language.append_mem_mul hu (mem_faults _ _)))⟩))
  | refuse closed =>
    rw [Stage.tells, closed]
    exact .inl ⟨hheld, mem_append_nil (more_le_spoilt hu)⟩
  | park => exact .inl ⟨hheld, Language.append_mem_mul hu (mem_returns _ _)⟩
  | parkFault => exact .inl ⟨hheld, idle_le_spoilt (append_mem hu (mem_faults _ _) le_rfl)⟩
  | hand =>
    cases hheld
    exact .inr (.inr (.inl ⟨rfl, rfl, Language.append_mem_mul hu (mem_returns _ _)⟩))
  | handFault =>
    cases hheld
    exact .inr (.inr (.inr ⟨rfl, .inr (Language.append_mem_mul hu (mem_faults _ _))⟩))
  | close =>
    cases hheld
    exact .inr (.inr (.inr ⟨rfl, spoilt_closes_le_goes (Language.append_mem_mul hu (.inl (mem_returns _ _)))⟩))
  | closeFault =>
    cases hheld
    exact .inr (.inr (.inr ⟨rfl, spoilt_closes_le_goes (Language.append_mem_mul hu (.inr (mem_faults _ _)))⟩))

theorem setStage_self (hw : s.stages[w]? = some stage) (hs : s'.stages = s.stages) (next : Stage ι) :
    (s'.setStage w next).stages[w]? = some next := by
  rw [setStage, hs, List.getElem?_set_self (List.getElem?_eq_some_iff.mp hw).1]

theorem setStage_ne {v : Nat} (hvw : v ≠ w) (hs : s'.stages = s.stages) (next : Stage ι) :
    (s'.setStage v next).stages[w]? = s.stages[w]? := by
  rw [setStage, hs, List.getElem?_set_ne hvw]

theorem Moves.mem_queue (h : Moves s w reply stage next s') (hc : c ∈ s.queue) :
    c ∈ s'.queue ∨ next = .arriving c := by
  cases h with
  | take queued =>
    rw [queued] at hc
    rcases List.mem_cons.mp hc with rfl | hc
    · exact .inr rfl
    · exact .inl hc
  | stopFurther further | stopped further => exact .inl (by rwa [queue_of_stepClosing further])
  | enqueue => exact .inl (List.mem_append_left _ hc)
  | _ => exact .inl hc

theorem mem_kept_of_held (hw : s.stages[w]? = some stage) (hheld : stage.held = some c) : c ∈ s.kept :=
  List.mem_append_right _ (List.mem_filterMap.mpr ⟨stage, List.mem_of_getElem? hw, hheld⟩)

/-- While no connection is in the pool twice, one that is queued is held by no worker. -/
theorem not_held_of_queued (hn : s.kept.Nodup) (hc : c ∈ s.queue) (hw : s.stages[w]? = some stage) :
    stage.held ≠ some c := by
  intro hheld
  have hin : c ∈ s.stages.filterMap Stage.held := List.mem_filterMap.mpr ⟨stage, List.mem_of_getElem? hw, hheld⟩
  exact (List.nodup_append.mp hn).2.2 c hc c hin rfl

/-- While no connection is in the pool twice, no two workers hold the same one. -/
theorem holder_unique {v : Nat} {stage' : Stage ι} (hn : s.kept.Nodup) (hv : s.stages[v]? = some stage')
    (hw : s.stages[w]? = some stage) (hv' : stage'.held = some c) (hw' : stage.held = some c) : v = w := by
  have hheld := List.pairwise_filterMap.mp (List.nodup_append.mp hn).2.1
  obtain ⟨hvlt, rfl⟩ := List.getElem?_eq_some_iff.mp hv
  obtain ⟨hwlt, rfl⟩ := List.getElem?_eq_some_iff.mp hw
  have hall := List.pairwise_iff_getElem.mp hheld
  rcases Nat.lt_trichotomy v w with hlt | heq | hlt
  · exact absurd rfl (hall v w hvlt hwlt hlt c hv' c hw')
  · exact heq
  · exact absurd rfl (hall w v hwlt hvlt hlt c hw' c hv')

theorem not_kept_of_letsGo (hn : s.kept.Nodup) (hw : s.stages[w]? = some stage) (hm : Moves s w reply stage next s')
    (hgone : stage.letsGo s.isOpen reply = some c) : c ∉ (s'.setStage w next).kept := by
  have hn' := (kept_move hw hm).nodup_iff.mp hn
  rw [hgone, Option.toList_some] at hn'
  intro hin
  exact (List.nodup_append.mp hn').2.2 c hin c List.mem_cons_self rfl

end

/-! ## Every run -/

section
variable [DecidableEq ι] {past : List (Moment (State ι) (Event ι))} {s s' : State ι} {w : Nat} {reply : Reply}
  {stage next : Stage ι} {c : ι} {e : Event ι}

/-- Where `c` is, and what it has heard by then. -/
inductive Told (past : List (Moment (State ι) (Event ι))) (s : State ι) (c : ι) : Prop
  | queued (place : c ∈ s.queue) (told : heard c past ∈ visit∗ * waits)
  | held {w : Nat} {stage : Stage ι} (place : s.stages[w]? = some stage) (holds : stage.held = some c)
      (told : heard c past ∈ visit∗ * waits * stage.recent)
  | away (place : c ∉ s.kept) (told : heard c past ∈ visit∗)
  | gone (place : c ∉ s.kept) (dead : ∃ m ∈ past, c ∈ dropped m) (told : heard c past ∈ visit∗ * farewell)

/-- A moment in which `c` hears nothing. Meanwhile a worker may take it from the queue, and
    its worker may go on without a call. -/
theorem Told.quiet {m : Moment (State ι) (Event ι)} (h : Told past s c) (hsaid : heard c [m] = [])
    (hqueue : c ∈ s.queue → c ∈ s'.queue ∨ ∃ w : Nat, s'.stages[w]? = some (.arriving c))
    (hheld : ∀ (w : Nat) (stage : Stage ι), s.stages[w]? = some stage → stage.held = some c →
      ∃ stage' : Stage ι, s'.stages[w]? = some stage' ∧ stage'.held = some c ∧ stage.recent ≤ stage'.recent)
    (hkept : c ∉ s.kept → c ∉ s'.kept) : Told (past ++ [m]) s' c := by
  have hword : heard c (past ++ [m]) = heard c past := by rw [heard_snoc, hsaid, List.append_nil]
  cases h with
  | queued place told =>
    rcases hqueue place with hin | ⟨w, hw⟩
    · exact .queued hin (hword ▸ told)
    · refine .held hw rfl ?_
      rw [hword, Stage.recent, mul_one]
      exact told
  | held place holds told =>
    obtain ⟨stage', hw, hc, hle⟩ := hheld _ _ place holds
    exact .held hw hc (mul_le_mul_right hle _ (hword ▸ told))
  | away place told => exact .away (hkept place) (hword ▸ told)
  | gone place dead told =>
    obtain ⟨m', hin, hm'⟩ := dead
    exact .gone (hkept place) ⟨m', List.mem_append_left _ hin, hm'⟩ (hword ▸ told)

/-- A worker goes on, whatever the event `e` that brings it about. -/
theorem Told.move (h : Told past s c) (hn : s.kept.Nodup) (hw : s.stages[w]? = some stage)
    (hm : Moves s w reply stage next s') (hsaid : callbacks ⟨s, e⟩ = stage.callbacks s.isOpen reply)
    (hdropped : dropped ⟨s, e⟩ = (stage.drops s.isOpen reply).toList) :
    Told (past ++ [⟨s, e⟩]) (s'.setStage w next) c := by
  have hset := setStage_self hw hm.stages_eq next
  by_cases hown : stage.held = some c
  · -- the worker holds `c`: what `c` has heard of this worker grows
    have htold : heard c past ∈ visit∗ * waits * stage.recent := by
      cases h with
      | queued place told => exact absurd hown (not_held_of_queued hn place hw)
      | held place holds told =>
        obtain rfl := holder_unique hn place hw holds hown
        rw [place] at hw
        exact Option.some.inj hw ▸ told
      | away place | gone place => exact absurd (mem_kept_of_held hw hown) place
    obtain ⟨a, ha, u, hu, hword⟩ := Language.mem_mul.mp htold
    have hnow : heard c (past ++ [⟨s, e⟩]) = a ++ (u ++ stage.tells s.isOpen reply) := by
      rw [heard_snoc, heard_own hsaid hown, ← hword, List.append_assoc]
    rcases hm.leads hown hu with ⟨hheld, hnew⟩ | ⟨hqueue, hnew⟩ | ⟨hgone, -, hnew⟩ | ⟨hdead, hnew⟩
    · exact .held hset hheld (hnow ▸ Language.append_mem_mul ha hnew)
    · exact .queued hqueue (hnow ▸ append_mem ha hnew again_of_waits)
    · exact .away (not_kept_of_letsGo hn hw hm hgone) (visit_of_visits (hnow ▸ append_mem ha hnew le_rfl))
    · have hdead' : c ∈ dropped ⟨s, e⟩ := by simp [hdropped, hdead]
      exact .gone (not_kept_of_letsGo hn hw hm (Stage.letsGo_of_drops hdead)) ⟨⟨s, e⟩, by simp, hdead'⟩
        (hnow ▸ append_mem ha hnew le_sup_right)
  · refine h.quiet (heard_other hsaid hown) ?_ ?_ ?_
    · intro hc
      exact (hm.mem_queue hc).imp_right fun harrives => ⟨w, by rw [hset, harrives]⟩
    · intro v stage' hv hc
      have hvw : w ≠ v := by
        rintro rfl
        exact hown (Option.some.inj (hw.symm.trans hv) ▸ hc)
      exact ⟨stage', (setStage_ne hvw hm.stages_eq next).trans hv, hc, le_rfl⟩
    · exact fun hc hin => hc ((kept_move hw hm).mem_iff.mpr (List.mem_append_left _ hin))

omit [DecidableEq ι] in
theorem kept_beginStop (s : State ι) (w : Nat) : s.kept.Perm (s.beginStop w).kept := by
  rcases s.beginStop_cases w with hs | ⟨c, hw, hs⟩
  · rw [hs]
  · rw [hs]
    have hheld := held_setStage hw rfl (.stopping c .entered)
    exact ((List.perm_cons c).mp hheld).symm.append_left s.queue

omit [DecidableEq ι] in
theorem nodup_next (hn : s.kept.Nodup) (howned : ∀ c ∈ offered ⟨s, e⟩, c ∉ s.kept) : (s.next e).kept.Nodup := by
  cases e with
  | schedule c reply =>
    have hc := howned c List.mem_cons_self
    rcases s.schedule_cases c reply with ⟨-, hs⟩ | ⟨-, fault, rfl, hs⟩ | ⟨hopen, b, rfl, hs⟩
    · rw [next, hs]
      exact hn
    · rw [next, hs]
      exact hn
    · have hperm := s.kept_schedule c b
      rw [if_pos hopen] at hperm
      exact hperm.nodup_iff.mpr (List.nodup_cons.mpr ⟨hc, hn⟩)
  | worker w reply => exact (List.nodup_append.mp ((s.kept_step w reply).nodup_iff.mp hn)).1
  | misread w busy => exact (s.kept_misread w busy).nodup_iff.mp hn
  | beginStop w => exact (s.kept_beginStop w).nodup_iff.mp hn
  | callClose => exact hn
  | caller i => exact (s.kept_stepCaller i).symm ▸ hn

/-- A connection that its owner has, has only made visits. -/
theorem Told.visits (h : Told past s c) (hkept : c ∉ s.kept) (halive : ∀ m ∈ past, c ∉ dropped m) :
    heard c past ∈ visit∗ := by
  cases h with
  | queued place => exact absurd (List.mem_append_left _ place) hkept
  | held place holds => exact absurd (mem_kept_of_held place holds) hkept
  | away _ told => exact told
  | gone _ dead =>
    obtain ⟨m, hin, hm⟩ := dead
    exact absurd hm (halive m hin)

/-- An offer leads from the words of `c` that is away to those of its next place; of other
    connections it changes nothing. -/
theorem Told.schedule {d : ι} (h : Told past s c) (hkept : d ∉ s.kept) (halive : ∀ m ∈ past, d ∉ dropped m) :
    Told (past ++ [⟨s, .schedule d reply⟩]) (s.next (.schedule d reply)) c := by
  have hsilent (hsaid : heard c [⟨s, .schedule d reply⟩] = []) (hs : (s.next (.schedule d reply)).stages = s.stages)
      (hqueue : ∀ x ∈ s.queue, x ∈ (s.next (.schedule d reply)).queue)
      (hc : c ∉ s.kept → c ∉ (s.next (.schedule d reply)).kept) :
      Told (past ++ [⟨s, .schedule d reply⟩]) (s.next (.schedule d reply)) c :=
    h.quiet hsaid (fun hin => .inl (hqueue c hin)) (fun w stage hw hheld => ⟨stage, hs ▸ hw, hheld, le_rfl⟩) hc
  rcases s.schedule_cases d reply with ⟨hclosed, hs⟩ | ⟨hopen, fault, rfl, hs⟩ | ⟨hopen, b, rfl, hs⟩
  · refine hsilent ?_ ?_ ?_ ?_ <;> simp [heard, callbacks, calls, hclosed, State.next, hs, record, kept]
  · by_cases hcd : d = c
    · subst hcd
      refine .gone (by simpa [State.next, hs] using hkept) ⟨_, List.mem_append_right _ List.mem_cons_self, ?_⟩ ?_
      · simp [dropped, hopen]
      · have hsaid : heard d [⟨s, .schedule d (.raised fault)⟩] = [.made (.notify .queued) (.raised fault)] := by
          simp [heard, callbacks, calls, hopen, Callback.ofCall]
        rw [heard_snoc, hsaid]
        exact Language.append_mem_mul (h.visits hkept halive) (.inl (mem_faults _ _))
    · refine hsilent ?_ ?_ ?_ ?_ <;> simp [heard, callbacks, calls, hopen, State.next, hs, kept, hcd]
  · by_cases hcd : d = c
    · subst hcd
      refine .queued (by simp [State.next, hs]) ?_
      have hsaid : heard d [⟨s, .schedule d (.returned b)⟩] = [.made (.notify .queued) (.returned b)] := by
        simp [heard, callbacks, calls, hopen, Callback.ofCall]
      rw [heard_snoc, hsaid]
      exact Language.append_mem_mul (h.visits hkept halive) (enters_le_waits (mem_returns _ _))
    · refine hsilent ?_ ?_ ?_ ?_
      · simp [heard, callbacks, calls, hopen, hcd]
      · simp [State.next, hs, record]
      · intro x hx
        simp [State.next, hs, hx]
      · intro hc
        simp only [kept, State.next, hs, record, List.mem_append, List.mem_singleton, not_or] at hc ⊢
        exact ⟨⟨hc.1, fun h => hcd h.symm⟩, hc.2⟩

theorem Told.frame (h : Told past s c) (hsaid : callbacks ⟨s, e⟩ = []) (hstages : s'.stages = s.stages)
    (hqueue : s'.queue = s.queue) : Told (past ++ [⟨s, e⟩]) s' c := by
  refine h.quiet (by simp [heard, hsaid]) ?_ ?_ ?_
  · exact fun hin => .inl (hqueue ▸ hin)
  · exact fun w stage hw hheld => ⟨stage, hstages ▸ hw, hheld, le_rfl⟩
  · simp [kept, hstages, hqueue]

theorem Told.beginStop (h : Told past s c) (w : Nat) : Told (past ++ [⟨s, .beginStop w⟩]) (s.beginStop w) c := by
  rcases s.beginStop_cases w with hs | ⟨d, hw, hs⟩
  · rw [hs]
    exact h.frame rfl rfl rfl
  · refine h.quiet rfl ?_ ?_ ?_
    · intro hin
      rw [hs]
      exact .inl hin
    · intro v stage hv hheld
      rw [hs]
      by_cases hvw : w = v
      · subst hvw
        obtain rfl := Option.some.inj (hw.symm.trans hv)
        exact ⟨.stopping d .entered, setStage_self hw rfl _, hheld, le_rfl⟩
      · exact ⟨stage, (setStage_ne hvw rfl _).trans hv, hheld, le_rfl⟩
    · exact fun hc hin => hc ((s.kept_beginStop w).mem_iff.mpr hin)

end

section
variable [DecidableEq ι] {past : List (Moment (State ι) (Event ι))} {s : State ι} {c : ι} {e : Event ι}

theorem Told.next (h : Told past s c) (hn : s.kept.Nodup)
    (howned : ∀ d ∈ offered ⟨s, e⟩, d ∉ s.kept ∧ ∀ m ∈ past, d ∉ dropped m) :
    Told (past ++ [⟨s, e⟩]) (s.next e) c := by
  cases e with
  | schedule d reply =>
    obtain ⟨hkept, halive⟩ := howned d List.mem_cons_self
    exact h.schedule hkept halive
  | worker w reply =>
    cases hw : s.stages[w]? with
    | none =>
      rw [State.next, step_of_none hw]
      exact h.frame (by simp [callbacks, calls, nextCall, hw]) rfl rfl
    | some stage =>
      obtain ⟨after, s', hm, hs⟩ := step_moves hw reply
      rw [State.next, hs]
      exact h.move hn hw hm (callbacks_worker hw reply) (by simp [dropped, hw])
  | misread w busy =>
    rcases s.misread_cases w busy with hs | ⟨d, hw, after, s', hm, hs⟩
    · rw [State.next, hs]
      exact h.frame rfl rfl rfl
    · rw [State.next, hs]
      exact h.move hn hw (hm (.returned true)) rfl rfl
  | beginStop w => exact h.beginStop w
  | callClose => exact h.frame rfl rfl rfl
  | caller i =>
    have hs := s.stepCaller_frame i
    exact h.frame rfl hs.1 hs.2.1

omit [DecidableEq ι] in
theorem kept_ofSize (size : Nat) : (ofSize size : State ι).kept = [] := by
  simp [ofSize, kept, List.filterMap_replicate, Stage.held]

/-- Of every run in which each connection has one owner: no connection is in the pool twice,
    and each has heard what its place tells. -/
theorem told {size : Nat} {events : List (Event ι)} (owned : Owned (moments State.next (ofSize size) events)) :
    (final State.next (ofSize size) events).kept.Nodup ∧
      ∀ c, Told (moments State.next (ofSize size) events) (final State.next (ofSize size) events) c := by
  refine along (fun past s => Owned past → s.kept.Nodup ∧ ∀ c, Told past s c) ?_ ?_ events owned
  · intro _
    refine ⟨?_, fun c => .away ?_ ?_⟩
    · rw [kept_ofSize]
      exact List.nodup_nil
    · rw [kept_ofSize]
      exact List.not_mem_nil
    · exact Language.nil_mem_kstar _
  · intro past s e ih howned
    obtain ⟨hpast, hnow⟩ := howned.of_snoc
    obtain ⟨hn, htold⟩ := ih hpast
    exact ⟨nodup_next hn fun c hc => (hnow c hc).1, fun c => (htold c).next hn hnow⟩

theorem Told.begins_word (h : Told past s c) : ∃ word ∈ protocol, heard c past <+: word := by
  cases h with
  | queued _ told =>
    obtain ⟨t, ht⟩ := Stage.exists_goes (show (Stage.arriving c).held = some c from rfl) Language.nil_mem_one
    exact ⟨_, .inr (append_mem told ht le_sup_right), List.prefix_append _ _⟩
  | held _ holds told =>
    obtain ⟨a, ha, u, hu, hword⟩ := Language.mem_mul.mp told
    obtain ⟨t, ht⟩ := Stage.exists_goes holds hu
    refine ⟨a ++ (u ++ t), .inr (append_mem ha ht le_sup_right), ?_⟩
    rw [← hword, ← List.append_assoc]
    exact List.prefix_append _ _
  | away _ told => exact ⟨_, .inl told, List.prefix_rfl⟩
  | gone _ _ told => exact ⟨_, .inr told, List.prefix_rfl⟩

/-- Of every run of a pool of any size in which each connection has one owner, however the
    connections and the detector answer, wherever the pool is closed and whichever old
    readings of the gauge its workers go by. What a connection has heard begins a word of
    the protocol. No connection is in the pool twice, so no two workers hold the same one;
    and none is closed more than once. -/
theorem callbacks_follow_protocol (size : Nat) (events : List (Event ι))
    (owned : Owned (moments State.next (ofSize size) events)) :
    let s := final State.next (ofSize size) events
    let past := moments State.next (ofSize size) events
    (∀ c, ∃ word ∈ protocol, heard c past <+: word) ∧
    s.kept.Nodup ∧
    (∀ (v w : Nat) (a b : Stage ι) (c : ι), s.stages[v]? = some a → s.stages[w]? = some b →
      a.held = some c → b.held = some c → v = w) ∧
    ∀ c, (heard c past).countP Callback.isClose ≤ 1 := by
  intro s past
  obtain ⟨hn, htold⟩ := told owned
  refine ⟨fun c => (htold c).begins_word, hn, ?_, ?_⟩
  · intro v w a b c hv hw hva hwb
    exact holder_unique hn hv hw hva hwb
  · intro c
    obtain ⟨word, hword, hpre⟩ := (htold c).begins_word
    exact (hpre.sublist.countP_le).trans (countP_close_le hword)

end

/-- A pool of two workers. The first reruns connection 0 while both are busy, and hands it to
    the detector; connection 1 faults at the news of its worker and again while it is closed.
    Then connection 0 is put on the queue once more, and goes there again of itself, before a
    unit of work faults and it is closed; connection 2 comes when the pool is closed. -/
theorem rerun_parked_resubmitted_closed :
    let yes : Reply := .returned true
    let no : Reply := .returned false
    let bad : Reply := .raised .untold
    let events : List (Event Nat) := List.flatten
      [[.schedule 0 yes, .schedule 1 yes, .worker 0 yes, .worker 1 yes],
        [yes, yes, no, yes, yes, yes, no, no, no, yes, yes, yes].map (.worker 0), [bad, bad, yes].map (.worker 1),
        [.schedule 0 yes], [yes, yes, yes, no, yes, yes, yes].map (.worker 1), [yes, yes, yes, bad].map (.worker 0),
        [.callClose, .caller 0, .schedule 2 yes, .worker 0 yes]]
    let past := moments State.next (ofSize 2) events
    Owned past ∧
    heard 0 past =
      [.made (.notify .queued) yes, .made (.notify .running) yes, .workBegins, .workEnds no, .made .changed yes,
        .workBegins, .workEnds no, .made .changed no, .made .partialRead no, .made (.notify .awaitingReadiness) yes,
        .made .handOver yes, .made (.notify .queued) yes, .made (.notify .running) yes, .workBegins, .workEnds no,
        .made .changed yes, .made (.notify .queued) yes, .made (.notify .running) yes, .workBegins, .workEnds bad,
        .made .close yes] ∧
    heard 1 past = [.made (.notify .queued) yes, .made (.notify .running) bad, .made .close bad] ∧
    heard 2 past = [] ∧ ∃ word ∈ protocol, heard 0 past <+: word := by
  intro yes no bad events past
  have owned : Owned past := by decide
  exact ⟨owned, by decide, by decide, by decide, (callbacks_follow_protocol 2 events owned).1 0⟩

end State

end MessageBroker.Pool
