/-
  MessageBroker.Proofs.Transport.Lifecycle — many calls of `shutdown`, one that takes the transport down.

  A call looks at the phase and moves it in one step, and nobody holds the phase while the
  transport is taken down: a call that comes before, during or after that is told apart from the
  one that does it by the phase alone. Calls are made and go on in any order; a step that waits
  for the selector is given how the selector has stopped.
  - `deeds`: what takes the transport down, and which call did it; `course`: the phases there were.
  - `Orderly`: nobody has moved the phase, or one call has and stands at some stage (`Reached`)
    while every other call has not begun or has returned. Each step keeps it (`Orderly.next`).
  - `returns_after`: a call returns after five steps of its own.
  - `one_call_takes_down`: all of it, of every run.
-/

import Mathlib.Data.List.Infix
import MessageBroker.Proofs.History
import MessageBroker.Transport.Shutdown

namespace MessageBroker.Transport.Lifecycle

open History

inductive Event where
  /-- Someone calls `shutdown`. -/
  | call
  /-- A call goes on by one step; the reply is how the selector has stopped, if it waits for that. -/
  | go (i : Nat) (reply : Except IoError Unit)

def Event.goes (i : Nat) : Event → Bool
  | .call => false
  | .go j _ => j == i

def next (s : Lifecycle) : Event → Lifecycle
  | .call => s.call
  | .go i reply => s.step i reply

inductive Deed where
  | takesSelector
  | stopsSelector (result : Except IoError Unit)
  | closesPool

def deedAt (s : Lifecycle) (reply : Except IoError Unit) : ShutdownStage → Option Deed
  | .taking => if s.hasSelector then some .takesSelector else none
  | .stoppingSelector => some (.stopsSelector reply)
  | .closingPool _ => some .closesPool
  | .entered | .settling _ | .returned _ => none

def deed? (m : Moment Lifecycle Event) : Option (Nat × Deed) :=
  match m.event with
  | .call => none
  | .go i reply => (m.before.calls[i]?.bind (m.before.deedAt reply)).map (i, ·)

def deeds (past : List (Moment Lifecycle Event)) : List (Nat × Deed) := past.filterMap deed?

/-- The deeds by which one call takes down the transport, if its selector stops like this. -/
def teardown (i : Nat) (result : Except IoError Unit) : List (Nat × Deed) :=
  [(i, .takesSelector), (i, .stopsSelector result), (i, .closesPool)]

def moved? (m : Moment Lifecycle Event) : Option Phase :=
  if (next m.before m.event).phase = m.before.phase then none else some (next m.before m.event).phase

def course (past : List (Moment Lifecycle Event)) : List Phase := .active :: past.filterMap moved?

/-- The moment changes where a call stands, and nothing else. -/
def Spares (m : Moment Lifecycle Event) (j : Nat) : Prop :=
  ∃ stage, next m.before m.event = { m.before with calls := m.before.calls.set j stage }

/-- No call but the `i`-th changes anything but where it stands. -/
def SparedBut (i : Nat) (past : List (Moment Lifecycle Event)) : Prop :=
  ∀ m ∈ past, ∀ j reply, j ≠ i → m.event = .go j reply → Spares m j

/-! ## One step -/

theorem calls_advance (s : Lifecycle) (reply : Except IoError Unit) (stage : ShutdownStage) :
    (s.advance reply stage).2.calls = s.calls := by
  cases stage with
  | entered =>
    simp only [advance]
    split
    · split <;> rfl
    · rfl
  | taking =>
    simp only [advance]
    split <;> rfl
  | settling selector =>
    simp only [advance]
    split <;> rfl
  | stoppingSelector | closingPool | returned => rfl

theorem returned_of_settling (s : Lifecycle) (reply selector : Except IoError Unit) :
    ∃ result, (s.advance reply (.settling selector)).1 = .returned result := by
  simp only [advance]
  split <;> exact ⟨_, rfl⟩

theorem length_calls_step (s : Lifecycle) (i : Nat) (reply : Except IoError Unit) :
    (s.step i reply).calls.length = s.calls.length := by
  unfold step
  split
  · rfl
  · simp [calls_advance]

variable {s : Lifecycle} {i j : Nat} {stage : ShutdownStage} {reply : Except IoError Unit}

theorem next_go_none (h : s.calls[i]? = none) : next s (.go i reply) = s := by
  simp only [next, step, h]

theorem next_go (reply : Except IoError Unit) (h : s.calls[i]? = some stage) :
    next s (.go i reply) =
      { (s.advance reply stage).2 with calls := s.calls.set i (s.advance reply stage).1 } := by
  simp only [next, step, h, calls_advance]

/-- A call that finds the transport active moves it, and goes on to take it down. -/
theorem advance_first (h : s.phase = .active) :
    s.advance reply .entered = (.taking, { s with phase := .stopping }) := by
  simp [advance, h, Phase.isActive, Phase.move, Phase.moves]

theorem advance_late (h : s.phase ≠ .active) : s.advance reply .entered = (.returned (.ok ()), s) := by
  simp [advance, h, Phase.isActive]

/-- The call that has taken the transport down says how it ended: the table has that move. -/
theorem advance_settling (h : s.phase = .stopping) (selector : Except IoError Unit) :
    s.advance reply (.settling selector) =
      (.returned (ending selector).2, { s with phase := (ending selector).1 }) := by
  cases selector <;> simp [advance, h, ending, Phase.move, Phase.moves]

theorem deeds_snoc (past : List (Moment Lifecycle Event)) (m : Moment Lifecycle Event) :
    deeds (past ++ [m]) = deeds past ++ (deed? m).toList := by
  simp only [deeds, List.filterMap_append]
  cases h : deed? m <;> simp [h]

theorem deed?_go (h : s.calls[i]? = some stage) :
    deed? ⟨s, .go i reply⟩ = (s.deedAt reply stage).map (i, ·) := by
  simp only [deed?, h, Option.bind_some]

theorem course_kept (past : List (Moment Lifecycle Event)) {e : Event} (h : (next s e).phase = s.phase) :
    course (past ++ [⟨s, e⟩]) = course past := by
  simp [course, moved?, h]

theorem course_moved (past : List (Moment Lifecycle Event)) {e : Event} (h : (next s e).phase ≠ s.phase) :
    course (past ++ [⟨s, e⟩]) = course past ++ [(next s e).phase] := by
  simp [course, moved?, h]

/-! ## Every call returns -/

def toGo : ShutdownStage → Nat
  | .entered => 5
  | .taking => 4
  | .stoppingSelector => 3
  | .closingPool _ => 2
  | .settling _ => 1
  | .returned _ => 0

theorem toGo_advance (s : Lifecycle) (reply : Except IoError Unit) (stage : ShutdownStage) :
    toGo (s.advance reply stage).1 ≤ toGo stage - 1 := by
  cases stage with
  | entered =>
    simp only [advance]
    split
    · split <;> simp [toGo]
    · simp [toGo]
  | taking =>
    simp only [advance]
    split <;> simp [toGo]
  | settling selector =>
    obtain ⟨result, hresult⟩ := returned_of_settling s reply selector
    rw [hresult]
    exact Nat.zero_le _
  | stoppingSelector | closingPool | returned => simp [advance, toGo]

theorem calls_call (h : s.calls[i]? = some stage) : s.call.calls[i]? = some stage := by
  rw [call, List.getElem?_append_left (List.getElem?_eq_some_iff.mp h).1]
  exact h

theorem calls_next_ne (h : i ≠ j) : (next s (.go i reply)).calls[j]? = s.calls[j]? := by
  cases hi : s.calls[i]? with
  | none => rw [next_go_none hi]
  | some stage => rw [next_go reply hi, List.getElem?_set_ne h]

theorem calls_next_self (h : s.calls[i]? = some stage) :
    (next s (.go i reply)).calls[i]? = some (s.advance reply stage).1 := by
  rw [next_go reply h, List.getElem?_set_self (List.getElem?_eq_some_iff.mp h).1]

/-- A call returns when it has gone all its steps, whatever others do meanwhile. -/
theorem returns_after (later : List Event) (h : s.calls[j]? = some stage)
    (enough : toGo stage ≤ later.countP (Event.goes j)) :
    ∃ result, (final next s later).calls[j]? = some (.returned result) := by
  induction later generalizing s stage with
  | nil =>
    cases stage with
    | returned result => exact ⟨result, h⟩
    | entered | taking | stoppingSelector | closingPool | settling => simp [toGo] at enough
  | cons e rest ih =>
    rw [List.countP_cons] at enough
    cases e with
    | call => exact ih (s := s.call) (calls_call h) (by simpa [Event.goes] using enough)
    | go i reply =>
      by_cases hij : i = j
      · subst hij
        have hless := toGo_advance s reply stage
        refine ih (s := next s (.go i reply)) (calls_next_self h) ?_
        simp only [Event.goes, beq_self_eq_true, if_true] at enough
        omega
      · refine ih (s := next s (.go i reply)) ((calls_next_ne hij).trans h) ?_
        simpa [Event.goes, hij] using enough

/-! ## One call -/

/-- What the call that takes the transport down has done by the time that it stands at this stage. -/
def Reached (i : Nat) (past : List (Moment Lifecycle Event)) (s : Lifecycle) : ShutdownStage → Prop
  | .entered => False
  | .taking => s.phase = .stopping ∧ s.hasSelector = true ∧ deeds past = [] ∧ course past = [.active, .stopping]
  | .stoppingSelector =>
    s.phase = .stopping ∧ deeds past = [(i, .takesSelector)] ∧ course past = [.active, .stopping]
  | .closingPool result =>
    s.phase = .stopping ∧ deeds past = [(i, .takesSelector), (i, .stopsSelector result)] ∧
      course past = [.active, .stopping]
  | .settling result => s.phase = .stopping ∧ deeds past = teardown i result ∧ course past = [.active, .stopping]
  | .returned result =>
    ∃ selector, s.phase = (ending selector).1 ∧ result = (ending selector).2 ∧ deeds past = teardown i selector ∧
      course past = [.active, .stopping, s.phase]

inductive Orderly (past : List (Moment Lifecycle Event)) (s : Lifecycle) : Prop
  /-- No call has gone on. -/
  | untouched (phase : s.phase = .active) (selector : s.hasSelector = true)
      (entered : ∀ stage ∈ s.calls, stage = .entered)
      (noDeeds : deeds past = []) (phases : course past = [.active])
      (spared : ∀ i, SparedBut i past)
  /-- One call has moved the phase; to every other the transport is none of its business. -/
  | taken (i : Nat) (stage : ShutdownStage) (own : s.calls[i]? = some stage) (reached : Reached i past s stage)
      (others : ∀ (j : Nat) stage, j ≠ i → s.calls[j]? = some stage → stage = .entered ∨ stage = .returned (.ok ()))
      (spared : SparedBut i past)

variable {past : List (Moment Lifecycle Event)}

theorem Reached.not_active (h : Reached i past s stage) : s.phase ≠ .active := by
  cases stage with
  | entered => exact h.elim
  | taking | stoppingSelector | closingPool | settling =>
    rw [h.1]
    decide
  | returned result =>
    obtain ⟨selector, hphase, -⟩ := h
    rw [hphase]
    cases selector <;> simp [ending]

/-- An event that only moves calls keeps what one of them has done. -/
theorem Reached.keep {e : Event} {calls : List ShutdownStage} (h : Reached i past s stage)
    (hnext : Lifecycle.next s e = { s with calls }) (hdeed : deed? ⟨s, e⟩ = none) :
    Reached i (past ++ [⟨s, e⟩]) (Lifecycle.next s e) stage := by
  have hdeeds : deeds (past ++ [⟨s, e⟩]) = deeds past := by
    rw [deeds_snoc, hdeed]
    exact List.append_nil _
  have hcourse : course (past ++ [⟨s, e⟩]) = course past := course_kept past (by rw [hnext])
  cases stage with
  | entered => exact h
  | taking | stoppingSelector | closingPool | settling | returned =>
    simpa only [Reached, hdeeds, hcourse, hnext] using h

theorem SparedBut.snoc {m : Moment Lifecycle Event} (h : SparedBut i past)
    (hm : ∀ j reply, j ≠ i → m.event = .go j reply → Spares m j) : SparedBut i (past ++ [m]) := by
  intro x hx
  rcases List.mem_append.mp hx with hx | hx
  · exact h x hx
  · rw [List.mem_singleton.mp hx]
    exact hm

/-- The deed and the phase that a step of the call adds, on the way down. -/
theorem Reached.advance (h : Reached i past s stage) (own : s.calls[i]? = some stage) (reply : Except IoError Unit) :
    Reached i (past ++ [⟨s, .go i reply⟩]) (Lifecycle.next s (.go i reply)) (s.advance reply stage).1 := by
  have hnext := next_go reply own
  have hdeeds : deeds (past ++ [⟨s, .go i reply⟩]) = deeds past ++ ((s.deedAt reply stage).map (i, ·)).toList := by
    rw [deeds_snoc, deed?_go own]
  cases stage with
  | entered => exact h.elim
  | taking =>
    obtain ⟨hphase, hselector, hdone, hcourse⟩ := h
    have hstep : s.advance reply .taking = (.stoppingSelector, { s with hasSelector := false }) := by
      simp [Lifecycle.advance, hselector]
    rw [hstep] at hnext ⊢
    refine ⟨by rw [hnext]; exact hphase, ?_, ?_⟩
    · rw [hdeeds, hdone]
      simp [deedAt, hselector]
    · rw [course_kept past (by rw [hnext])]
      exact hcourse
  | stoppingSelector =>
    obtain ⟨hphase, hdone, hcourse⟩ := h
    refine ⟨by rw [hnext]; exact hphase, ?_, ?_⟩
    · rw [hdeeds, hdone]
      rfl
    · rw [course_kept past (by rw [hnext]; rfl)]
      exact hcourse
  | closingPool selector =>
    obtain ⟨hphase, hdone, hcourse⟩ := h
    refine ⟨by rw [hnext]; exact hphase, ?_, ?_⟩
    · rw [hdeeds, hdone]
      rfl
    · rw [course_kept past (by rw [hnext]; rfl)]
      exact hcourse
  | settling selector =>
    obtain ⟨hphase, hdone, hcourse⟩ := h
    rw [advance_settling hphase] at hnext ⊢
    have hmoved : (Lifecycle.next s (.go i reply)).phase = (ending selector).1 := by rw [hnext]
    have hdiffers : (ending selector).1 ≠ s.phase := by
      rw [hphase]
      cases selector <;> simp [ending]
    refine ⟨selector, hmoved, rfl, ?_, ?_⟩
    · rw [hdeeds, hdone]
      exact List.append_nil _
    · rw [course_moved past (hmoved.symm ▸ hdiffers), hcourse]
      rfl
  | returned result =>
    exact Reached.keep h hnext (by rw [deed?_go own]; rfl)

/-- A call that comes when the transport is active no more returns, and a returned one stays. -/
theorem advance_other (hphase : s.phase ≠ .active) (h : stage = .entered ∨ stage = .returned (.ok ())) :
    s.advance reply stage = (.returned (.ok ()), s) := by
  rcases h with rfl | rfl
  · exact advance_late hphase
  · rfl

theorem deedAt_other (h : stage = .entered ∨ stage = .returned (.ok ())) : s.deedAt reply stage = none := by
  rcases h with rfl | rfl <;> rfl

theorem Orderly.call (h : Orderly past s) : Orderly (past ++ [⟨s, .call⟩]) (Lifecycle.next s .call) := by
  have hdeeds : deeds (past ++ [⟨s, .call⟩]) = deeds past := by
    rw [deeds_snoc]
    exact List.append_nil _
  cases h with
  | untouched phase selector entered noDeeds phases spared =>
    refine .untouched phase selector ?_ (hdeeds.trans noDeeds) ((course_kept past rfl).trans phases) ?_
    · intro stage hstage
      rcases List.mem_append.mp hstage with hstage | hstage
      · exact entered stage hstage
      · exact List.mem_singleton.mp hstage
    · exact fun i => (spared i).snoc nofun
  | taken i stage own reached others spared =>
    refine .taken i stage (calls_call own) (reached.keep rfl rfl) ?_ (spared.snoc nofun)
    intro j other hji hj
    have hcalls : (s.calls ++ [.entered])[j]? = some other := hj
    rw [List.getElem?_append] at hcalls
    split at hcalls
    · exact others j other hji hcalls
    · exact .inl (List.mem_singleton.mp (List.mem_of_getElem? hcalls))

theorem Orderly.absent (h : Orderly past s) (hj : s.calls[j]? = none) :
    Orderly (past ++ [⟨s, .go j reply⟩]) (Lifecycle.next s (.go j reply)) := by
  have hnext : Lifecycle.next s (.go j reply) = s := next_go_none hj
  have hdeed : deed? ⟨s, .go j reply⟩ = none := by simp only [deed?, hj, Option.bind_none, Option.map_none]
  have hspares : Spares ⟨s, .go j reply⟩ j := by
    refine ⟨.entered, hnext.trans ?_⟩
    rw [List.set_eq_of_length_le (List.getElem?_eq_none_iff.mp hj)]
  have hcourse : course (past ++ [⟨s, .go j reply⟩]) = course past := course_kept past (by rw [hnext])
  cases h with
  | untouched phase selector entered noDeeds phases spared =>
    rw [hnext]
    refine .untouched phase selector entered ?_ (hcourse.trans phases) ?_
    · rw [deeds_snoc, hdeed, noDeeds]
      rfl
    · refine fun i => (spared i).snoc ?_
      rintro _ _ - ⟨⟩
      exact hspares
  | taken i stage own reached others spared =>
    have hkept : Reached i (past ++ [⟨s, .go j reply⟩]) (Lifecycle.next s (.go j reply)) stage := reached.keep hnext hdeed
    rw [hnext] at hkept ⊢
    refine .taken i stage own hkept others (spared.snoc ?_)
    rintro _ _ - ⟨⟩
    exact hspares

/-- The first call that looks moves the phase. -/
theorem Orderly.first (phase : s.phase = .active) (selector : s.hasSelector = true)
    (entered : ∀ stage ∈ s.calls, stage = .entered) (noDeeds : deeds past = []) (phases : course past = [.active])
    (spared : SparedBut j past) (hj : s.calls[j]? = some stage) :
    Orderly (past ++ [⟨s, .go j reply⟩]) (Lifecycle.next s (.go j reply)) := by
  obtain rfl : stage = .entered := entered stage (List.mem_of_getElem? hj)
  have hnext := next_go reply hj
  rw [advance_first phase] at hnext
  have hmoved : (Lifecycle.next s (.go j reply)).phase = .stopping := by rw [hnext]
  refine .taken j .taking ?_ ⟨hmoved, by rw [hnext]; exact selector, ?_, ?_⟩ ?_ (spared.snoc ?_)
  · rw [calls_next_self hj, advance_first phase]
  · rw [deeds_snoc, deed?_go hj, noDeeds]
    rfl
  · rw [course_moved past (by rw [hmoved, phase]; decide), phases, hmoved]
    rfl
  · intro k other hkj hk
    rw [calls_next_ne (Ne.symm hkj)] at hk
    exact .inl (entered other (List.mem_of_getElem? hk))
  · rintro k _ hkj ⟨⟩
    exact absurd rfl hkj

/-- Any later call returns and leaves everything as it is. -/
theorem Orderly.later {own : ShutdownStage} (hown : s.calls[i]? = some own) (reached : Reached i past s own)
    (others : ∀ (j : Nat) stage, j ≠ i → s.calls[j]? = some stage → stage = .entered ∨ stage = .returned (.ok ()))
    (spared : SparedBut i past) (hji : j ≠ i) (hj : s.calls[j]? = some stage) :
    Orderly (past ++ [⟨s, .go j reply⟩]) (Lifecycle.next s (.go j reply)) := by
  have hnext := next_go reply hj
  have hstage := others j stage hji hj
  rw [advance_other reached.not_active hstage] at hnext
  have hdeed : deed? ⟨s, .go j reply⟩ = none := by
    rw [deed?_go hj, deedAt_other hstage]
    rfl
  refine .taken i own ?_ (reached.keep hnext hdeed) ?_ (spared.snoc ?_)
  · rw [calls_next_ne hji]
    exact hown
  · intro k other hki hk
    by_cases hkj : j = k
    · subst hkj
      rw [calls_next_self hj, advance_other reached.not_active hstage] at hk
      exact .inr (Option.some.inj hk).symm
    · rw [calls_next_ne hkj] at hk
      exact others k other hki hk
  · rintro k _ - ⟨⟩
    exact ⟨_, hnext⟩

/-- Every event keeps the calls in order. -/
theorem Orderly.next (h : Orderly past s) (e : Event) : Orderly (past ++ [⟨s, e⟩]) (Lifecycle.next s e) := by
  cases e with
  | call => exact h.call
  | go j reply =>
    cases hj : s.calls[j]? with
    | none => exact h.absent hj
    | some stage =>
      cases h with
      | untouched phase selector entered noDeeds phases spared =>
        exact .first phase selector entered noDeeds phases (spared j) hj
      | taken i own hown reached others spared =>
        by_cases hji : j = i
        · subst hji
          obtain rfl : own = stage := Option.some.inj (hown.symm.trans hj)
          refine .taken j _ (calls_next_self hj) (reached.advance hj reply) ?_ (spared.snoc ?_)
          · intro k other hkj hk
            rw [calls_next_ne (Ne.symm hkj)] at hk
            exact others k other hkj hk
          · rintro k _ hkj ⟨⟩
            exact absurd rfl hkj
        · exact .later hown reached others spared hji hj

theorem orderly (events : List Event) :
    Orderly (moments Lifecycle.next {} events) (final Lifecycle.next {} events) :=
  along Orderly (.untouched rfl rfl (by simp) rfl rfl fun _ _ h => by cases h) (fun _ _ e h => h.next e) events

/-! ## Every run -/

theorem Reached.course_eq (h : Reached i past s stage) :
    (course past = [.active, .stopping] ∧ s.phase = .stopping) ∨
      ∃ selector, course past = [.active, .stopping, (ending selector).1] ∧ s.phase = (ending selector).1 := by
  cases stage with
  | entered => exact h.elim
  | taking => exact .inl ⟨h.2.2.2, h.1⟩
  | stoppingSelector | closingPool | settling => exact .inl ⟨h.2.2, h.1⟩
  | returned result =>
    obtain ⟨selector, hphase, -, -, hcourse⟩ := h
    exact .inr ⟨selector, by rw [hcourse, hphase], hphase⟩

theorem Reached.deeds_prefix (h : Reached i past s stage) : ∃ selector, deeds past <+: teardown i selector := by
  cases stage with
  | entered => exact h.elim
  | taking => exact ⟨.ok (), h.2.2.1 ▸ List.nil_prefix⟩
  | stoppingSelector => exact ⟨.ok (), h.2.1 ▸ ⟨_, rfl⟩⟩
  | closingPool selector => exact ⟨selector, h.2.1 ▸ ⟨_, rfl⟩⟩
  | settling selector => exact ⟨selector, h.2.1 ▸ List.prefix_rfl⟩
  | returned result =>
    obtain ⟨selector, -, -, hdeeds, -⟩ := h
    exact ⟨selector, hdeeds ▸ List.prefix_rfl⟩

/-- The phases so far are a path through the table, from `active` to one of its ends. -/
theorem Orderly.path (h : Orderly past s) :
    (∃ last, (last = .stopped ∨ last = .failed) ∧ course past <+: [.active, .stopping, last]) ∧
    (course past).IsChain (fun p q => (p, q) ∈ Phase.moves) ∧ (course past).getLast? = some s.phase := by
  cases h with
  | untouched phase _ _ _ phases _ =>
    rw [phases, phase]
    exact ⟨⟨.stopped, .inl rfl, ⟨_, rfl⟩⟩, by decide, rfl⟩
  | taken i stage own reached _ _ =>
    rcases reached.course_eq with ⟨hcourse, hphase⟩ | ⟨selector, hcourse, hphase⟩
    · rw [hcourse, hphase]
      exact ⟨⟨.stopped, .inl rfl, ⟨_, rfl⟩⟩, by decide, rfl⟩
    · rw [hcourse, hphase]
      cases selector with
      | ok => exact ⟨⟨.stopped, .inl rfl, List.prefix_rfl⟩, by simp [ending, Phase.moves], rfl⟩
      | error => exact ⟨⟨.failed, .inr rfl, List.prefix_rfl⟩, by simp [ending, Phase.moves], rfl⟩

/-- Any number of calls of `shutdown`, made at any time and going on in any order, on a transport
    whose selector stops in good order or not.
    - The phases are a path through the table: `active`, `stopping`, and an end.
    - One call, and no other, takes the selector, stops it and then closes the pool; it is
      there once any call has begun. When it returns it has done all three, the phase is the end
      that the selector's result calls for, and so is what it returns.
    - Every other call that returns returns in good order, and no step of it changes anything but
      where it stands itself.
    - No call ever returns that a move is not in the table.
    - Every call returns, after five steps of its own at the latest. -/
theorem one_call_takes_down (events : List Event) :
    let past := moments Lifecycle.next {} events
    let s := final Lifecycle.next {} events
    ((∃ last, (last = .stopped ∨ last = .failed) ∧ course past <+: [.active, .stopping, last]) ∧
      (course past).IsChain (fun p q => (p, q) ∈ Phase.moves) ∧ (course past).getLast? = some s.phase) ∧
    (∃ i,
      (∃ selector, deeds past <+: teardown i selector) ∧
      ((∃ stage ∈ s.calls, stage ≠ .entered) → ∃ stage, s.calls[i]? = some stage ∧ stage ≠ .entered) ∧
      (∀ result, s.calls[i]? = some (.returned result) →
        ∃ selector, deeds past = teardown i selector ∧ s.phase = (ending selector).1 ∧ result = (ending selector).2) ∧
      (∀ (j : Nat) result, j ≠ i → s.calls[j]? = some (.returned result) → result = .ok ()) ∧
      SparedBut i past) ∧
    (∀ (j : Nat) text, s.calls[j]? ≠ some (.returned (.error (.invalidState text)))) ∧
    ∀ j < s.calls.length, ∀ later, 5 ≤ later.countP (Event.goes j) →
      ∃ result, (final Lifecycle.next s later).calls[j]? = some (.returned result) := by
  intro past s
  have horderly : Orderly past s := orderly events
  refine ⟨horderly.path, ?_, ?_, ?_⟩
  · cases horderly with
    | untouched phase selector entered noDeeds phases spared =>
      -- nobody has begun, so anyone may be the one
      have hnone : ∀ (j : Nat) result, s.calls[j]? ≠ some (.returned result) := fun j result h => by
        cases entered _ (List.mem_of_getElem? h)
      refine ⟨0, ⟨.ok (), noDeeds ▸ List.nil_prefix⟩, ?_, ?_, ?_, spared 0⟩
      · rintro ⟨stage, hstage, hbegun⟩
        exact absurd (entered stage hstage) hbegun
      · exact fun result h => absurd h (hnone 0 result)
      · exact fun j result _ h => absurd h (hnone j result)
    | taken i stage own reached others spared =>
      refine ⟨i, reached.deeds_prefix, ?_, ?_, ?_, spared⟩
      · refine fun _ => ⟨stage, own, ?_⟩
        rintro rfl
        exact reached
      · intro result h
        obtain rfl : stage = .returned result := Option.some.inj (own.symm.trans h)
        obtain ⟨selector, hphase, hresult, hdeeds, -⟩ := reached
        exact ⟨selector, hdeeds, hphase, hresult⟩
      · intro j result hji h
        rcases others j _ hji h with hentered | hreturned
        · cases hentered
        · exact ShutdownStage.returned.inj hreturned
  · intro j text h
    cases horderly with
    | untouched phase selector entered => cases entered _ (List.mem_of_getElem? h)
    | taken i stage own reached others =>
      by_cases hji : j = i
      · subst hji
        obtain rfl : stage = .returned (.error (.invalidState text)) := Option.some.inj (own.symm.trans h)
        obtain ⟨selector, -, hresult, -⟩ := reached
        cases selector <;> cases hresult
      · rcases others j _ hji h with hentered | hreturned
        · cases hentered
        · cases hreturned
  · intro j hj later enough
    refine returns_after later (List.getElem?_eq_getElem hj) (Nat.le_trans ?_ enough)
    cases s.calls[j] <;> simp [toGo]

/-- Three calls, of which the second comes first to look, and a selector that fails to stop: the
    second reports it, and the others, who come during and after that, have nothing to do. -/
example (e : IoError) :
    (final Lifecycle.next {}
      [.call, .call, .go 1 (.ok ()), .go 0 (.ok ()), .go 1 (.ok ()), .go 1 (.error e), .call, .go 1 (.ok ()),
        .go 1 (.ok ()), .go 2 (.ok ())]).calls =
      [.returned (.ok ()), .returned (.error (.io e)), .returned (.ok ())] := rfl

end MessageBroker.Transport.Lifecycle
