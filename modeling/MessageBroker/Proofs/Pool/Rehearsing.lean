/-
  MessageBroker.Proofs.Pool.Rehearsing — an orderly run is one of the many possible ones.

  A cast decides how calls are answered and `settle` who goes on next, but what happens to the
  pool are steps of `State.next`, and nobody misreads the gauge. So whatever is said of every run
  is said of these.
  - `Leads`: a run from one state to another, and the calls that are made in it.
  - `Cast.Notes`: a world that takes note of each call, with the reply that the pool is given.
  - `settle_goes`, `schedule_goes`: settling is a run, and so is putting a connection on the queue.
  - `Rehearsal.request_goes`: so is meeting a request, and the lines that it adds to the log are the
    calls of that run, in their order, and the gates that were opened or passed.
-/

import MessageBroker.Pool.Rehearsal
import MessageBroker.Proofs.Pool.Moves

namespace MessageBroker.Pool

open History

namespace State

variable {ι : Type} {s s' s'' : State ι} {made more : List (ι × Call × Reply)}

/-- A run in which nobody misreads the gauge takes the pool from `s` to `s'`, and makes these calls. -/
def Leads (s : State ι) (made : List (ι × Call × Reply)) (s' : State ι) : Prop :=
  ∃ events : List (Event ι), (∀ w busy, .misread w busy ∉ events) ∧ final State.next s events = s' ∧
    (moments State.next s events).flatMap calls = made

theorem Leads.refl (s : State ι) : Leads s [] s := ⟨[], fun _ _ => List.not_mem_nil, rfl, rfl⟩

theorem Leads.single {e : Event ι} (hfresh : ∀ w busy, e ≠ .misread w busy) : Leads s (calls ⟨s, e⟩) (s.next e) := by
  refine ⟨[e], fun w busy h => hfresh w busy (List.mem_singleton.mp h).symm, rfl, ?_⟩
  exact List.append_nil (calls ⟨s, e⟩)

theorem Leads.trans (h : Leads s made s') (h' : Leads s' more s'') : Leads s (made ++ more) s'' := by
  obtain ⟨first, hfresh, rfl, rfl⟩ := h
  obtain ⟨rest, hfresh', rfl, rfl⟩ := h'
  refine ⟨first ++ rest, fun w busy h => ?_, final_append s first rest, ?_⟩
  · exact (List.mem_append.mp h).elim (hfresh w busy) (hfresh' w busy)
  · rw [moments_append, List.flatMap_append]

end State

namespace Cast

open State

variable {ι W : Type} {cast : Cast ι W} {noted : List (ι × Call × Reply) → W → Prop}

/-- The world notes each call as it answers it, and nothing else as a call; what goes on beside
    the pool is a run of the pool too. -/
structure Notes (cast : Cast ι W) (noted : List (ι × Call × Reply) → W → Prop) : Prop where
  answer : ∀ {made world} (c : ι) (call : Call), noted made world →
    noted (made ++ [(c, call, (cast.answer c call world).1)]) (cast.answer c call world).2
  within : ∀ {made world} (c : ι), noted made world → noted made (cast.within c world).2
  beside : ∀ {made s world s' world'}, cast.beside s world = some (s', world') → noted made world →
    ∃ more, Leads s more s' ∧ noted (made ++ more) world'

def Goes (noted : List (ι × Call × Reply) → W → Prop) (s : State ι) (world : W) (s' : State ι) (world' : W) : Prop :=
  ∀ made, noted made world → ∃ more, Leads s more s' ∧ noted (made ++ more) world'

section
variable {s s' s'' : State ι} {world world' world'' : W}

theorem Goes.trans (h : Goes noted s world s' world') (h' : Goes noted s' world' s'' world'') :
    Goes noted s world s'' world'' := by
  intro made hnoted
  obtain ⟨first, hfirst, hnoted⟩ := h made hnoted
  obtain ⟨rest, hrest, hnoted⟩ := h' (made ++ first) hnoted
  exact ⟨first ++ rest, hfirst.trans hrest, List.append_assoc made first rest ▸ hnoted⟩

theorem Goes.aside (hworld : ∀ made, noted made world → noted made world') : Goes noted s world s world' :=
  fun made h => ⟨[], .refl s, (List.append_nil made).symm ▸ hworld made h⟩

theorem Goes.silent {e : Event ι} (hfresh : ∀ w busy, e ≠ .misread w busy) (hcalls : calls ⟨s, e⟩ = [])
    (hworld : ∀ made, noted made world → noted made world') : Goes noted s world (s.next e) world' := fun made h =>
  ⟨[], hcalls ▸ .single hfresh, (List.append_nil made).symm ▸ hworld made h⟩

/-- An event that makes one call, which the world answers. -/
theorem Notes.spoken (h : cast.Notes noted) {e : Event ι} (hfresh : ∀ w busy, e ≠ .misread w busy) {c : ι} {call : Call}
    (hcalls : calls ⟨s, e⟩ = [(c, call, (cast.answer c call world).1)]) :
    Goes noted s world (s.next e) (cast.answer c call world).2 := fun _ hnoted =>
  ⟨_, hcalls ▸ .single hfresh, h.answer c call hnoted⟩

theorem stepHolder_goes (h : cast.Notes noted) {w : Nat} (hstep : cast.stepHolder s world w = some (s', world')) :
    Goes noted s world s' world' := by
  unfold stepHolder at hstep
  split at hstep
  · cases hstep
  · cases hstep
  · cases hstep
  · rename_i c hw
    have hcalls (reply : Reply) : calls ⟨s, .worker w reply⟩ = [] := by simp only [calls, nextCall, hw]; rfl
    have hwithin : ∀ made, noted made world → noted made (cast.within c world).2 := fun _ => h.within c
    split at hstep
    · cases hstep
    · rename_i heq
      cases hstep
      rw [heq] at hwithin
      exact .silent (e := .beginStop w) (by simp) rfl hwithin
    · rename_i reply _ heq
      cases hstep
      rw [heq] at hwithin
      exact .silent (e := .worker w reply) (by simp) (hcalls reply) hwithin
  · split at hstep
    · split at hstep
      · rename_i c call hcall
        cases hstep
        exact h.spoken (e := .worker w _) (by simp) (by simp only [calls, hcall]; rfl)
      · rename_i hcall
        cases hstep
        exact .silent (e := .worker w (.returned true)) (by simp) (by simp only [calls, hcall]; rfl) fun _ => id
    · cases hstep

theorem stepWaiting_goes (hstep : stepWaiting s = some s') : Goes noted s world s' world := by
  obtain ⟨w, hw, rfl⟩ := Option.map_eq_some_iff.mp hstep
  have hwaiting := List.find?_some hw
  refine .silent (e := .worker w (.returned true)) (by simp) ?_ fun _ => id
  simp only [calls, nextCall]
  cases hstage : s.stages[w]? with
  | none => rfl
  | some stage =>
    cases stage with
    | waiting => rfl
    | _ => simp [hstage] at hwaiting

theorem stepAny_goes (h : cast.Notes noted) (hstep : cast.stepAny s world = some (s', world')) :
    Goes noted s world s' world' := by
  unfold stepAny at hstep
  cases hholders : cast.stepHolders s world with
  | some next =>
    rw [hholders] at hstep
    obtain rfl : next = (s', world') := Option.some.inj hstep
    obtain ⟨w, -, hholder⟩ := List.exists_of_findSome?_eq_some hholders
    exact stepHolder_goes h hholder
  | none =>
    cases hcallers : stepCallers s with
    | some next =>
      rw [hholders, hcallers] at hstep
      obtain ⟨rfl, rfl⟩ : next = s' ∧ world = world' := Prod.mk.inj (Option.some.inj hstep)
      obtain ⟨i, -, rfl⟩ := Option.map_eq_some_iff.mp hcallers
      exact .silent (e := .caller i) (by simp) rfl fun _ => id
    | none =>
      cases hwaiting : stepWaiting s with
      | some next =>
        rw [hholders, hcallers, hwaiting] at hstep
        obtain ⟨rfl, rfl⟩ : next = s' ∧ world = world' := Prod.mk.inj (Option.some.inj hstep)
        exact stepWaiting_goes hwaiting
      | none =>
        rw [hholders, hcallers, hwaiting] at hstep
        exact fun made hnoted => h.beside hstep hnoted

theorem settle_goes (h : cast.Notes noted) (n : Nat) (s : State ι) (world : W) :
    Goes noted s world (cast.settle n s world).1 (cast.settle n s world).2 := by
  induction n generalizing s world with
  | zero => exact .aside fun _ => id
  | succ n ih =>
    unfold settle
    cases hstep : cast.stepAny s world with
    | none => exact .aside fun _ => id
    | some next => exact (stepAny_goes h hstep).trans (ih next.1 next.2)

theorem schedule_goes (h : cast.Notes noted) (s : State ι) (world : W) (c : ι) :
    Goes noted s world (cast.schedule s world c).2.1 (cast.schedule s world c).2.2 := by
  unfold schedule
  cases hopen : s.isOpen with
  | true => exact h.spoken (e := .schedule c _) (by simp) (by simp [calls, hopen])
  | false => exact .silent (e := .schedule c _) (by simp) (by simp [calls, hopen]) fun _ => id

end

end Cast

/-! ## Scripted connections -/

namespace Stagehands

def word : Call → Reply → String
  | .notify state, _ => state.name
  | .work, _ => "work"
  | .changed, _ => "changed?"
  | .partialRead, _ => "partial?"
  | .close, _ => "close"
  | .handOver, .returned _ => "returned"
  | .handOver, .raised _ => "detector_panic"

def line : String × Call × Reply → String
  | (c, call, reply) => s!"{c} {word call reply}"

inductive Logged : List (String × Call × Reply) → List String → Prop
  | nothing : Logged [] []
  | call {made : List (String × Call × Reply)} {lines : List String} (logged : Logged made lines)
      (c : String × Call × Reply) : Logged (made ++ [c]) (lines ++ [line c])
  | passed {made : List (String × Call × Reply)} {lines : List String} (logged : Logged made lines) (c what : String)
      (gate : what ∈ ["resume", "closed_scheduler"]) : Logged made (lines ++ [s!"{c} {what}"])

theorem Logged.trans {made more : List (String × Call × Reply)} {lines later : List String} (h : Logged made lines)
    (h' : Logged more later) : Logged (made ++ more) (lines ++ later) := by
  induction h' with
  | nothing => simpa using h
  | call _ c ih =>
    rw [← List.append_assoc, ← List.append_assoc]
    exact ih.call c
  | passed _ c what gate ih =>
    rw [← List.append_assoc]
    exact ih.passed c what gate

/-- What the log says since it said `start`. -/
def Notes (start : List String) (made : List (String × Call × Reply)) (h : Stagehands) : Prop :=
  ∃ lines, h.log = start ++ lines ∧ Logged made lines

variable {start : List String} {made : List (String × Call × Reply)} {h : Stagehands}

@[simp] theorem log_put (s : Script) : (h.put s).log = h.log := rfl

@[simp] theorem log_say (c what : String) : (h.say c what).log = h.log ++ [s!"{c} {what}"] := rfl

theorem answer_log (c : String) (call : Call) (h : Stagehands) :
    (answer c call h).2.log = h.log ++ [line (c, call, (answer c call h).1)] := by
  cases call with
  | handOver =>
    by_cases hfaults : (h.find c).detectorFaults = true
    · simp [answer, hfaults, line, word]
    · simp [answer, hfaults, line, word]
  | _ => rfl

theorem Notes.answer (hn : Notes start made h) (c : String) (call : Call) :
    Notes start (made ++ [(c, call, (answer c call h).1)]) (answer c call h).2 := by
  obtain ⟨lines, hlog, hlogged⟩ := hn
  refine ⟨lines ++ [line (c, call, (Stagehands.answer c call h).1)], ?_, hlogged.call _⟩
  rw [answer_log, hlog, List.append_assoc]

/-- Inside a unit nothing is said, unless its call of `close` has just returned. -/
theorem within_log (c : String) (h : Stagehands) :
    (within c h).2.log = h.log ∨ (within c h).2.log = (h.say c "closed_scheduler").log := by
  unfold within
  by_cases hgated : (h.find c).current.gated = true
  · simp [hgated]
  · by_cases hstops : (h.find c).current.stopsPool = true
    · simp [hgated, hstops]
    · by_cases hstopping : (h.find c).stopping = true
      · right
        cases hfault : (h.find c).current.fault <;> simp [hgated, hstops, hstopping, hfault]
      · left
        cases hfault : (h.find c).current.fault <;> simp [hgated, hstops, hstopping, hfault]

theorem Notes.within (hn : Notes start made h) (c : String) : Notes start made (within c h).2 := by
  obtain ⟨lines, hlog, hlogged⟩ := hn
  rcases within_log c h with hsame | hclosed
  · exact ⟨lines, hsame.trans hlog, hlogged⟩
  · refine ⟨_, ?_, hlogged.passed c "closed_scheduler" (by decide)⟩
    rw [hclosed, log_say, hlog, List.append_assoc]

/-- What happens beside its log is nothing to the calls. -/
theorem Notes.of_log {h' : Stagehands} (hn : Notes start made h) (hlog : h'.log = h.log) : Notes start made h' := by
  obtain ⟨lines, hstart, hlogged⟩ := hn
  exact ⟨lines, hlog.trans hstart, hlogged⟩

theorem Notes.openGate (hn : Notes start made h) (c : String) : Notes start made (h.openGate c) := by
  obtain ⟨lines, hlog, hlogged⟩ := hn
  refine ⟨_, ?_, hlogged.passed c "resume" (by decide)⟩
  rw [← List.append_assoc, ← hlog]
  rfl

theorem cast_notes (start : List String) : cast.Notes (Notes start) where
  answer c call hn := hn.answer c call
  within c hn := hn.within c
  beside := nofun

end Stagehands

namespace Rehearsal

open State Stagehands

/-- From one state of a rehearsal to another: the pool by a run in which nobody misreads the gauge,
    and the log by the lines of that run's calls. -/
def Goes (r r' : Rehearsal) : Prop :=
  ∃ made lines, Leads r.pool made r'.pool ∧ r'.hands.log = r.hands.log ++ lines ∧ Logged made lines

theorem Goes.refl (r : Rehearsal) : r.Goes r := ⟨[], [], .refl _, (List.append_nil _).symm, .nothing⟩

theorem Goes.trans {r r' r'' : Rehearsal} (h : r.Goes r') (h' : r'.Goes r'') : r.Goes r'' := by
  obtain ⟨made, lines, hleads, hlog, hlogged⟩ := h
  obtain ⟨more, later, hleads', hlog', hlogged'⟩ := h'
  refine ⟨made ++ more, lines ++ later, hleads.trans hleads', ?_, hlogged.trans hlogged'⟩
  rw [hlog', hlog, List.append_assoc]

theorem goes_of_cast {r r' : Rehearsal} (h : Cast.Goes (Notes r.hands.log) r.pool r.hands r'.pool r'.hands) :
    r.Goes r' := by
  have hnothing : Notes r.hands.log [] r.hands := ⟨[], (List.append_nil _).symm, .nothing⟩
  obtain ⟨made, hleads, lines, hlog, hlogged⟩ := h [] hnothing
  exact ⟨made, lines, hleads, hlog, hlogged⟩

theorem settles (start : List String) (r : Rehearsal) :
    Cast.Goes (Notes start) r.pool r.hands r.settle.pool r.settle.hands :=
  Cast.settle_goes (cast_notes start) r.fuel r.pool r.hands

theorem schedules (start : List String) (r : Rehearsal) (c : String) :
    Cast.Goes (Notes start) r.pool r.hands (r.schedule c).2.pool (r.schedule c).2.hands :=
  (Cast.schedule_goes (cast_notes start) r.pool r.hands c).trans
    (settles start ⟨(Stagehands.cast.schedule r.pool r.hands c).2.1, (Stagehands.cast.schedule r.pool r.hands c).2.2⟩)

theorem openGate_goes (r : Rehearsal) (c : String) : r.Goes (r.openGate c) := by
  have hopened : Cast.Goes (Notes r.hands.log) r.pool r.hands r.pool (r.hands.openGate c) :=
    .aside fun _ hn => hn.openGate c
  exact goes_of_cast (hopened.trans (settles _ ⟨r.pool, r.hands.openGate c⟩))

theorem close_goes (r : Rehearsal) : r.Goes r.close := by
  have hcalled : Cast.Goes (Notes r.hands.log) r.pool r.hands r.pool.callClose r.hands :=
    .silent (e := .callClose) (by simp) rfl fun _ => id
  exact goes_of_cast (hcalled.trans (settles _ ⟨r.pool.callClose, r.hands⟩))

theorem schedule_goes (r : Rehearsal) (hands : Stagehands) (hlog : hands.log = r.hands.log) (c : String) :
    r.Goes (({ r with hands } : Rehearsal).schedule c).2 := by
  have hcomes : Cast.Goes (Notes r.hands.log) r.pool r.hands r.pool hands := .aside fun _ hn => hn.of_log hlog
  exact goes_of_cast (hcomes.trans (schedules _ ⟨r.pool, hands⟩ c))

/-- Whatever is requested, the pool goes through a run, and the log shows which. -/
theorem request_goes (r : Rehearsal) (request : Request) : r.Goes (r.request request).2 := by
  cases request with
  | schedule script => exact schedule_goes r (r.hands.put script) (log_put script) script.name
  | ready c =>
    by_cases hparked : r.hands.parked.contains c = true
    · rw [Rehearsal.request, if_pos hparked]
      exact schedule_goes r { r.hands with parked := r.hands.parked.erase c } rfl c
    · rw [Rehearsal.request, if_neg hparked]
      exact .refl r
  | openGate c =>
    by_cases hgated : r.gated.contains c = true
    · rw [Rehearsal.request, if_pos hgated]
      exact openGate_goes r c
    · rw [Rehearsal.request, if_neg hgated]
      exact .refl r
  | close => exact close_goes r

theorem openGates_goes (n : Nat) (r : Rehearsal) : r.Goes (openGates n r) := by
  induction n generalizing r with
  | zero => exact .refl r
  | succ n ih =>
    unfold openGates
    split
    · exact .refl r
    · exact (openGate_goes r _).trans (ih _)

theorem finish_goes (r : Rehearsal) : r.Goes r.finish := (openGates_goes _ r).trans (close_goes _)

/-- So a rehearsal of any requests, to its end, is one run of a pool of that size in which nobody
    misreads the gauge, and its log is that of the run's calls. -/
theorem rehearsed (size : Nat) (requests : List Request) :
    let r := requests.foldl (fun r request => (r.request request).2) (ofSize size)
    (ofSize size).Goes r ∧ (ofSize size).Goes r.finish := by
  intro r
  have hgoes : (ofSize size).Goes r := by
    refine List.foldlRecOn (motive := (ofSize size).Goes) requests _ (.refl _) fun r hr request _ => ?_
    exact hr.trans (request_goes r request)
  exact ⟨hgoes, hgoes.trans (finish_goes r)⟩

end Rehearsal

end MessageBroker.Pool
