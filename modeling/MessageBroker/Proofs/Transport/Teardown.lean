/-
  MessageBroker.Proofs.Transport.Teardown — a service that is shut down closes every
  connection, once.

  `shutdown` stops the selector first and the pool after it, so that each place a connection
  can be in is emptied behind the last connection that can come there. The selector refuses
  offers before it closes what it has (`Shut`), the pool runs out after that
  (`Pool.State.Ending`), and the call returns when both are done (`Progress`). As no
  connection is ever lost (`Owned`), all are closed by then.
  - `shutdown_closes`: each handler has then been told so, once and last.
-/

import MessageBroker.Proofs.Transport.Lifecycle
import MessageBroker.Proofs.Transport.Ownership

namespace MessageBroker.Transport

open Connection

variable {σ : Type}

theorem ThreadStage.isShut_of_hasEnded {stage : ThreadStage} (h : stage.hasEnded = true) :
    stage.isShut = true := by
  cases stage <;> first | rfl | cases h

namespace Service

/-! ## The selector -/

/-- A selector that is shut accepts no offer, and one whose thread has ended has nothing. -/
structure Shut (s : Service σ) : Prop where
  refuses : s.thread.isShut = true → s.selector.accepting = false
  empty : s.thread.hasEnded = true → s.selector.returned = [] ∧ s.selector.parked = []

variable {s t : Service σ} {act : Act σ}

theorem Shut.of_not_isShut (h : t.thread.isShut = false) : Shut t where
  refuses hshut := by rw [h] at hshut; cases hshut
  empty hended := by rw [ThreadStage.isShut_of_hasEnded hended] at h; cases h

theorem Shut.step (hs : Shut s) (h : Effect s act t) : Shut t := by
  cases h with
  | idle | arrive | misread | join | call | shutdown | work => exact ⟨hs.refuses, hs.empty⟩
  | turn shut ended => exact ⟨fun h => hs.refuses (shut.symm.trans h), fun h => hs.empty (ended.symm.trans h)⟩
  | shut => exact ⟨fun _ => rfl, nofun⟩
  | drain stage => exact ⟨fun _ => hs.refuses (by rw [stage]; rfl), fun _ => ⟨rfl, rfl⟩⟩
  | accept _ unshut | ready _ unshut | giveUp _ unshut => exact .of_not_isShut unshut
  | park serving =>
    exact .of_not_isShut (by rw [serving]; rfl)
  | handBack _ accepting =>
    -- a selector that accepts an offer is not shut
    refine .of_not_isShut (Bool.eq_false_iff.mpr fun hshut => ?_)
    rw [hs.refuses hshut] at accepting
    cases accepting

theorem Effect.hasEnded (h : Effect s act t) (hended : s.thread.hasEnded = true) : t.thread.hasEnded = true := by
  cases h with
  | turn _ ended => exact ended.trans hended
  | shut stage | drain stage | accept stage | ready stage | giveUp stage =>
    rw [stage] at hended
    cases hended
  | _ => exact hended

/-! ## The call of `shutdown` -/

theorem Effect.joined (h : Effect s act t) (hjoined : s.pool.joined = true) : t.pool.joined = true := by
  rcases h.pool with heq | ⟨e, _, heq⟩ <;> rw [heq]
  · exact hjoined
  · exact (s.pool.next_change e).joined hjoined

def Reached (s : Service σ) : ShutdownStage → Prop
  | .entered => s.lifecycle.phase = .active ∧ s.lifecycle.hasSelector = true
  | .taking => s.lifecycle.hasSelector = true
  | .stoppingSelector => True
  | .closingPool _ => s.thread.hasEnded = true
  | .settling _ | .returned _ => s.thread.hasEnded = true ∧ s.pool.joined = true

structure Progress (s : Service σ) : Prop where
  before : s.lifecycle.calls = [] → s.lifecycle.phase = .active ∧ s.lifecycle.hasSelector = true
  reached : ∀ stage, s.lifecycle.calls = [stage] → s.Reached stage

/-- Whatever goes on beside a call keeps its progress. -/
theorem Progress.keep (hp : Progress s) (hlifecycle : t.lifecycle = s.lifecycle)
    (hended : s.thread.hasEnded = true → t.thread.hasEnded = true)
    (hjoined : s.pool.joined = true → t.pool.joined = true) : Progress t := by
  refine ⟨hlifecycle ▸ hp.before, fun stage hcalls => ?_⟩
  have hreached := hp.reached stage (hlifecycle ▸ hcalls)
  cases stage with
  | entered | taking => simpa only [Reached, hlifecycle] using hreached
  | stoppingSelector => trivial
  | closingPool => exact hended hreached
  | settling | returned => exact hreached.imp hended hjoined

theorem Progress.of_two (h : 2 ≤ t.lifecycle.calls.length) : Progress t where
  before hcalls := by simp [hcalls] at h
  reached stage hcalls := by simp [hcalls] at h

theorem Progress.of_calls (stage : ShutdownStage) (hcalls : t.lifecycle.calls = [stage])
    (hreached : t.Reached stage) : Progress t where
  before h := by rw [hcalls] at h; cases h
  reached other h := by
    obtain rfl : stage = other := by simpa [hcalls] using h
    exact hreached

theorem Progress.callShutdown (hp : Progress s) : Progress { s with lifecycle := s.lifecycle.call } := by
  cases hcalls : s.lifecycle.calls with
  | nil =>
    refine .of_calls .entered ?_ (hp.before hcalls)
    simp [Lifecycle.call, hcalls]
  | cons stage rest => exact .of_two (by simp [Lifecycle.call, hcalls])

theorem stepShutdown_of_none {i : Nat} (h : s.lifecycle.calls[i]? = none) : s.stepShutdown i = s := by
  simp [stepShutdown, h, Lifecycle.step]

theorem length_calls_stepShutdown (s : Service σ) (i : Nat) :
    (s.stepShutdown i).lifecycle.calls.length = s.lifecycle.calls.length := by
  unfold stepShutdown
  split
  · exact Lifecycle.length_calls_step ..
  · split
    · exact Lifecycle.length_calls_step ..
    · rfl
  · split
    · exact Lifecycle.length_calls_step ..
    · rfl
  · exact Lifecycle.length_calls_step ..

/-- The only call goes on: it waits for the selector's thread first and for the pool after
    that. -/
theorem Progress.stepShutdown_zero {stage : ShutdownStage} (hp : Progress s)
    (hcalls : s.lifecycle.calls = [stage]) : Progress (s.stepShutdown 0) := by
  have hreached := hp.reached stage hcalls
  cases stage with
  | entered =>
    have hphase : s.lifecycle.phase = .active := hreached.1
    have hselector : s.lifecycle.hasSelector = true := hreached.2
    refine .of_calls .taking ?_ ?_
    · simp [stepShutdown, hcalls, Lifecycle.step, Lifecycle.advance, hphase, Phase.isActive, Phase.move,
        Phase.moves]
    · simp [stepShutdown, hcalls, Lifecycle.step, Lifecycle.advance, hphase, Phase.isActive, Phase.move,
        Phase.moves, Reached, hselector]
  | taking =>
    have hselector : s.lifecycle.hasSelector = true := hreached
    refine .of_calls .stoppingSelector ?_ trivial
    simp [stepShutdown, hcalls, Lifecycle.step, Lifecycle.advance, hselector]
  | stoppingSelector =>
    cases hthread : s.thread with
    | ended faulty =>
      refine .of_calls (.closingPool (threadResult faulty)) ?_ ?_
      · simp [stepShutdown, hcalls, hthread, Lifecycle.step, Lifecycle.advance]
      · simp [stepShutdown, hcalls, hthread, Reached, ThreadStage.hasEnded]
    | looking | serving | shutting | draining =>
      have hwaits : s.stepShutdown 0 = s := by simp [stepShutdown, hcalls, hthread]
      rwa [hwaits]
  | closingPool selector =>
    cases hjoined : s.pool.joined with
    | true =>
      have hended : s.thread.hasEnded = true := hreached
      refine .of_calls (.settling selector) ?_ ?_
      · simp [stepShutdown, hcalls, hjoined, Lifecycle.step, Lifecycle.advance]
      · simp [stepShutdown, hcalls, hjoined, Reached, hended]
    | false =>
      have hwaits : s.stepShutdown 0 = s := by simp [stepShutdown, hcalls, hjoined]
      rwa [hwaits]
  | settling selector =>
    have hdown : s.thread.hasEnded = true ∧ s.pool.joined = true := hreached
    obtain ⟨result, hresult⟩ := Lifecycle.returned_of_settling s.lifecycle (.ok ()) selector
    refine .of_calls (.returned result) ?_ ?_
    · simp [stepShutdown, hcalls, Lifecycle.step, Lifecycle.calls_advance, hresult]
    · simpa [stepShutdown, hcalls, Reached] using hdown
  | returned result =>
    have hdown : s.thread.hasEnded = true ∧ s.pool.joined = true := hreached
    refine .of_calls (.returned result) ?_ ?_
    · simp [stepShutdown, hcalls, Lifecycle.step, Lifecycle.advance]
    · simpa [stepShutdown, hcalls, Reached] using hdown

theorem Progress.stepShutdown (hp : Progress s) (i : Nat) : Progress (s.stepShutdown i) := by
  match hcalls : s.lifecycle.calls, i with
  | [], i => rwa [stepShutdown_of_none (by simp [hcalls])]
  | [_], i + 1 => rwa [stepShutdown_of_none (by simp [hcalls])]
  | [_], 0 => exact hp.stepShutdown_zero hcalls
  | _ :: _ :: _, i => exact .of_two (by simp [length_calls_stepShutdown, hcalls])

theorem Progress.step (hp : Progress s) (act : Act σ) : Progress (s.step act) := by
  have heffect := s.step_effect act
  have hended := heffect.hasEnded
  have hjoined := heffect.joined
  cases act with
  | callShutdown => exact hp.callShutdown
  | shutdown i => exact hp.stepShutdown i
  | _ =>
    refine hp.keep ?_ hended hjoined
    generalize s.step _ = t at heffect
    cases heffect <;> rfl

/-! ## Every run -/

structure Sound (size : Nat) (s : Service σ) : Prop where
  tokens : s.Tokens
  owned : s.Owned
  shut : s.Shut
  pool : s.pool.Ending size
  progress : s.Progress

theorem Sound.step {size : Nat} (hs : Sound size s) (act : Act σ) : Sound size (s.step act) where
  tokens := hs.tokens.step (s.step_effect act)
  owned := hs.owned.step hs.tokens (s.step_effect act)
  shut := hs.shut.step (s.step_effect act)
  pool := by
    rcases (s.step_effect act).pool with heq | ⟨e, houtside, heq⟩ <;> rw [heq]
    · exact hs.pool
    · exact hs.pool.next houtside (s.pool.next_change e)
  progress := hs.progress.step act

/-- A service starts active, with no connection and with the workers it is to have. -/
theorem start_cases {config : Config} {handler : Handler σ} {listening : Except IoError Network.Endpoint}
    (hstart : start config handler listening = .ok s) :
    ∃ endpoint, s = { config, listening := endpoint, handler, pool := .ofSize config.workers.toNat } ∧
      0 < config.workers.toNat := by
  have hworkers : config.workers ≠ 0 := by
    intro h
    simp [start, Config.validate, h, Except.mapError, bind, Except.bind] at hstart
  have hpos : 0 < config.workers.toNat :=
    Nat.pos_of_ne_zero fun h => hworkers (UInt64.toNat_inj.mp h)
  cases hvalid : config.validate with
  | error fault => simp [start, hvalid, Except.mapError, bind, Except.bind] at hstart
  | ok =>
    cases listening with
    | error e => simp [start, hvalid, Except.mapError, bind, Except.bind] at hstart
    | ok endpoint =>
      simp [start, hvalid, Except.mapError, bind, Except.bind, Phase.move, Phase.moves] at hstart
      exact ⟨endpoint, (Except.ok.inj hstart).symm, hpos⟩

theorem sound_start {config : Config} {handler : Handler σ} {listening : Except IoError Network.Endpoint}
    (hstart : start config handler listening = .ok s) : Sound config.workers.toNat s := by
  obtain ⟨endpoint, rfl, _⟩ := start_cases hstart
  exact {
    tokens := ⟨nofun, nofun, nofun⟩
    owned := fun _ => .inr rfl
    shut := ⟨nofun, nofun⟩
    pool := Pool.State.ending_ofSize _
    progress := ⟨fun _ => ⟨rfl, rfl⟩, nofun⟩ }

theorem sound_run {size : Nat} (hs : Sound size s) (acts : List (Act σ)) : Sound size (s.run acts) :=
  History.along (fun _ t => Sound size t) hs (fun _ _ act ht => ht.step act) acts

end Service

/-- The same act, of handlers whose callbacks are written down. -/
def Act.watched : Act σ → Act (Watched σ)
  | .arrive c arrival => .arrive c arrival
  | .turn => .turn
  | .accept handler => .accept ⟨handler, []⟩
  | .ready token => .ready token
  | .takeReturn reply => .takeReturn reply
  | .worker w acceptances => .worker w acceptances
  | .misread w busy => .misread w busy
  | .poolCaller i => .poolCaller i
  | .callShutdown => .callShutdown
  | .shutdown i => .shutdown i

namespace Service

/-- A service whose handlers write down their callbacks: every connection so far tells its
    handler when it closes, once and last. -/
structure ToldOnce (handler : Handler σ) (s : Service (Watched σ)) : Prop where
  watched : s.handler = handler.watched
  told : ∀ served ∈ s.served, served.connection.ClosesOnce

section
variable {handler : Handler σ} {s t : Service (Watched σ)}

theorem told_of_lived {l : List (Served (Watched σ))} (hall : ∀ served ∈ l, served.connection.ClosesOnce)
    (hlived : Lived handler.watched l t.served) : ∀ served ∈ t.served, served.connection.ClosesOnce := by
  intro served hin
  obtain ⟨c, hc⟩ := List.getElem?_of_mem hin
  have hrel := hlived c
  rw [hc] at hrel
  cases hold : l[c]? with
  | none =>
    rw [hold] at hrel
    cases hrel
  | some old =>
    rw [hold] at hrel
    cases hrel with
    | some hlife => exact hlife.closesOnce (hall old (List.mem_of_getElem? hold))

theorem ToldOnce.step {act : Act σ} (hs : ToldOnce handler s) (h : Effect s act.watched t) :
    ToldOnce handler t := by
  refine ⟨h.handler.trans hs.watched, ?_⟩
  rcases h.lived with hlived | ⟨started, hact, hlived⟩
  · exact told_of_lived hs.told (hs.watched ▸ hlived)
  · refine told_of_lived (fun served hin => ?_) (hs.watched ▸ hlived)
    rcases List.mem_append.mp hin with hin | hin
    · exact hs.told served hin
    · -- a handler that has just been accepted has had no callback
      rw [List.mem_singleton.mp hin]
      cases act <;> cases hact
      exact List.not_mem_nil

theorem toldOnce_run (hs : ToldOnce handler s) (acts : List (Act σ)) :
    ToldOnce handler (s.run (acts.map Act.watched)) := by
  induction acts generalizing s with
  | nil => exact hs
  | cons act rest ih => exact ih (hs.step (s.step_effect act.watched))

end

/-- Of every run of a service, whatever its peers send and whenever they do, however its
    handlers behave, and in whichever order its threads go on. When the one call of
    `shutdown` has returned, the handler of every connection that was accepted has been
    told that it closes, once, and nothing after that. -/
theorem shutdown_closes (config : Config) (handler : Handler σ) (listening : Except IoError Network.Endpoint)
    {s : Service (Watched σ)} (hstart : start config handler.watched listening = .ok s) (acts : List (Act σ))
    {result : Except Error Unit} (hreturned : (s.run (acts.map Act.watched)).lifecycle.calls = [.returned result]) :
    ∀ served ∈ (s.run (acts.map Act.watched)).served,
      ∃ earlier, served.connection.handler.calls = earlier ++ [.closes] ∧ .closes ∉ earlier := by
  obtain ⟨endpoint, hs, hpos⟩ := start_cases hstart
  have hsound := sound_run (sound_start hstart) (acts.map Act.watched)
  have htold : ToldOnce handler (s.run (acts.map Act.watched)) := by
    refine toldOnce_run ⟨?_, ?_⟩ acts <;> rw [hs]
    exact nofun
  generalize s.run (acts.map Act.watched) = t at *
  -- everything that could have a connection is empty
  have hdown : t.thread.hasEnded = true ∧ t.pool.joined = true := hsound.progress.reached _ hreturned
  have hkept : t.pool.kept = [] := hsound.pool.kept_joined hpos hdown.2
  have hempty := hsound.shut.empty hdown.1
  intro served hin
  obtain ⟨c, hc⟩ := List.getElem?_of_mem hin
  have hclosed : closedAt t.served c = true := by
    rcases hsound.owned c with hplaced | hclosed
    · simp [Placed, hkept, hempty.1, hempty.2] at hplaced
    · exact hclosed
  have honce := htold.told served hin
  simp only [closedAt, hc, Option.all_some] at hclosed
  simpa only [ClosesOnce, hclosed, if_true] using honce

deriving instance DecidableEq for ShutdownStage

/-- One connection that had a payload is parked when the service is shut down, and one that
    was just accepted is still queued: the selector's thread closes the first, a worker runs
    the second and closes it. -/
theorem parked_and_queued_close :
    let handler : Handler Unit := { onFrame := fun _ s outbox => ⟨.returned (.ok ()), s, outbox⟩ }
    let config : Config := { workers := 1 }
    let listening : Network.Endpoint := ⟨.v4 .unspecified, 5672⟩
    let s : Service (Watched Unit) := { config, listening, handler := handler.watched, pool := .ofSize 1 }
    let acts : List (Act Unit) := List.flatten
      [[.turn, .accept (), .arrive 0 (.bytes [0, 0, 0, 1, 7])], List.replicate 9 (.worker 0 []),
        [.takeReturn (.ok ()), .accept (), .callShutdown, .shutdown 0, .shutdown 0], List.replicate 4 .turn,
        [.shutdown 0, .poolCaller 0, .poolCaller 0], List.replicate 10 (.worker 0 []),
        [.poolCaller 0, .poolCaller 0, .shutdown 0, .shutdown 0]]
    start config handler.watched (.ok listening) = .ok s ∧
      (s.run (acts.map Act.watched)).lifecycle.calls = [.returned (.ok ())] ∧
      (s.run (acts.map Act.watched)).served.map (·.connection.handler.calls) =
        [[.frame [7], .poll, .closes], [.poll, .closes]] ∧
      ∀ served ∈ (s.run (acts.map Act.watched)).served,
        ∃ earlier, served.connection.handler.calls = earlier ++ [.closes] ∧ .closes ∉ earlier := by
  intro handler config listening s acts
  have hstart : start config handler.watched (.ok listening) = .ok s := rfl
  have hreturned : (s.run (acts.map Act.watched)).lifecycle.calls = [.returned (.ok ())] := by decide +kernel
  have hcalls : (s.run (acts.map Act.watched)).served.map (·.connection.handler.calls) =
      [[.frame [7], .poll, .closes], [.poll, .closes]] := by decide +kernel
  exact ⟨hstart, hreturned, hcalls, shutdown_closes config handler (.ok listening) hstart acts hreturned⟩

end Service

end MessageBroker.Transport
