/-
  MessageBroker.Proofs.History — runs, and what holds all along them.

  A machine is a step function on its states. A run is the list of its events, and its
  history pairs each event with the state it met, so what the event answered and changed
  can be read off it.
  - `along` / `along_allowed`: what holds before the first event and is kept by every step,
    or by every allowed one, holds of every run.
  - `moments_split`: every moment of a run ends a shorter run and starts another.
  - `reached`, `upTo`: an endless run. What comes to pass in it some time comes first at some
    time, and what nothing else ends holds until then (`holds_until`).
-/

namespace MessageBroker

/-- An event of a run and the state it met. -/
structure Moment (σ ε : Type) where
  before : σ
  event : ε

namespace History

variable {σ ε : Type} (step : σ → ε → σ)

def moments : σ → List ε → List (Moment σ ε)
  | _, [] => []
  | s, e :: rest => ⟨s, e⟩ :: moments (step s e) rest

def final (s : σ) (events : List ε) : σ := events.foldl step s

def reached (s : σ) (events : Nat → ε) : Nat → σ
  | 0 => s
  | t + 1 => step (reached s events t) (events t)

/-- The moments of an endless run before its event number `t`. -/
def upTo (s : σ) (events : Nat → ε) (t : Nat) : List (Moment σ ε) :=
  (List.range t).map fun i => ⟨reached step s events i, events i⟩

variable {step}

@[simp] theorem flatMap_snoc {α : Type} (f : Moment σ ε → List α) (past : List (Moment σ ε)) (s : σ) (e : ε) :
    (past ++ [(⟨s, e⟩ : Moment σ ε)]).flatMap f = past.flatMap f ++ f ⟨s, e⟩ := by
  simp

/-- Induction over a run of allowed events, from its start: the invariant speaks of the
    past and of the state reached. -/
theorem along_allowed {P : ε → Prop} (Inv : List (Moment σ ε) → σ → Prop) {s : σ} (start : Inv [] s)
    (each : ∀ past t e, P e → Inv past t → Inv (past ++ [⟨t, e⟩]) (step t e)) {events : List ε}
    (h : ∀ e ∈ events, P e) :
    Inv (moments step s events) (final step s events) := by
  -- the past grows at its end, the run is read from its front
  have go : ∀ (events : List ε) (past : List (Moment σ ε)) (t : σ), (∀ e ∈ events, P e) →
      Inv past t → Inv (past ++ moments step t events) (final step t events) := by
    intro events
    induction events with
    | nil => intro past t _ hi; simpa [moments, final] using hi
    | cons e rest ih =>
      intro past t hp hi
      have hnext := each past t e (hp e (by simp)) hi
      have := ih _ _ (fun x hx => hp x (List.mem_cons_of_mem _ hx)) hnext
      simpa [moments, final, List.append_assoc] using this
  simpa using go events [] s h start

/-- Induction over any run, from its start. -/
theorem along (Inv : List (Moment σ ε) → σ → Prop) {s : σ} (start : Inv [] s)
    (each : ∀ past t e, Inv past t → Inv (past ++ [⟨t, e⟩]) (step t e)) (events : List ε) :
    Inv (moments step s events) (final step s events) :=
  along_allowed (P := fun _ => True) Inv start (fun past t e _ => each past t e) fun _ _ => trivial

theorem moments_append (s : σ) (first rest : List ε) :
    moments step s (first ++ rest) = moments step s first ++ moments step (final step s first) rest := by
  induction first generalizing s with
  | nil => rfl
  | cons e first ih => exact congrArg (⟨s, e⟩ :: ·) (ih (step s e))

theorem final_append (s : σ) (first rest : List ε) :
    final step s (first ++ rest) = final step (final step s first) rest :=
  List.foldl_append

/-- A moment within a run splits it: the run before leads to the state the event met, and
    the run after starts from the state it left. -/
theorem moments_split {s : σ} {events : List ε} {past later : List (Moment σ ε)} {m : Moment σ ε}
    (h : moments step s events = past ++ m :: later) :
    ∃ first rest, events = first ++ m.event :: rest ∧ past = moments step s first ∧ m.before = final step s first ∧
      later = moments step (step m.before m.event) rest := by
  induction past generalizing s events with
  | nil =>
    cases events with
    | nil => cases h
    | cons e rest =>
      obtain ⟨rfl, rfl⟩ := List.cons.inj h
      exact ⟨[], rest, rfl, rfl, rfl, rfl⟩
  | cons x past ih =>
    cases events with
    | nil => cases h
    | cons e rest =>
      obtain ⟨rfl, hrest⟩ := List.cons.inj h
      obtain ⟨first, last, he, hp, hm, hl⟩ := ih hrest
      exact ⟨e :: first, last, by rw [he]; rfl, by rw [hp]; rfl, hm, hl⟩

@[simp] theorem map_event_moments (s : σ) (events : List ε) : (moments step s events).map Moment.event = events := by
  induction events generalizing s with
  | nil => rfl
  | cons e rest ih => exact congrArg (e :: ·) (ih (step s e))

theorem length_moments (s : σ) (events : List ε) : (moments step s events).length = events.length := by
  rw [← List.length_map, map_event_moments]

theorem exists_moment {s : σ} {events : List ε} {e : ε} (h : e ∈ events) :
    ∃ m ∈ moments step s events, m.event = e := by
  induction events generalizing s with
  | nil => cases h
  | cons x rest ih =>
    rcases List.mem_cons.mp h with rfl | h
    · exact ⟨_, List.mem_cons_self, rfl⟩
    · obtain ⟨m, hm, he⟩ := ih (s := step s x) h
      exact ⟨m, List.mem_cons_of_mem _ hm, he⟩

/-! ## Endless runs -/

theorem moments_snoc (s : σ) (events : List ε) (e : ε) :
    moments step s (events ++ [e]) = moments step s events ++ [⟨final step s events, e⟩] :=
  moments_append s events [e]

theorem endless_begins (s : σ) (events : Nat → ε) (t : Nat) :
    moments step s ((List.range t).map events) = upTo step s events t ∧
      final step s ((List.range t).map events) = reached step s events t := by
  induction t with
  | zero => exact ⟨rfl, rfl⟩
  | succ t ih =>
    obtain ⟨hmoments, hfinal⟩ := ih
    constructor
    · rw [List.range_succ, List.map_append, List.map_singleton, moments_snoc, hmoments, hfinal, upTo, upTo,
        List.range_succ, List.map_append, List.map_singleton]
    · have hlast : final step s ((List.range (t + 1)).map events) =
          step (final step s ((List.range t).map events)) (events t) := by
        simp only [List.range_succ, List.map_append, final, List.foldl_append]
        rfl
      rw [hlast, hfinal]
      rfl

/-- What holds at some time, and goes on to hold unless `G` has come, holds when `G` comes. -/
theorem holds_until {P G : Nat → Prop} {m : Nat} (now : P m) (comes : ∃ n, m ≤ n ∧ G n)
    (keep : ∀ k, m ≤ k → ¬G k → P k → P (k + 1)) : ∃ n, m ≤ n ∧ G n ∧ P n := by
  obtain ⟨n, hmn, hG⟩ := comes
  -- by induction on the time that is left until `n`
  obtain ⟨d, rfl⟩ := Nat.exists_eq_add_of_le hmn
  clear hmn
  induction d generalizing m with
  | zero => exact ⟨m, Nat.le_refl m, hG, now⟩
  | succ d ih =>
    by_cases hm : G m
    · exact ⟨m, Nat.le_refl m, hm, now⟩
    · have hlater : ∀ k, m + 1 ≤ k → ¬G k → P k → P (k + 1) := fun k hk => keep k (by omega)
      have hG' : G (m + 1 + d) := by rwa [show m + 1 + d = m + (d + 1) by omega]
      obtain ⟨n, hle, hGn, hPn⟩ := ih (keep m (Nat.le_refl m) hm now) hlater hG'
      exact ⟨n, by omega, hGn, hPn⟩

end History

end MessageBroker
