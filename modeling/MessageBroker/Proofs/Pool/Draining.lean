/-
  MessageBroker.Proofs.Pool.Draining — what becomes of the connections in a pool that is closed.

  A closed pool stays closed and puts nothing on its queue (`Refuses`). What is queued is
  still taken if workers go on, units of work end, and some worker does not rerun its
  connection for ever. If none does, the queue gets empty and the workers exit, and then each
  connection that was ever queued has ended its last stay.
  - `queue_empties`, `workers_exit`: a closed pool comes to its end.
  - `Told.ended`: what a connection has heard when nothing is left in the pool.
  - `closed_pool_drains`: the above, of every endless run.
  - `rerun_for_ever_starves`: why it asks for a worker that does not rerun for ever.
-/

import Mathlib.Order.Filter.AtTopBot.Finite
import MessageBroker.Proofs.Pool.Progress

namespace MessageBroker.Pool

open History Protocol

variable {ι : Type}

namespace State

/-! ## A closed pool -/

/-- A closed pool refuses what it is offered, from outside and by its workers, calls nobody
    about it, and does not let its queue grow. -/
structure Refuses (s : State ι) (e : Event ι) : Prop where
  closed : (s.next e).isOpen = false
  /-- Who offers a connection gets it back. -/
  outside : ∀ c reply, e = .schedule c reply →
    (s.schedule c reply).1 = .rejected ∧ refused ⟨s, e⟩ = [c] ∧ calls ⟨s, e⟩ = []
  /-- A worker that offers one closes it next. -/
  worker : ∀ w reply c, e = .worker w reply → s.stages[w]? = some (.resubmitting c) →
    calls ⟨s, e⟩ = [] ∧ (s.next e).stages[w]? = some (.closing c) ∧ (s.next e).queue = s.queue
  queue : enqueued ⟨s, e⟩ = [] ∧ (s.next e).queue <:+ s.queue

theorem refuses {s : State ι} (hclosed : s.isOpen = false) (e : Event ι) : Refuses s e where
  closed := (s.next_change e).closed hclosed
  outside := by
    rintro c reply rfl
    simp [schedule, refused, calls, hclosed]
  worker := by
    rintro w reply c rfl hw
    obtain ⟨after, s', hm, hafter⟩ := stage_moves hw reply
    cases hm with
    | refuse =>
      refine ⟨by simp [calls, nextCall, hw, hclosed], hafter, ?_⟩
      rcases s.queue_next (.worker w reply) with hqueue | ⟨v, d, htakes, -⟩
      · rw [hqueue, enqueued_closed hclosed, List.append_nil]
      · obtain ⟨⟨reply', heq⟩, hplace, -, -⟩ := htakes
        cases heq
        rw [hw] at hplace
        cases hplace
    | enqueue isOpen | enqueueFault isOpen =>
      rw [hclosed] at isOpen
      cases isOpen
  queue := by
    refine ⟨enqueued_closed hclosed e, ?_⟩
    rcases s.queue_next e with hqueue | ⟨w, c, htakes, -⟩
    · rw [hqueue, enqueued_closed hclosed, List.append_nil]
    · rw [htakes.first]
      exact List.suffix_cons c _

/-! ## Its end -/

section
variable {size : Nat} {events : Nat → Event ι}

theorem queue_suffix {k t : Nat} (hclosed : (atTime size events k).isOpen = false) (h : k ≤ t) :
    (atTime size events t).queue <:+ (atTime size events k).queue := by
  induction t, h using Nat.le_induction with
  | base => exact List.suffix_rfl
  | succ t hkt ih => exact (refuses (closedAt hclosed hkt) (events t)).queue.2.trans ih

/-- The queue of a closed pool gets empty. -/
theorem queue_empties (fair : Fair size events) {w : Nat} (hw : w < size) (rests : Rests size events w) {k : Nat}
    (hclosed : (atTime size events k).isOpen = false) :
    ∃ t, k ≤ t ∧ (atTime size events t).queue = [] := by
  generalize hlen : (atTime size events k).queue.length = n
  -- by induction on the length of the queue, which the next take shortens
  induction n using Nat.strong_induction_on generalizing k with
  | _ n ih =>
    by_cases hnil : (atTime size events k).queue = []
    · exact ⟨k, Nat.le_refl k, hnil⟩
    · obtain ⟨u, hku, w, c, htakes⟩ := takes_some_time fair hw rests hnil
      have hsuffix := (queue_suffix hclosed hku).length_le
      have hshorter := congrArg List.length htakes.first
      rw [List.length_cons, ← atTime_succ] at hshorter
      obtain ⟨t, hut, hempty⟩ := ih _ (by omega) (closedAt hclosed (show k ≤ u + 1 by omega)) rfl
      exact ⟨t, by omega, hempty⟩

theorem exited_stays {w t u : Nat} (hexited : (atTime size events t).stages[w]? = some .exited) (h : t ≤ u) :
    (atTime size events u).stages[w]? = some .exited := by
  induction u, h using Nat.le_induction with
  | base => exact hexited
  | succ u _ ih => exact exited_next_stays ih (events u)

theorem worker_exits (fair : Fair size events) {w : Nat} (hw : w < size) (rests : Rests size events w) {k : Nat}
    (hclosed : (atTime size events k).isOpen = false) (hempty : (atTime size events k).queue = []) :
    ∃ t, ∀ u, t ≤ u → (atTime size events u).stages[w]? = some .exited := by
  obtain ⟨t, hkt, hwaiting | hexited⟩ := comes_back fair hw rests k
  · obtain ⟨v, htv, reply, hturn, hv⟩ := next_turn fair hw hwaiting rfl
    have hqueue : (atTime size events v).queue = [] :=
      List.suffix_nil.mp (hempty ▸ queue_suffix hclosed (hkt.trans htv))
    have hshut := closedAt hclosed (hkt.trans htv)
    obtain ⟨after, s', hm, hafter⟩ := stage_moves hv reply
    rw [← hturn, ← atTime_succ] at hafter
    cases hm with
    | exit => exact ⟨v + 1, fun u hu => exited_stays hafter hu⟩
    | take queued =>
      rw [hqueue] at queued
      cases queued
    | wait _ isOpen =>
      rw [hshut] at isOpen
      cases isOpen
  · exact ⟨t, fun u hu => exited_stays hexited hu⟩

theorem workers_exit (hsize : 0 < size) (fair : Fair size events) (rests : ∀ w < size, Rests size events w) {k : Nat}
    (hclosed : (atTime size events k).isOpen = false) :
    ∃ t, ∀ u, t ≤ u → ∀ stage ∈ (atTime size events u).stages, stage = .exited := by
  obtain ⟨m, hkm, hempty⟩ := queue_empties fair hsize (rests 0 hsize) hclosed
  have heach : ∀ w ∈ Set.Iio size, ∀ᶠ u in Filter.atTop, (atTime size events u).stages[w]? = some .exited :=
    fun w hw => Filter.eventually_atTop.mpr (worker_exits fair hw (rests w hw) (closedAt hclosed hkm) hempty)
  obtain ⟨t, hall⟩ := Filter.eventually_atTop.mp ((Filter.eventually_all_finite (Set.finite_lt_nat size)).mpr heach)
  refine ⟨t, fun u hu stage hin => ?_⟩
  obtain ⟨w, hw⟩ := List.getElem?_of_mem hin
  exact Option.some.inj (hw.symm.trans (hall u hu w (lt_size hw)))

/-- When all workers have exited, nothing is left in the pool. -/
theorem exited_empty (hsize : 0 < size) {t : Nat} (hall : ∀ stage ∈ (atTime size events t).stages, stage = .exited) :
    (atTime size events t).queue = [] ∧ (atTime size events t).metrics.occupancy = 0 ∧
      (atTime size events t).kept = [] := by
  obtain ⟨stage, hstage⟩ : ∃ stage, (atTime size events t).stages[0]? = some stage := exists_stage hsize t
  have hin := List.mem_of_getElem? hstage
  have hqueue := (drainedAt t (hall stage hin ▸ hin)).2
  refine ⟨hqueue, ?_, ?_⟩
  · rw [(booksAt t).gauge, List.countP_eq_zero]
    intro stage hin
    rw [hall stage hin]
    exact Bool.false_ne_true
  · rw [kept, hqueue, List.nil_append, List.filterMap_eq_nil_iff]
    intro stage hin
    rw [hall stage hin]
    rfl

end

/-! ## Unit after unit -/

/-- Where a worker is that does unit after unit on `c`, the first unit starting at time 0. -/
def unitAfterUnit (c : ι) (t : Nat) : Stage ι :=
  match t % 4 with
  | 0 => .starting c
  | 1 => .working c
  | 2 => .askingChanged c
  | _ => .deciding c

/-- The replies with which it does so: no unit ends the connection, and each leaves work. -/
def moreWork (t : Nat) : Reply := .returned (t % 4 != 1)

theorem unitAfterUnit_period (c : ι) (n t : Nat) : unitAfterUnit c (4 * n + t) = unitAfterUnit c t := by
  simp only [unitAfterUnit, Nat.mul_add_mod]

theorem atWork_unitAfterUnit (c : ι) (t : Nat) : (unitAfterUnit c t).atWork = true := by
  unfold unitAfterUnit
  split <;> rfl

/-- In a full pool work that is left is done at once, unit after unit. -/
theorem unitAfterUnit_next {s : State ι} {w : Nat} {c : ι} {t : Nat} (hw : s.stages[w]? = some (unitAfterUnit c t))
    (full : s.metrics.poolSize ≤ s.metrics.occupancy) :
    (s.next (.worker w (moreWork t))).stages[w]? = some (unitAfterUnit c (t + 1)) ∧
      (s.next (.worker w (moreWork t))).metrics.poolSize ≤ (s.next (.worker w (moreWork t))).metrics.occupancy := by
  have hgo : ∃ s', s.advance w (moreWork t) (unitAfterUnit c t) = (unitAfterUnit c (t + 1), s') ∧
      s'.stages = s.stages ∧ s'.metrics.poolSize ≤ s'.metrics.occupancy := by
    have hlt : t % 4 < 4 := Nat.mod_lt t (by decide)
    have hsucc : (t + 1) % 4 = (t % 4 + 1) % 4 := by omega
    simp only [unitAfterUnit, moreWork, hsucc]
    generalize t % 4 = i at hlt
    match i, hlt with
    | 0, _ => exact ⟨s, rfl, rfl, full⟩
    | 1, _ => exact ⟨s, rfl, rfl, full⟩
    | 2, _ => exact ⟨s, rfl, rfl, full⟩
    | 3, _ => exact ⟨s.record .inlineRerun, by simp [advance, goOn, full], rfl, full⟩
  obtain ⟨s', hadvance, hstages, hfull⟩ := hgo
  have hnext : s.next (.worker w (moreWork t)) = s'.setStage w (unitAfterUnit c (t + 1)) := by
    simp only [State.next, step, hw, hadvance]
  rw [hnext]
  exact ⟨setStage_self hw hstages _, hfull⟩

/-! ## What each connection has heard at the end -/

section
variable [DecidableEq ι] {past : List (Moment (State ι) (Event ι))} {m : Moment (State ι) (Event ι)} {s : State ι}
  {c : ι} {x : Callback}

theorem mem_heard : x ∈ heard c past ↔ ∃ m ∈ past, (c, x) ∈ callbacks m := by
  simp only [heard, List.mem_filterMap, List.mem_flatMap]
  constructor
  · rintro ⟨⟨d, y⟩, ⟨m, hm, hin⟩, heq⟩
    by_cases hdc : d = c
    · rw [if_pos hdc] at heq
      obtain rfl := Option.some.inj heq
      exact ⟨m, hm, hdc ▸ hin⟩
    · rw [if_neg hdc] at heq
      cases heq
  · rintro ⟨m, hm, hin⟩
    exact ⟨(c, x), ⟨m, hm, hin⟩, if_pos rfl⟩

omit [DecidableEq ι] in
/-- A connection that is put on the queue has taken the news. -/
theorem told_of_enqueued (h : c ∈ enqueued m) : ∃ b, (c, .made (.notify .queued) (.returned b)) ∈ callbacks m := by
  obtain ⟨s, e⟩ := m
  cases e with
  | schedule d reply =>
    simp only [enqueued, accepted_iff] at h
    split at h
    · rename_i haccepted
      obtain ⟨hopen, b, rfl⟩ := haccepted
      obtain rfl := List.mem_singleton.mp h
      exact ⟨b, by simp [callbacks, calls, hopen, Callback.ofCall]⟩
    · cases h
  | worker w reply =>
    simp only [enqueued, accepted_iff] at h
    split at h
    · rename_i d hw
      split at h
      · rename_i haccepted
        obtain ⟨hopen, b, rfl⟩ := haccepted
        obtain rfl := List.mem_singleton.mp h
        exact ⟨b, by simp [callbacks_worker hw, Stage.callbacks, Stage.held, Stage.tells, hopen]⟩
      · cases h
    · cases h
  | _ => cases h

/-- A connection that has heard of a pool and is not in it any more has ended its last stay,
    by one parting callback. -/
theorem Told.ended (h : Told past s c) (hgone : c ∉ s.kept) (hsome : heard c past ≠ []) :
    ∃ before, ∃ recent ∈ stay, heard c past = before ++ recent ∧ recent.countP Callback.isParting = 1 := by
  have hword : heard c past ∈ protocol := by
    cases h with
    | queued place => exact absurd (List.mem_append_left _ place) hgone
    | held place holds => exact absurd (mem_kept_of_held place holds) hgone
    | away _ told => exact .inl told
    | gone _ _ told => exact .inr told
  obtain ⟨before, recent, hrecent, heq⟩ := last_stay hword hsome
  exact ⟨before, recent, hrecent, heq, parting_stay recent hrecent⟩

/-- Of every endless run of a pool of at least one worker in which each connection has one
    owner, and which is closed at time `k`, however. From then on it refuses every connection
    and calls nobody about it. Say that workers go on and units of work end. If some worker
    does not rerun its connection for ever, every connection that was ever put on the queue is
    told later that a worker has it; if none does, all workers exit. When they have, the queue
    is empty and the gauge shows nothing; and each connection that was ever put on the queue
    has ended its last stay in one way: at the detector, or by what `Protocol.goes` lists. -/
theorem closed_pool_drains (size : Nat) (hsize : 0 < size) (events : Nat → Event ι)
    (owned : ∀ t, Owned (pastAt size events t)) (k : Nat) (closed : (atTime size events k).isOpen = false) :
    (∀ t, k ≤ t → Refuses (atTime size events t) (events t)) ∧
    (Fair size events → UnitsEnd size events →
      ((∃ w < size, ∀ t, ¬RerunsForEver size events w t) →
        ∀ i, ∀ c ∈ enqueued ⟨atTime size events i, events i⟩,
          ∃ u, i < u ∧ ∃ reply, (c, .notify .running, reply) ∈ calls ⟨atTime size events u, events u⟩) ∧
      ((∀ w < size, ∀ t, ¬RerunsForEver size events w t) →
        ∃ t, ∀ u, t ≤ u → ∀ stage ∈ (atTime size events u).stages, stage = .exited)) ∧
    ∀ t, (∀ stage ∈ (atTime size events t).stages, stage = .exited) →
      (atTime size events t).queue = [] ∧ (atTime size events t).metrics.occupancy = 0 ∧
      ∀ i < t, ∀ c ∈ enqueued ⟨atTime size events i, events i⟩,
        ∃ before, ∃ recent ∈ stay, heard c (pastAt size events t) = before ++ recent ∧
          recent.countP Callback.isParting = 1 := by
  refine ⟨fun t hkt => refuses (closedAt closed hkt) (events t), fun fair units => ⟨?_, ?_⟩, fun t hall => ?_⟩
  · intro ⟨w, hw, ends⟩ i c hc
    have hqueue : c ∈ (atTime size events (i + 1)).queue := by
      rcases (atTime size events i).queue_next (events i) with hsame | ⟨w, d, -, hnone⟩
      · rw [atTime_succ, hsame]
        exact List.mem_append_right _ hc
      · rw [hnone] at hc
        cases hc
    exact queued_runs fair hw (rests fair units hw ends) hqueue
  · intro ends
    exact workers_exit hsize fair (fun w hw => rests fair units hw (ends w hw)) closed
  · obtain ⟨hqueue, hgauge, hkept⟩ := exited_empty hsize hall
    refine ⟨hqueue, hgauge, fun i hi c hc => ?_⟩
    have htold : Told (pastAt size events t) (atTime size events t) c := by
      rw [pastAt_eq, atTime_eq]
      exact (told (pastAt_eq t ▸ owned t)).2 c
    obtain ⟨b, hb⟩ := told_of_enqueued hc
    have hsome : heard c (pastAt size events t) ≠ [] := List.ne_nil_of_mem (mem_heard.mpr ⟨_, mem_pastAt hi, hb⟩)
    exact htold.ended (by rw [hkept]; exact List.not_mem_nil) hsome

end

/-- The only worker of a pool does unit after unit on connection 0, each of which ends and
    leaves work. It never looks at the queue, where connection 1 has been since before the
    pool was closed. -/
theorem rerun_for_ever_starves :
    let yes : Reply := .returned true
    let script : List (Event Nat) :=
      [.schedule 0 yes, .schedule 1 yes, .worker 0 yes, .worker 0 yes, .callClose, .caller 0]
    let events (t : Nat) : Event Nat := script[t]?.getD (.worker 0 (moreWork (t - 6)))
    (∀ t, Owned (pastAt 1 events t)) ∧ (atTime 1 events 5).isOpen = true ∧ (atTime 1 events 6).isOpen = false ∧
    Fair 1 events ∧ UnitsEnd 1 events ∧ RerunsForEver 1 events 0 6 ∧
    1 ∈ enqueued ⟨atTime 1 events 1, events 1⟩ ∧
    (∀ t, 6 ≤ t → 1 ∈ (atTime 1 events t).queue) ∧
    ∀ t reply, (1, .notify .running, reply) ∉ calls ⟨atTime 1 events t, events t⟩ := by
  intro yes script events
  have hlater (t : Nat) : events (t + 6) = .worker 0 (moreWork t) := by
    have hnone : script[t + 6]? = none := List.getElem?_eq_none (Nat.le_add_left ..)
    simp only [events, hnone, Option.getD_none, Nat.add_sub_cancel]
  have owned : ∀ t, Owned (pastAt 1 events t) := by
    apply ownedAt (n := 6) (by decide)
    intro t ht
    obtain ⟨d, rfl⟩ := Nat.exists_eq_add_of_le' ht
    rw [hlater d]
    rfl
  have hphase (t : Nat) : (atTime 1 events (t + 6)).stages[0]? = some (unitAfterUnit 0 t) ∧
      (atTime 1 events (t + 6)).metrics.poolSize ≤ (atTime 1 events (t + 6)).metrics.occupancy := by
    induction t with
    | zero => decide
    | succ t ih =>
      have hstep : atTime 1 events (t + 1 + 6) = (atTime 1 events (t + 6)).next (.worker 0 (moreWork t)) := by
        rw [← hlater t]
        rfl
      rw [hstep]
      exact unitAfterUnit_next ih.1 ih.2
  have hstage {t : Nat} (ht : 6 ≤ t) : (atTime 1 events t).stages[0]? = some (unitAfterUnit 0 (t - 6)) := by
    obtain ⟨d, rfl⟩ := Nat.exists_eq_add_of_le' ht
    exact (hphase d).1
  have fair : Fair 1 events := by
    intro w hw t
    obtain rfl : w = 0 := by omega
    exact ⟨t + 6, by omega, _, hlater t⟩
  have units : UnitsEnd 1 events := by
    intro w hw t
    obtain rfl : w = 0 := by omega
    -- at the start of a unit, four turns apart
    refine ⟨4 * t + 6, by omega, fun stage hs => ?_⟩
    have hstarting : unitAfterUnit 0 (4 * t) = .starting 0 := unitAfterUnit_period 0 t 0
    rw [(hphase (4 * t)).1, hstarting] at hs
    rw [← Option.some.inj hs]
    rfl
  have busy : RerunsForEver 1 events 0 6 := by
    refine ⟨fun u hu stage hs => ?_, fun u hu => ?_⟩
    · rw [hstage hu] at hs
      rw [← Option.some.inj hs]
      exact atWork_unitAfterUnit 0 _
    · have hdeciding : unitAfterUnit 0 (4 * u + 3) = .deciding 0 := unitAfterUnit_period 0 u 3
      have hstarting : unitAfterUnit 0 (4 * u + 4) = .starting 0 := unitAfterUnit_period 0 u 4
      exact ⟨4 * u + 3 + 6, by omega, 0, hdeciding ▸ (hphase _).1, hstarting ▸ (hphase (4 * u + 4)).1⟩
  refine ⟨owned, by decide, by decide, fair, units, busy, by decide, ?_, ?_⟩
  · intro t ht
    refine starved (t := 6) (fun w hw => ?_) (by decide) ht
    obtain rfl : w = 0 := by omega
    exact busy
  · intro t reply hcall
    by_cases ht : 6 ≤ t
    · obtain ⟨d, rfl⟩ := Nat.exists_eq_add_of_le' ht
      rw [hlater d] at hcall
      have hwork := atWork_unitAfterUnit 0 d
      simp only [calls, nextCall, (hphase d).1] at hcall
      generalize unitAfterUnit 0 d = stage at hcall hwork
      cases stage with
      | arriving c => cases hwork
      | _ => simp at hcall
    · have hearly : ∀ t < 6, ∀ m ∈ calls ⟨atTime 1 events t, events t⟩, m.2.1 = .notify .running → m.1 = 0 := by decide
      cases hearly t (by omega) _ hcall rfl

/-- A pool of two workers is closed while connection 0 is in a unit of work and connection 1
    is queued. Connection 2 comes too late. The first unit leaves work, but the queue
    refuses connection 0, which faults while it is closed; connection 1 is idle, and lost to
    a fault of the detector. From number 25 on the two workers, which have exited, take turns
    at doing nothing. -/
theorem refused_and_lost :
    let yes : Reply := .returned true
    let no : Reply := .returned false
    let bad : Reply := .raised .untold
    let script : List (Event Nat) := List.flatten
      [[.schedule 0 yes, .schedule 1 yes, .worker 0 yes, .worker 0 yes, .worker 0 yes, .callClose, .caller 0,
          .schedule 2 yes], [no, yes, yes, yes].map (.worker 0),
        [yes, yes, yes, no, no, no, yes, bad].map (.worker 1), [bad, yes].map (.worker 0),
        [.worker 1 yes, .worker 0 yes, .worker 1 yes]]
    let events (t : Nat) : Event Nat := script[t]?.getD (.worker (t % 2) yes)
    (∀ t, Owned (pastAt 2 events t)) ∧ (atTime 2 events 7).isOpen = false ∧ Fair 2 events ∧ UnitsEnd 2 events ∧
    (∀ w < 2, ∀ t, ¬RerunsForEver 2 events w t) ∧
    Refuses (atTime 2 events 7) (.schedule 2 yes) ∧
    (∃ u, 1 < u ∧ ∃ reply, (1, .notify .running, reply) ∈ calls ⟨atTime 2 events u, events u⟩) ∧
    (atTime 2 events 25).queue = [] ∧
    heard 0 (pastAt 2 events 25) =
      [.made (.notify .queued) yes, .made (.notify .running) yes, .workBegins, .workEnds no, .made .changed yes,
        .made .close bad] ∧
    heard 2 (pastAt 2 events 25) = [] := by
  intro yes no bad script events
  have hlater (t : Nat) (ht : 25 ≤ t) : events t = .worker (t % 2) yes := by
    have hnone : script[t]? = none := List.getElem?_eq_none ht
    simp only [events, hnone, Option.getD_none]
  have owned : ∀ t, Owned (pastAt 2 events t) := by
    apply ownedAt (n := 25) (by decide)
    intro t ht
    rw [hlater t ht]
    rfl
  have closed : (atTime 2 events 7).isOpen = false := by decide
  have hexited : ∀ w < 2, (atTime 2 events 25).stages[w]? = some .exited := by decide
  have fair : Fair 2 events := by
    intro w hw t
    refine ⟨2 * (t + 25) + w, by omega, yes, ?_⟩
    rw [hlater _ (by omega), show (2 * (t + 25) + w) % 2 = w by omega]
  have hstays (w : Nat) (hw : w < 2) (t : Nat) : (atTime 2 events (t + 25)).stages[w]? = some .exited :=
    exited_stays (hexited w hw) (by omega)
  have units : UnitsEnd 2 events := by
    intro w hw t
    refine ⟨t + 25, by omega, fun stage hstage => ?_⟩
    rw [← Option.some.inj ((hstays w hw t).symm.trans hstage)]
    rfl
  have ends : ∀ w < 2, ∀ t, ¬RerunsForEver 2 events w t := by
    intro w hw t hforever
    cases hforever.busy (t + 25) (by omega) .exited (hstays w hw t)
  obtain ⟨hrefuses, hruns, hend⟩ := closed_pool_drains 2 (by decide) events owned 7 closed
  have hlost := hend 25 (by decide)
  refine ⟨owned, closed, fair, units, ends, ?_, ?_, hlost.1, by decide, by decide⟩
  · exact hrefuses 7 (Nat.le_refl 7)
  · exact (hruns fair units).1 ⟨0, by decide, ends 0 (by decide)⟩ 1 1 (by decide)

end State

end MessageBroker.Pool
