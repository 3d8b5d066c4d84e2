/-
  MessageBroker.Proofs.Pool.Joining — who waits for whom while a pool is being closed.

  Whoever is first inside `close` to look joins the workers, itself excepted. Who looks later
  does not join: a thread from outside awaits the end of the joining, a worker returns at once.
  So there are three kinds of parties, and each waits for the next kind only: those that await,
  the one that joins, and workers that exit by themselves.
  - `Shutting`, `Looking`, `Waiting`: the invariants, of the queue, of who joins, and of what is
    waited for; each is kept by every shift.
  - `rank_lt`: the order of the three kinds, so nobody waits in a circle.
  - `goes_on`: while anything is unfinished somebody's next step leads on.
  - `close_completes`: the above, of every run.
-/

import Mathlib.Logic.Relation
import MessageBroker.Proofs.Pool.Closers
import MessageBroker.Proofs.Pool.Draining

namespace MessageBroker.Pool

open History

variable {ι : Type}

def Closing.isJoining : Closing → Bool
  | .joining _ => true
  | _ => false

namespace State

def lookers (m : Moment (State ι) (Event ι)) : List Party :=
  m.event.party?.toList.filter fun p => m.before.pointOf p == some .shut

def takers (m : Moment (State ι) (Event ι)) : List Party :=
  m.event.party?.toList.filter fun p =>
    !(m.before.pointOf p).any Closing.isJoining && ((m.before.next m.event).pointOf p).any Closing.isJoining

/-- `a` does not return before `b` has done its part: a joiner waits for each worker that it has
    not seen exited, and who awaits the end of the joining waits for the joiner. -/
inductive WaitsFor (s : State ι) : Party → Party → Prop
  | worker {a : Party} {left : List Nat} {v : Nat} (joins : s.pointOf a = some (.joining left)) (unseen : v ∈ left) :
      WaitsFor s a (.worker v)
  | joiner {a b : Party} {left : List Nat} (awaits : s.pointOf a = some .awaiting)
      (joins : s.pointOf b = some (.joining left)) : WaitsFor s a b

def Unfinished (s : State ι) : Prop := (∃ stage ∈ s.stages, stage ≠ .exited) ∨ ∃ point ∈ s.callers, point ≠ .finished

def GoesOn (s : State ι) : Prop :=
  (∃ w : Nat, ∀ reply, (s.next (.worker w reply)).stages[w]? ≠ s.stages[w]?) ∨
    ∃ i : Nat, (s.next (.caller i)).callers[i]? ≠ s.callers[i]?

/-! ## What is left in mind of a call -/

theorem of_update {f : Party → Option Closing} {p q : Party} {x : Option Closing} {point : Closing}
    (h : Function.update f p x q = some point) : (q = p ∧ x = some point) ∨ (q ≠ p ∧ f q = some point) := by
  by_cases hqp : q = p
  · rw [hqp, Function.update_self] at h
    exact .inl ⟨hqp, h⟩
  · rw [Function.update_of_ne hqp] at h
    exact .inr ⟨hqp, h⟩

theorem eq_of_keeps {p : Party} {next point : Closing} (h : p.keeps next = some point) : point = next := by
  unfold Party.keeps at h
  split at h
  · cases h
  · exact (Option.some.inj h).symm

theorem keeps_joining (p : Party) (left : List Nat) : p.keeps (.joining left) = some (.joining left) := by
  cases p <;> rfl

section
variable {s s' : State ι} {e : Event ι} {past : List (Moment (State ι) (Event ι))}

theorem gone_next {v : Nat} (h : s.Gone v) (e : Event ι) : (s.next e).Gone v := by
  intro stage hstage
  cases hv : s.stages[v]? with
  | none =>
    have hlength : (s.next e).stages.length = s.stages.length := by
      have hchange := s.next_change e
      generalize s.next e = s' at hchange
      cases hchange with
      | worker _ move | misread _ move => simp [setStage, move.stages_eq]
      | beginStop => simp [setStage]
      | caller => rw [(s.stepCaller_frame _).1]
      | _ => rfl
    have hlt := (List.getElem?_eq_some_iff.mp hstage).1
    rw [hlength] at hlt
    exact absurd (List.getElem?_eq_none_iff.mp hv) (by omega)
  | some before =>
    obtain rfl := h before hv
    rw [exited_next_stays hv e] at hstage
    exact (Option.some.inj hstage).symm

/-! ## The queue -/

/-- While the queue is open, whoever has called `close` is about to shut it. -/
structure Shutting (past : List (Moment (State ι) (Event ι))) (s : State ι) : Prop where
  opened : s.isOpen = true → ∀ p point, s.pointOf p = some point → point = .entered
  called : (∃ m ∈ past, callsClose m = true) → s.isOpen = false ∨ ∃ p, s.pointOf p = some .entered
  uncalled : (∀ m ∈ past, callsClose m = false) → s.isOpen = true ∧ ∀ p, s.pointOf p = none

theorem shutting_ofSize (size : Nat) : Shutting [] (ofSize size : State ι) where
  opened _ p point h := by rw [pointOf_ofSize] at h; cases h
  called := by rintro ⟨m, hm, -⟩; cases hm
  uncalled _ := ⟨rfl, pointOf_ofSize size⟩

theorem Shutting.next (h : Shutting past s) (hs : Shift s e s') : Shutting (past ++ [⟨s, e⟩]) s' := by
  cases hs with
  | aside uncalled _ points frame =>
    refine ⟨?_, ?_, ?_⟩
    · rw [points, frame.1]
      exact h.opened
    · rintro ⟨m, hm, hcalls⟩
      rw [points, frame.1]
      rcases List.mem_append.mp hm with hm | hm
      · exact h.called ⟨m, hm, hcalls⟩
      · rw [List.mem_singleton.mp hm, uncalled] at hcalls
        cases hcalls
    · intro hnone
      rw [points, frame.1]
      exact h.uncalled fun m hm => hnone m (List.mem_append_left _ hm)
  | @enters p called _ _ points frame =>
    refine ⟨?_, ?_, ?_⟩
    · intro hopen q point hq
      rw [points] at hq
      rcases of_update hq with ⟨-, hnew⟩ | ⟨-, hold⟩
      · exact (Option.some.inj hnew).symm
      · exact h.opened (frame.1 ▸ hopen) q point hold
    · intro _
      exact .inr ⟨p, by rw [points, Function.update_self]⟩
    · intro hnone
      rw [hnone ⟨s, e⟩ (by simp)] at called
      cases called
  | @moves p point next t _ _ place further points frame =>
    -- who moves has called; if the queue was open it is shut now
    have hclosed : s'.isOpen = false := by
      rw [frame.1]
      cases hopen : s.isOpen with
      | true =>
        obtain rfl := h.opened hopen p point place
        cases further with
        | shut => rfl
        | wait blocked => cases blocked
      | false => cases further <;> first | rfl | exact hopen
    refine ⟨?_, fun _ => .inl hclosed, ?_⟩
    · intro hopen
      rw [hclosed] at hopen
      cases hopen
    · intro hnone
      have hold := (h.uncalled fun m hm => hnone m (List.mem_append_left _ hm)).2 p
      rw [hold] at place
      cases place

/-! ## Who joins -/

theorem movers_of_apart (hapart : ∀ p, e.party? = some p → s.pointOf p = none)
    (hpoints : (s.next e).pointOf = s.pointOf) :
    lookers (⟨s, e⟩ : Moment (State ι) (Event ι)) = [] ∧ takers (⟨s, e⟩ : Moment (State ι) (Event ι)) = [] := by
  cases hparty : e.party? with
  | none => simp [lookers, takers, hparty]
  | some p => simp [lookers, takers, hparty, hpoints, hapart p hparty]

theorem movers_of_still (hstill : e.party? = none) :
    lookers (⟨s, e⟩ : Moment (State ι) (Event ι)) = [] ∧ takers (⟨s, e⟩ : Moment (State ι) (Event ι)) = [] := by
  simp [lookers, takers, hstill]

theorem lookers_of_moves {p : Party} {point : Closing} (hwho : e.party? = some p) (hplace : s.pointOf p = some point) :
    lookers (⟨s, e⟩ : Moment (State ι) (Event ι)) = if point = .shut then [p] else [] := by
  by_cases hshut : point = .shut <;> simp [lookers, hwho, hplace, hshut]

theorem takers_of_moves {p : Party} {point next : Closing} (hwho : e.party? = some p)
    (hplace : s.pointOf p = some point) (hpoints : (s.next e).pointOf = Function.update s.pointOf p (p.keeps next)) :
    takers (⟨s, e⟩ : Moment (State ι) (Event ι)) = if point.isJoining = false ∧ next.isJoining = true then [p] else [] := by
  have hnext : (p.keeps next).any Closing.isJoining = next.isJoining := by
    cases p <;> cases next <;> rfl
  cases hold : point.isJoining <;> cases hnew : next.isJoining <;>
    simp [takers, hwho, hplace, hpoints, hnext, hold, hnew]

theorem joins_of_update {p : Party} {new : Option Closing} (hpoints : s'.pointOf = Function.update s.pointOf p new)
    (hnew : ∀ left, new = some (.joining left) → ∃ left', s.pointOf p = some (.joining left')) :
    ∀ q left, s'.pointOf q = some (.joining left) → ∃ left', s.pointOf q = some (.joining left') := by
  intro q left hq
  rw [hpoints] at hq
  rcases of_update hq with ⟨rfl, h⟩ | ⟨-, hold⟩
  · exact hnew left h
  · exact ⟨left, hold⟩

structure Looking (past : List (Moment (State ι) (Event ι))) (s : State ι) : Prop where
  first : past.flatMap takers = (past.flatMap lookers).take 1
  looked : s.joining = true ↔ past.flatMap lookers ≠ []
  early : s.joining = false → s.joined = false ∧ ∀ p point, s.pointOf p = some point → point = .entered ∨ point = .shut
  joiner : ∀ p left, s.pointOf p = some (.joining left) → past.flatMap takers = [p]

theorem looking_ofSize (size : Nat) : Looking [] (ofSize size : State ι) where
  first := rfl
  looked := by simp [ofSize]
  early _ := ⟨rfl, fun p point h => by rw [pointOf_ofSize] at h; cases h⟩
  joiner p left h := by rw [pointOf_ofSize] at h; cases h

theorem Looking.frame {m : Moment (State ι) (Event ι)} (h : Looking past s) (hlookers : lookers m = [])
    (htakers : takers m = []) (hjoining : s'.joining = s.joining)
    (hearly : s.joining = false → s'.joined = false ∧
      ∀ p point, s'.pointOf p = some point → point = .entered ∨ point = .shut)
    (hjoiner : ∀ p left, s'.pointOf p = some (.joining left) → ∃ left', s.pointOf p = some (.joining left')) :
    Looking (past ++ [m]) s' := by
  have hlooked : (past ++ [m]).flatMap lookers = past.flatMap lookers := by simp [hlookers]
  have htaken : (past ++ [m]).flatMap takers = past.flatMap takers := by simp [htakers]
  refine ⟨?_, ?_, ?_, ?_⟩
  · rw [hlooked, htaken, h.first]
  · rw [hlooked, hjoining, h.looked]
  · rw [hjoining]
    exact hearly
  · intro p left hp
    obtain ⟨left', hp'⟩ := hjoiner p left hp
    rw [htaken, h.joiner p left' hp']

theorem Looking.lateLook {m : Moment (State ι) (Event ι)} {p : Party} {next : Closing} (h : Looking past s)
    (hlookers : lookers m = [p]) (htakers : takers m = []) (htaken : s.joining = true)
    (hjoining : s'.joining = s.joining) (hpoints : s'.pointOf = Function.update s.pointOf p (p.keeps next))
    (hnext : next.isJoining = false) : Looking (past ++ [m]) s' := by
  have hsame : (past ++ [m]).flatMap takers = past.flatMap takers := by simp [htakers]
  have hsome := h.looked.mp htaken
  refine ⟨?_, ?_, ?_, ?_⟩
  · rw [hsame, h.first, flatMap_snoc, hlookers]
    cases hl : past.flatMap lookers with
    | nil => exact absurd hl hsome
    | cons q rest => rfl
  · rw [hjoining, htaken, flatMap_snoc, hlookers]
    simp
  · intro hfree
    rw [hjoining, htaken] at hfree
    cases hfree
  · intro q left hq
    rw [hpoints] at hq
    rcases of_update hq with ⟨-, hnew⟩ | ⟨-, hold⟩
    · rw [← eq_of_keeps hnew] at hnext
      cases hnext
    · rw [hsame, h.joiner q left hold]

theorem Looking.next (h : Looking past s) (hs : Shift s e (s.next e)) : Looking (past ++ [⟨s, e⟩]) (s.next e) := by
  cases hs with
  | aside _ apart points frame =>
    obtain ⟨hlookers, htakers⟩ := movers_of_apart apart points
    refine h.frame hlookers htakers frame.2.1 ?_ ?_
    · rw [points, frame.2.2]
      exact h.early
    · rw [points]
      exact fun p left hp => ⟨left, hp⟩
  | @enters p _ still _ points frame =>
    obtain ⟨hlookers, htakers⟩ := movers_of_still (s := s) still
    refine h.frame hlookers htakers frame.2.1 ?_ (joins_of_update points nofun)
    intro hfree
    refine ⟨frame.2.2.trans (h.early hfree).1, fun q point hq => ?_⟩
    rw [points] at hq
    rcases of_update hq with ⟨-, hnew⟩ | ⟨-, hold⟩
    · exact .inl (Option.some.inj hnew).symm
    · exact (h.early hfree).2 q point hold
  | @moves p point next t _ who place further points frame =>
    have hlookers := lookers_of_moves (s := s) who place
    have htakers := takers_of_moves who place points
    -- before anybody has looked, nobody can be past it
    have hpast (hfree : s.joining = false) (hentered : point ≠ .entered) : point = .shut :=
      ((h.early hfree).2 p point place).resolve_left hentered
    cases further with
    | shut =>
      refine h.frame hlookers htakers frame.2.1 ?_ (joins_of_update points ?_)
      · intro hfree
        refine ⟨frame.2.2.trans (h.early hfree).1, fun q point hq => ?_⟩
        rw [points] at hq
        rcases of_update hq with ⟨-, hnew⟩ | ⟨-, hold⟩
        · exact .inr (eq_of_keeps hnew)
        · exact (h.early hfree).2 q point hold
      · intro left hnew
        cases eq_of_keeps hnew
    | late _ taken | await _ taken => exact h.lateLook hlookers htakers taken frame.2.1 points rfl
    | take free =>
      have hnobody : past.flatMap lookers = [] := by
        by_contra hsome
        rw [h.looked.mpr hsome] at free
        cases free
      have htaken : (past ++ [(⟨s, e⟩ : Moment (State ι) (Event ι))]).flatMap takers = [p] := by
        rw [flatMap_snoc, htakers, h.first, hnobody]
        rfl
      refine ⟨?_, ?_, ?_, ?_⟩
      · rw [htaken, flatMap_snoc, hlookers, hnobody]
        rfl
      · rw [frame.2.1, flatMap_snoc, hlookers]
        simp
      · intro hfree
        rw [frame.2.1] at hfree
        cases hfree
      · intro q left hq
        rw [points] at hq
        rcases of_update hq with ⟨rfl, -⟩ | ⟨-, hold⟩
        · exact htaken
        · rcases (h.early free).2 q _ hold with hpoint | hpoint <;> cases hpoint
    | @seen v rest gone =>
      refine h.frame hlookers htakers frame.2.1 ?_ (joins_of_update points fun _ _ => ⟨_, place⟩)
      intro hfree
      cases hpast hfree nofun
    | join | release =>
      refine h.frame hlookers htakers frame.2.1 ?_ (joins_of_update points ?_)
      · intro hfree
        cases hpast hfree nofun
      · intro left hnew
        cases eq_of_keeps hnew
    | wait blocked =>
      have hnotshut : point ≠ .shut := by
        rintro rfl
        cases blocked
      have hnotentered : point ≠ .entered := by
        rintro rfl
        cases blocked
      rw [if_neg hnotshut] at hlookers
      refine h.frame hlookers (by simpa using htakers) frame.2.1 ?_ (joins_of_update points ?_)
      · intro hfree
        exact absurd (hpast hfree hnotentered) hnotshut
      · intro left hnew
        exact ⟨left, by rw [place, ← eq_of_keeps hnew]⟩

theorem Looking.taken {p : Party} {left : List Nat} (h : Looking past s) (hp : s.pointOf p = some (.joining left)) :
    s.joining = true := by
  cases hfree : s.joining with
  | true => rfl
  | false => rcases (h.early hfree).2 p _ hp with hpoint | hpoint <;> cases hpoint

theorem Looking.settled {m : Moment (State ι) (Event ι)} (h : Looking past s) (h' : Looking (past ++ [m]) s')
    (htaken : s.joining = true) : (past ++ [m]).flatMap takers = past.flatMap takers := by
  rw [h'.first, h.first, List.flatMap_append]
  cases hlooked : past.flatMap lookers with
  | nil => exact absurd hlooked (h.looked.mp htaken)
  | cons p rest => rfl

/-! ## What is waited for -/

def Placed (s : State ι) (p : Party) : Closing → Prop
  | .joining left => s.joined = false ∧ ∀ v, (v ∈ left → p ≠ .worker v) ∧ (v ∉ left → p ≠ .worker v → s.Gone v)
  | .awaiting => p.self? = none
  | .finished => p.self? = none ∧ s.joined = true
  | .entered | .shut => True

theorem Placed.keep {p : Party} {point : Closing} (h : Placed s p point) (hgone : ∀ v, s.Gone v → s'.Gone v)
    (hjoined : s'.joined = s.joined ∨ (s'.joined = true ∧ point.isJoining = false)) : Placed s' p point := by
  cases point with
  | entered | shut => trivial
  | awaiting => exact h
  | finished => exact ⟨h.1, hjoined.elim (fun hsame => hsame.trans h.2) And.left⟩
  | joining left =>
    rcases hjoined with hsame | ⟨-, hnot⟩
    · refine ⟨hsame.trans h.1, fun v => ⟨(h.2 v).1, ?_⟩⟩
      intro hv hother
      exact hgone v ((h.2 v).2 hv hother)
    · cases hnot

theorem Placed.further {t : State ι} {p : Party} {point next : Closing} (h : Placed s p point)
    (hf : Further s p.self? point next t) (hkeeps : p.keeps next = some next) (hgone : ∀ v, s.Gone v → s'.Gone v)
    (hjoined : s'.joined = t.joined) (hearly : s.joining = false → s.joined = false) : Placed s' p next := by
  have houtside (hfinished : next = .finished) : p.self? = none := by
    subst hfinished
    cases p with
    | worker w => cases hkeeps
    | outside i => rfl
  cases hf with
  | shut => trivial
  | late worker =>
    rw [houtside rfl] at worker
    cases worker
  | await outside => exact outside
  | take free =>
    refine ⟨hjoined.trans (hearly free), fun v => ⟨?_, ?_⟩⟩
    · rintro hv rfl
      simp [Party.self?] at hv
    · intro hv hother
      apply hgone
      intro stage hstage
      have hlt := (List.getElem?_eq_some_iff.mp hstage).1
      have hself : p.self? = some v := by simpa [size, hlt] using hv
      cases p with
      | worker w => exact absurd (congrArg Party.worker (Option.some.inj hself)) hother
      | outside i => cases hself
  | @seen u rest gone =>
    refine ⟨hjoined.trans h.1, fun v => ⟨fun hv => (h.2 v).1 (List.mem_cons_of_mem u hv), ?_⟩⟩
    intro hv hother
    apply hgone
    by_cases hvu : v = u
    · exact hvu ▸ gone
    · exact (h.2 v).2 (fun hin => (List.mem_cons.mp hin).elim hvu hv) hother
  | join => exact ⟨houtside rfl, hjoined⟩
  | release joined => exact ⟨h, hjoined.trans joined⟩
  | wait => exact h.keep hgone (.inl hjoined)

/-- Who waits has not been forgotten: while the workers are not joined somebody joins them,
    and when they are, all have exited but the joiner. -/
structure Waiting (past : List (Moment (State ι) (Event ι))) (s : State ι) : Prop where
  placed : ∀ p point, s.pointOf p = some point → Placed s p point
  pending : s.joining = true → s.joined = false → ∃ p left, s.pointOf p = some (.joining left)
  joined : s.joined = true → ∀ v, s.Gone v ∨ past.flatMap takers = [.worker v]

theorem waiting_ofSize (size : Nat) : Waiting [] (ofSize size : State ι) where
  placed p point h := by rw [pointOf_ofSize] at h; cases h
  pending h := by cases h
  joined h := by cases h

theorem Waiting.next (h : Waiting past s) (hl : Looking past s) (hs : Shift s e (s.next e)) :
    Waiting (past ++ [⟨s, e⟩]) (s.next e) := by
  have hgone (v : Nat) (hv : s.Gone v) : (s.next e).Gone v := gone_next hv e
  have hearly (hfree : s.joining = false) : s.joined = false := (hl.early hfree).1
  have hl' := hl.next hs
  have hstays (hjoined : s.joined = true) (v : Nat) :
      (s.next e).Gone v ∨ (past ++ [(⟨s, e⟩ : Moment (State ι) (Event ι))]).flatMap takers = [.worker v] := by
    have htaken : s.joining = true := by
      cases hfree : s.joining with
      | true => rfl
      | false => rw [hearly hfree] at hjoined; cases hjoined
    rw [hl.settled hl' htaken]
    exact (h.joined hjoined v).imp_left (hgone v)
  cases hs with
  | aside _ _ points frame =>
    refine ⟨?_, ?_, ?_⟩
    · intro p point hp
      rw [points] at hp
      exact (h.placed p point hp).keep hgone (.inl frame.2.2)
    · rw [points, frame.2.1, frame.2.2]
      exact h.pending
    · rw [frame.2.2]
      exact hstays
  | @enters p _ _ new points frame =>
    refine ⟨?_, ?_, ?_⟩
    · intro q point hq
      rw [points] at hq
      rcases of_update hq with ⟨-, hnew⟩ | ⟨-, hold⟩
      · obtain rfl := Option.some.inj hnew
        trivial
      · exact (h.placed q point hold).keep hgone (.inl frame.2.2)
    · rw [frame.2.1, frame.2.2]
      intro htaken hunjoined
      obtain ⟨q, left, hq⟩ := h.pending htaken hunjoined
      refine ⟨q, left, ?_⟩
      rw [points, Function.update_of_ne (by rintro rfl; rw [new] at hq; cases hq), hq]
    · rw [frame.2.2]
      exact hstays
  | @moves p point next t _ who place further points frame =>
    refine ⟨?_, ?_, ?_⟩
    · intro q point' hq
      rw [points] at hq
      rcases of_update hq with ⟨rfl, hnew⟩ | ⟨hother, hold⟩
      · obtain rfl := eq_of_keeps hnew
        exact (h.placed q point place).further further hnew hgone frame.2.2 hearly
      · refine (h.placed q point' hold).keep hgone ?_
        rw [frame.2.2]
        cases further with
        | join =>
          -- nobody else is joining
          refine .inr ⟨rfl, ?_⟩
          cases point' with
          | joining left =>
            have hsame := (hl.joiner q left hold).symm.trans (hl.joiner p [] place)
            exact absurd (List.singleton_inj.mp hsame) hother
          | _ => rfl
        | _ => exact .inl rfl
    · rw [frame.2.1, frame.2.2, points]
      intro htaken hunjoined
      -- the joiner is the one that moves, or it stays where it is
      have hstill (htaken : s.joining = true) (hunjoined : s.joined = false)
          (hnext : point.isJoining = true → next.isJoining = true) :
          ∃ q left, Function.update s.pointOf p (p.keeps next) q = some (.joining left) := by
        obtain ⟨q, left, hq⟩ := h.pending htaken hunjoined
        by_cases hqp : q = p
        · subst hqp
          obtain rfl := Option.some.inj (place.symm.trans hq)
          cases next with
          | joining left' => exact ⟨q, left', by rw [Function.update_self, keeps_joining]⟩
          | _ => cases hnext rfl
        · exact ⟨q, left, by rw [Function.update_of_ne hqp, hq]⟩
      cases further with
      | take => exact ⟨p, _, by rw [Function.update_self, keeps_joining]⟩
      | join => cases hunjoined
      | seen => exact hstill htaken hunjoined fun _ => rfl
      | wait => exact hstill htaken hunjoined id
      | _ => exact hstill htaken hunjoined nofun
    · rw [frame.2.2]
      cases further with
      | join =>
        -- the joiner has seen all others exit
        intro _ v
        by_cases hself : p = .worker v
        · rw [hl.settled hl' (hl.taken place), hl.joiner p [] place, hself]
          exact .inr rfl
        · exact .inl (hgone v (((h.placed p _ place).2 v).2 List.not_mem_nil hself))
      | _ => exact hstays

structure Kept (past : List (Moment (State ι) (Event ι))) (s : State ι) : Prop where
  shutting : Shutting past s
  looking : Looking past s
  waiting : Waiting past s
  drained : Drained s

theorem kept_along (size : Nat) (events : List (Event ι)) :
    Kept (moments State.next (ofSize size) events) (final State.next (ofSize size) events) := by
  refine along Kept ?_ ?_ events
  · refine ⟨shutting_ofSize size, looking_ofSize size, waiting_ofSize size, ?_⟩
    intro hin
    cases List.eq_of_mem_replicate hin
  · intro past t e h
    have hshift := next_shift t e
    exact ⟨h.shutting.next hshift, h.looking.next hshift, h.waiting.next h.looking hshift, h.drained.next e⟩

/-! ## Nobody waits in a circle -/

/-- Who has a higher rank may wait for who has a lower one. -/
def rank (s : State ι) (p : Party) : Nat :=
  match s.pointOf p with
  | some .awaiting => 2
  | some (.joining _) => 1
  | _ => 0

section
variable (h : Kept past s) {a b p : Party} {w : Nat} {stage : Stage ι} {point : Closing} {left : List Nat}
include h

theorem rank_worker (w : Nat) : s.rank (.worker w) ≤ 1 := by
  unfold rank
  split
  · rename_i hawaits
    have hplaced := h.waiting.placed (.worker w) _ hawaits
    cases hplaced
  · exact Nat.le_refl 1
  · exact Nat.zero_le 1

theorem rank_unseen (hjoins : s.pointOf a = some (.joining left)) {v : Nat} (hunseen : v ∈ left) :
    s.rank (.worker v) = 0 := by
  unfold rank
  split
  · rename_i hawaits
    have hplaced := h.waiting.placed (.worker v) _ hawaits
    cases hplaced
  · rename_i left' hjoins'
    -- only one joins, and it does not wait for itself
    have hsame := (h.looking.joiner a left hjoins).symm.trans (h.looking.joiner _ left' hjoins')
    have hplaced := h.waiting.placed a _ hjoins
    exact absurd (List.singleton_inj.mp hsame) ((hplaced.2 v).1 hunseen)
  · rfl

theorem rank_lt (hwaits : WaitsFor s a b) : s.rank b < s.rank a := by
  cases hwaits with
  | worker joins unseen =>
    rw [rank_unseen h joins unseen]
    simp only [rank, joins, Nat.zero_lt_one]
  | joiner awaits joins => simp only [rank, awaits, joins, Nat.lt_add_one]

theorem rank_transGen (hwaits : Relation.TransGen s.WaitsFor a b) : s.rank b < s.rank a := by
  induction hwaits with
  | single hwaits => exact rank_lt h hwaits
  | tail _ hwaits ih => exact Nat.lt_trans (rank_lt h hwaits) ih

/-- A worker waits for other workers only, and for none that waits itself. -/
theorem worker_waits (hwaits : WaitsFor s (.worker w) b) : b ≠ .worker w ∧ b.self? ≠ none ∧ ∀ c, ¬WaitsFor s b c := by
  have hless := rank_lt h hwaits
  have hatMost := rank_worker h w
  refine ⟨?_, ?_, ?_⟩
  · rintro rfl
    exact Nat.lt_irrefl _ hless
  · cases hwaits with
    | worker => exact Option.some_ne_none _
    | joiner awaits =>
      have hplaced := h.waiting.placed _ _ awaits
      cases hplaced
  · intro c hfurther
    have hless' := rank_lt h hfurther
    omega

/-! ## Somebody can go on -/

omit h in
theorem worker_leads (hw : s.stages[w]? = some stage) (hcan : s.canStep w = true) : s.GoesOn := by
  refine .inl ⟨w, fun reply => ?_⟩
  obtain ⟨after, s', hm, hafter⟩ := stage_moves hw reply
  rw [hafter, hw]
  intro hsame
  obtain rfl := Option.some.inj hsame
  cases hm with
  | wait drained isOpen => simp [canStep, hw, drained, isOpen] at hcan
  | gone => simp [canStep, hw] at hcan
  | @stopFurther _ _ point _ _ further unfinished =>
    have hfurther := s.stepClosing_further (some w) point
    rw [further] at hfurther
    cases hpoint : point == .finished with
    | true => exact unfinished (eq_of_beq hpoint)
    | false =>
      simp only [canStep, hw, hpoint, Bool.false_or] at hcan
      exact hfurther.leads hcan rfl

omit h in
theorem caller_leads {i : Nat} (hi : s.callers[i]? = some point) (hcan : s.canStepClosing point = true) :
    s.GoesOn := by
  refine .inr ⟨i, ?_⟩
  have hfurther := s.stepClosing_further none point
  simp only [State.next, stepCaller, hi]
  rw [hfurther.callers_eq, List.getElem?_set_self (List.getElem?_eq_some_iff.mp hi).1]
  intro hsame
  exact hfurther.leads hcan (Option.some.inj hsame)

omit h in
theorem party_leads (hp : s.pointOf p = some point) (hcan : s.canStepClosing point = true) : s.GoesOn := by
  cases p with
  | outside i => exact caller_leads hp hcan
  | worker w =>
    obtain ⟨stage, hw, hpoint⟩ := Option.bind_eq_some_iff.mp hp
    apply worker_leads hw
    cases stage with
    | stopping c at' =>
      obtain rfl := Option.some.inj hpoint
      simp only [canStep, hw, hcan, Bool.or_true]
    | _ => cases hpoint

omit h in
/-- A worker that waits for nobody goes on, once the queue is shut. -/
theorem unranked_leads (hclosed : s.isOpen = false) (hw : s.stages[w]? = some stage) (hstage : stage ≠ .exited)
    (hrank : s.rank (.worker w) = 0) : s.GoesOn := by
  apply worker_leads hw
  have hpoint := pointOf_worker hw
  cases stage with
  | exited => exact absurd rfl hstage
  | waiting => simp only [canStep, hw, hclosed, Bool.not_false, Bool.or_true]
  | stopping c point =>
    simp only [Stage.point?] at hpoint
    cases point with
    | entered | shut | finished => simp [canStep, hw, canStepClosing]
    | joining left | awaiting => simp [rank, hpoint] at hrank
  | _ => simp only [canStep, hw]

/-- A joiner goes on, or the worker does that it waits for. -/
theorem joiner_leads (hclosed : s.isOpen = false) (hp : s.pointOf p = some (.joining left)) : s.GoesOn := by
  by_cases hcan : s.canStepClosing (.joining left) = true
  · exact party_leads hp hcan
  · cases left with
    | nil => exact absurd rfl hcan
    | cons v rest =>
      cases hv : s.stages[v]? with
      | none => simp [canStepClosing, hv] at hcan
      | some stage =>
        refine unranked_leads hclosed hv ?_ (rank_unseen h hp List.mem_cons_self)
        rintro rfl
        simp [canStepClosing, hv] at hcan

/-- Whoever is inside `close` goes on, or somebody does that it waits for. -/
theorem closer_leads (hclosed : s.isOpen = false) (hp : s.pointOf p = some point) (hpoint : point ≠ .finished) :
    s.GoesOn := by
  cases point with
  | entered | shut => exact party_leads hp rfl
  | joining left => exact joiner_leads h hclosed hp
  | finished => exact absurd rfl hpoint
  | awaiting =>
    cases hjoined : s.joined with
    | true => exact party_leads hp hjoined
    | false =>
      have htaken : s.joining = true := by
        cases hfree : s.joining with
        | true => rfl
        | false => rcases (h.looking.early hfree).2 p _ hp with hpoint | hpoint <;> cases hpoint
      obtain ⟨q, left, hq⟩ := h.waiting.pending htaken hjoined
      exact joiner_leads h hclosed hq

theorem closed_leads (hclosed : s.isOpen = false) (hunfinished : s.Unfinished) : s.GoesOn := by
  rcases hunfinished with ⟨stage, hin, hstage⟩ | ⟨point, hin, hpoint⟩
  · obtain ⟨w, hw⟩ := List.getElem?_of_mem hin
    cases hp : s.pointOf (.worker w) with
    | none => exact unranked_leads hclosed hw hstage (by simp only [rank, hp])
    | some point =>
      refine closer_leads h hclosed hp ?_
      rintro rfl
      have hplaced := h.waiting.placed _ _ hp
      cases hplaced.1
  · obtain ⟨i, hi⟩ := List.getElem?_of_mem hin
    exact closer_leads h hclosed (p := .outside i) hi hpoint

/-- Before anybody calls `close`, all workers may be waiting for connections; otherwise one
    of them goes on. -/
theorem open_leads (huncalled : ∀ m ∈ past, callsClose m = false) (hunfinished : s.Unfinished) :
    s.GoesOn ∨ (s.queue = [] ∧ ∀ stage ∈ s.stages, stage = .waiting) := by
  obtain ⟨hopen, hnobody⟩ := h.shutting.uncalled huncalled
  have hexited : .exited ∉ s.stages := by
    intro hin
    rw [(h.drained hin).1] at hopen
    cases hopen
  by_cases hidle : ∀ stage ∈ s.stages, stage = .waiting
  · by_cases hqueue : s.queue = []
    · exact .inr ⟨hqueue, hidle⟩
    · left
      rcases hunfinished with ⟨stage, hin, -⟩ | ⟨point, hin, -⟩
      · obtain ⟨w, hw⟩ := List.getElem?_of_mem hin
        obtain rfl := hidle stage hin
        exact worker_leads hw (by simp [canStep, hw, hqueue])
      · obtain ⟨i, hi⟩ := List.getElem?_of_mem hin
        have hcaller := hnobody (.outside i)
        rw [pointOf, hi] at hcaller
        cases hcaller
  · left
    push Not at hidle
    obtain ⟨stage, hin, hbusy⟩ := hidle
    obtain ⟨w, hw⟩ := List.getElem?_of_mem hin
    have hpoint := (pointOf_worker hw).symm.trans (hnobody (.worker w))
    apply worker_leads hw
    cases stage with
    | waiting => exact absurd rfl hbusy
    | exited => exact absurd hin hexited
    | stopping c point => cases hpoint
    | _ => simp only [canStep, hw]

theorem goes_on (hunfinished : s.Unfinished) :
    s.GoesOn ∨ ((∀ m ∈ past, callsClose m = false) ∧ s.queue = [] ∧ ∀ stage ∈ s.stages, stage = .waiting) := by
  by_cases hcalled : ∃ m ∈ past, callsClose m = true
  · rcases h.shutting.called hcalled with hclosed | ⟨p, hp⟩
    · exact .inl (closed_leads h hclosed hunfinished)
    · exact .inl (party_leads hp rfl)
  · have huncalled : ∀ m ∈ past, callsClose m = false := by
      intro m hm
      cases hcalls : callsClose m with
      | false => rfl
      | true => exact absurd ⟨m, hm, hcalls⟩ hcalled
    exact (open_leads h huncalled hunfinished).imp_right fun hidle => ⟨huncalled, hidle⟩

end

end

/-- Of every run of a pool of any size, in which any number of threads from outside and any
    units of work call `close`, at any time and in any order.
    - While some worker has not exited, or some caller has not returned, somebody's next step
      leads on; except that before anybody has called `close` all workers may be waiting for
      connections.
    - Of all callers only the first to look joins the workers.
    - Nobody waits in a circle. A worker waits for other workers only, and for none that
      waits itself.
    - When a caller from outside has returned, all workers have exited; except for the one
      that joined the others, if it was a worker. -/
theorem close_completes (size : Nat) (events : List (Event ι)) :
    let past := moments State.next (ofSize size) events
    let s : State ι := final State.next (ofSize size) events
    (s.Unfinished → s.GoesOn ∨
      ((∀ m ∈ past, callsClose m = false) ∧ s.queue = [] ∧ ∀ stage ∈ s.stages, stage = .waiting)) ∧
    past.flatMap takers = (past.flatMap lookers).take 1 ∧
    (∀ p, ¬Relation.TransGen s.WaitsFor p p) ∧
    (∀ w b, s.WaitsFor (.worker w) b → b ≠ .worker w ∧ b.self? ≠ none ∧ ∀ c, ¬s.WaitsFor b c) ∧
    ∀ i : Nat, s.callers[i]? = some Closing.finished → ∀ v stage, s.stages[v]? = some stage →
      stage = .exited ∨ past.flatMap takers = [.worker v] := by
  intro past s
  have h : Kept past s := kept_along size events
  refine ⟨goes_on h, h.looking.first, ?_, fun w b => worker_waits h, ?_⟩
  · intro p hcircle
    exact Nat.lt_irrefl _ (rank_transGen h hcircle)
  · intro i hreturned v stage hv
    have hplaced := h.waiting.placed (.outside i) .finished hreturned
    exact (h.waiting.joined hplaced.2 v).imp_left fun hgone => hgone stage hv

/-- A unit of work on worker 0 closes a pool of two, so worker 0 joins worker 1, while a thread
    from outside awaits the end of that. Worker 1 exits, the thread returns, and worker 0
    goes back to its unit of work. -/
theorem worker_joins_first :
    let yes : Reply := .returned true
    let awaited : List (Event Nat) := [.schedule 0 yes, .worker 0 yes, .worker 0 yes, .worker 0 yes, .beginStop 0,
      .worker 0 yes, .worker 0 yes, .callClose, .caller 0, .caller 0]
    let events := awaited ++ [.worker 1 yes, .worker 0 yes, .worker 0 yes, .caller 0]
    let s := final State.next (ofSize 2) awaited
    let t := final State.next (ofSize 2) events
    s.WaitsFor (.outside 0) (.worker 0) ∧ s.WaitsFor (.worker 0) (.worker 1) ∧ s.GoesOn ∧
      t.callers = [.finished] ∧ t.stages = [.working 0, .exited] ∧
      (moments State.next (ofSize 2) events).flatMap takers = [.worker 0] ∧
      ∀ v stage, t.stages[v]? = some stage → stage = .exited ∨
        (moments State.next (ofSize 2) events).flatMap takers = [.worker v] := by
  intro yes awaited events s t
  have hunfinished : s.Unfinished := .inl ⟨.waiting, by decide, nofun⟩
  have hcalled : ¬∀ m ∈ moments State.next (ofSize 2) awaited, callsClose m = false := by decide
  obtain ⟨hgoes, -⟩ := close_completes 2 awaited
  obtain ⟨-, -, -, -, hreturned⟩ := close_completes 2 events
  have hjoins : s.pointOf (.worker 0) = some (.joining [1]) := by decide
  have hawaits : s.pointOf (.outside 0) = some .awaiting := by decide
  refine ⟨.joiner hawaits hjoins, .worker hjoins (List.mem_singleton_self 1), ?_, by decide, by decide, by decide,
    hreturned 0 (by decide)⟩
  exact (hgoes hunfinished).resolve_right fun hidle => hcalled hidle.1

end State

end MessageBroker.Pool
