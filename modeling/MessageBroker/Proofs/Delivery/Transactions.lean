/-
  MessageBroker.Proofs.Delivery.Transactions — a transaction takes effect at its commit, as staged.

  A staging selects tags among those outstanding at its own moment (`chosen`), and that
  selection is all a transaction ever holds (`opened_along`): whatever others do to the
  tracker in between, no later entry is drawn in because a staged acknowledgement would
  cover its tag. The commit goes by the tracker as it is then.
  - `next_forget` / `forget_of_concerns`: a consumer without the transaction `x` behaves
    as one with it, and what `x` is asked, short of its commit, shows in `x` alone.
  - `transaction_isolated`: what a commit takes out and what a discard leaves, after
    every run in which the transaction stays open.
-/

import MessageBroker.Proofs.Delivery.Consumer

namespace MessageBroker.Delivery.Consumer

variable {M : Type}

def Request.concerns (x : Nat) : Request M → Bool
  | .start y => y == x
  | .stage y _ _ => y == x
  | .commit y => y == x
  | .discard y => y == x
  | _ => false

def Request.ends (x : Nat) : Request M → Bool
  | .commit y => y == x
  | .discard y => y == x
  | _ => false

/-- The tags that a moment selects for `x`: of those outstanding, the ones its staging covers. -/
def chosen (x : Nat) (m : Moment (Consumer M) (Request M)) : List Tag :=
  match m.event with
  | .stage y tag multiple => if y = x then m.before.session.tracker.tags.filter (covers tag multiple) else []
  | _ => []

def forget (x : Nat) (c : Consumer M) : Consumer M := { c with opened := Function.update c.opened x none }

theorem forget_of_none {x : Nat} {c : Consumer M} (h : c.opened x = none) : c.forget x = c := by
  have hsame : Function.update c.opened x none = c.opened := by rw [← h]; exact Function.update_eq_self x c.opened
  unfold forget
  rw [hsame]

theorem opened_forget {x y : Nat} (h : y ≠ x) (c : Consumer M) : (c.forget x).opened y = c.opened y :=
  Function.update_of_ne h _ _

/-! ## Staging -/

theorem mem_tags_stage (c : Consumer M) (t : Transaction M) (x : Nat) (tag : Tag) (multiple : Bool) (u : Tag) :
    u ∈ (t.stage c.session tag multiple).staged.tags ↔ u ∈ t.staged.tags ∨ u ∈ chosen x ⟨c, .stage x tag multiple⟩ := by
  simp only [Transaction.stage, TagMap.mem_tags_insertAll, Tracker.tags_selected, chosen, if_true]

theorem chosen_of_concerns {x : Nat} {c : Consumer M} {r : Request M} (h : r.concerns x = false) :
    chosen x ⟨c, r⟩ = [] := by
  cases r with
  | stage y tag multiple =>
    have hne : y ≠ x := by simpa [Request.concerns] using h
    simp [chosen, hne]
  | _ => rfl

theorem outstanding_of_chosen {x : Nat} {m : Moment (Consumer M) (Request M)} {u : Tag} (h : u ∈ chosen x m) :
    ∃ tag multiple, m.event = .stage x tag multiple ∧ u ∈ m.before.session.tracker.tags := by
  unfold chosen at h
  split at h
  · rename_i y tag multiple hevent
    by_cases hy : y = x
    · rw [if_pos hy] at h
      exact ⟨tag, multiple, hy ▸ hevent, (List.mem_filter.mp h).1⟩
    · rw [if_neg hy] at h
      cases h
  · cases h

variable [Message M]

theorem next_stage_session (c : Consumer M) (x : Nat) (tag : Tag) (multiple : Bool) :
    (c.next (.stage x tag multiple)).session = c.session := by
  simp only [next, step]
  split <;> rfl

/-- A request about another transaction, or about none, leaves `x` as it was. -/
theorem opened_next {x : Nat} {c : Consumer M} {r : Request M} (h : r.concerns x = false) :
    (c.next r).opened x = c.opened x := by
  have hne : ∀ {y : Nat}, (y == x) = false → x ≠ y := fun hy he => by simp [he] at hy
  cases r with
  | deliver message => simp only [next, step]; split <;> rfl
  | start y => simp only [next, step]; split <;> simp [Function.update_of_ne (hne h)]
  | stage y => simp only [next, step]; split <;> simp [Function.update_of_ne (hne h)]
  | commit y => simp only [next, step]; split <;> simp [Function.update_of_ne (hne h)]
  | discard y => exact Function.update_of_ne (hne h) _ _
  | acknowledge | reject | close | shared => rfl

/-- As long as `x` stays open it holds the tags chosen for it. -/
theorem opened_along {x : Nat} {c : Consumer M} {requests : List (Request M)} (hfree : c.opened x = none)
    (hopen : ∀ r ∈ requests, r.ends x = false) :
    ∃ t, (History.final next c (.start x :: requests)).opened x = some t ∧
      ∀ u, u ∈ t.staged.tags ↔ u ∈ (History.moments next c (.start x :: requests)).flatMap (chosen x) := by
  have hstart : (c.next (.start x)).opened x = some .empty := by simp [next, step, hfree]
  refine History.along_allowed
    (fun past c' => ∃ t, c'.opened x = some t ∧ ∀ u, u ∈ t.staged.tags ↔ u ∈ past.flatMap (chosen x))
    ⟨.empty, hstart, fun u => by simp [Transaction.empty, TagMap.tags, TagMap.empty]⟩ ?_ hopen
  rintro past c' r hr ⟨t, ht, hmem⟩
  by_cases hx : r.concerns x = true
  · cases r with
    | start y =>
      obtain rfl : y = x := by simpa [Request.concerns] using hx
      exact ⟨t, by simp [next, step, ht], fun u => by simp [hmem, chosen]⟩
    | stage y tag multiple =>
      obtain rfl : y = x := by simpa [Request.concerns] using hx
      refine ⟨t.stage c'.session tag multiple, by simp [next, step, ht], fun u => ?_⟩
      rw [mem_tags_stage c' t y tag multiple u, History.flatMap_snoc, List.mem_append, hmem]
    | commit y => exact absurd (hx.symm.trans hr) (by simp)
    | discard y => exact absurd (hx.symm.trans hr) (by simp)
    | deliver | acknowledge | reject | close | shared => cases hx
  · have hx : r.concerns x = false := by simpa using hx
    refine ⟨t, (opened_next hx).trans ht, fun u => ?_⟩
    rw [History.flatMap_snoc, chosen_of_concerns hx, List.append_nil, hmem]

/-! ## Committing -/

theorem commit_answer {x : Nat} {c : Consumer M} {t : Transaction M} (h : c.opened x = some t) :
    (c.step (.commit x)).1 = .entries (c.outstanding.filter fun e => t.staged.tags.contains e.tag) := by
  have hanswer : (c.step (.commit x)).1 = .entries (c.session.tracker.removeAll t.staged.tags).1 := by
    simp only [step, h]
    rfl
  rw [hanswer, Tracker.removeAll_fst]

theorem commit_outstanding {x : Nat} {c : Consumer M} {t : Transaction M} (h : c.opened x = some t) :
    (c.next (.commit x)).outstanding = c.outstanding.filter fun e => !t.staged.tags.contains e.tag := by
  simp only [next, step, h]
  exact Tracker.removeAll_entries _ _

/-! ## Discarding -/

/-- What `x` is asked, short of its commit, shows in `x` alone. -/
theorem forget_of_concerns {x : Nat} {c : Consumer M} {r : Request M} (h : r.concerns x = true) (hc : r ≠ .commit x) :
    (c.next r).forget x = c.forget x := by
  cases r with
  | start y =>
    obtain rfl : y = x := by simpa [Request.concerns] using h
    simp only [next, step]; split <;> simp [forget]
  | stage y =>
    obtain rfl : y = x := by simpa [Request.concerns] using h
    simp only [next, step]; split <;> simp [forget]
  | commit y =>
    obtain rfl : y = x := by simpa [Request.concerns] using h
    exact absurd rfl hc
  | discard y =>
    obtain rfl : y = x := by simpa [Request.concerns] using h
    simp [next, step, forget]
  | deliver | acknowledge | reject | close | shared => cases h

/-- Everything else goes the same way without `x`. -/
theorem next_forget {x : Nat} {c : Consumer M} {r : Request M} (h : r.concerns x = false) :
    (c.next r).forget x = (c.forget x).next r := by
  have hne : ∀ {y : Nat}, (y == x) = false → y ≠ x := fun hy he => by simp [he] at hy
  cases r with
  | deliver message =>
    have hs : (c.forget x).session = c.session := rfl
    simp only [next, step, hs]; split <;> rfl
  | start y =>
    simp only [next, step, opened_forget (hne h)]
    split <;> simp [forget, Function.update_comm (hne h)]
  | stage y =>
    simp only [next, step, opened_forget (hne h)]
    split <;> simp [forget, Function.update_comm (hne h)]
  | commit y =>
    simp only [next, step, opened_forget (hne h)]
    split <;> simp [forget, Function.update_comm (hne h)]
  | discard y => simp [next, step, forget, Function.update_comm (hne h)]
  | acknowledge | reject | close | shared => rfl

/-- A run without commit of `x` is, but for `x`, the run of the other requests. -/
theorem final_forget {x : Nat} (c : Consumer M) {requests : List (Request M)} (h : ∀ r ∈ requests, r ≠ .commit x) :
    (History.final next c requests).forget x =
      History.final next (c.forget x) (requests.filter fun r => !r.concerns x) := by
  induction requests generalizing c with
  | nil => rfl
  | cons r rest ih =>
    have hrest := ih (c.next r) fun r' hr' => h r' (List.mem_cons_of_mem _ hr')
    have hfirst : History.final next c (r :: rest) = History.final next (c.next r) rest := rfl
    by_cases hx : r.concerns x = true
    · rw [hfirst, hrest, forget_of_concerns hx (h r List.mem_cons_self), List.filter_cons_of_neg (by simp [hx])]
    · have hx : r.concerns x = false := by simpa using hx
      rw [hfirst, hrest, next_forget hx, List.filter_cons_of_pos (by simp [hx])]
      rfl

/-! ## Every run -/

/-- A transaction opened on any session and kept open through any run, with other
    transactions, the session's own requests and other users of the tracker in any order.
    Staging leaves the session as it is. A commit answers, in tag order, exactly the
    entries outstanding then whose tags a staging of this transaction chose at its
    moment, and takes out exactly these; so an entry that was outstanding at none of the
    stagings stays. A discard leaves what the run of all other requests leaves. -/
theorem transaction_isolated (c : Consumer M) (x : Nat) (requests : List (Request M)) (hfree : c.opened x = none)
    (hopen : ∀ r ∈ requests, r.ends x = false) :
    let past := History.moments next c (.start x :: requests)
    let now := History.final next c (.start x :: requests)
    let tags := past.flatMap (chosen x)
    (∀ y tag multiple, (now.next (.stage y tag multiple)).session = now.session) ∧
    (∃ removed, (now.step (.commit x)).1 = .entries removed ∧ Ascending removed ∧
      ∀ e, e ∈ removed ↔ e ∈ now.outstanding ∧ e.tag ∈ tags) ∧
    (now.next (.commit x)).outstanding = now.outstanding.filter (fun e => e.tag ∉ tags) ∧
    (∀ e ∈ now.outstanding,
      (∀ m ∈ past, ∀ tag multiple, m.event = .stage x tag multiple → e.tag ∉ m.before.session.tracker.tags) →
      e ∈ (now.next (.commit x)).outstanding) ∧
    now.next (.discard x) = History.final next c (requests.filter fun r => !r.concerns x) := by
  intro past now tags
  obtain ⟨t, ht, hstaged⟩ := opened_along hfree hopen
  have hnow : now.opened x = some t := ht
  have hchosen : ∀ u, u ∈ t.staged.tags ↔ u ∈ tags := hstaged
  have hkept : (now.next (.commit x)).outstanding = now.outstanding.filter (fun e => e.tag ∉ tags) := by
    rw [commit_outstanding hnow]
    refine List.filter_congr ?_
    intro e _
    simp [hchosen]
  refine ⟨next_stage_session now, ⟨_, commit_answer hnow, ?_, ?_⟩, hkept, ?_, ?_⟩
  · exact now.session.tracker.outstanding.ascending.filter _
  · intro e
    rw [List.mem_filter]
    simp [hchosen]
  · intro e he hlate
    rw [hkept]
    refine List.mem_filter.mpr ⟨he, decide_eq_true ?_⟩
    intro hin
    obtain ⟨m, hm, hu⟩ := List.mem_flatMap.mp hin
    obtain ⟨tag, multiple, hevent, hout⟩ := outstanding_of_chosen hu
    exact hlate m hm tag multiple hevent hout
  · have hnocommit : ∀ r ∈ requests, r ≠ .commit x := by
      rintro r hr rfl
      simpa [Request.ends] using hopen _ hr
    have hrun := final_forget (c.next (.start x)) hnocommit
    rw [forget_of_concerns (by simp [Request.concerns]) (by simp), forget_of_none hfree] at hrun
    exact hrun

/-- With 1, 2 and 3 in flight, transaction 0 stages all up to 2. Then 2 is rejected and filed
    again with another message, 0 is filed, and transaction 1 commits 3. -/
def interleaved : List (Request UInt64) :=
  [.stage 0 2 true, .reject 2, .shared (.add 2 77), .start 1, .shared (.add 0 5), .stage 1 3 false, .commit 1]

def inFlight : Consumer UInt64 := History.final next (withLimit none) [.deliver 10, .deliver 20, .deliver 30]

/-- The commit answers the new entry under 2, and 0 stays though the staged acknowledgement
    covers its number. -/
theorem interleaved_isolated :
    let now := History.final next inFlight (.start 0 :: interleaved)
    inFlight.opened 0 = none ∧ (∀ r ∈ interleaved, r.ends 0 = false) ∧
    (∃ removed, (now.step (.commit 0)).1 = .entries removed ∧ Ascending removed ∧
      ∀ e, e ∈ removed ↔ e ∈ [(⟨1, 10⟩ : Entry UInt64), ⟨2, 77⟩]) ∧
    (now.next (.commit 0)).outstanding = [⟨0, 5⟩] ∧
    (now.next (.discard 0)).outstanding = [⟨0, 5⟩, ⟨1, 10⟩, ⟨2, 77⟩] := by
  intro now
  have hfree : inFlight.opened 0 = none := by decide
  have hopen : ∀ r ∈ interleaved, r.ends 0 = false := by decide
  obtain ⟨-, ⟨removed, hanswer, hasc, hmem⟩, hkept, -, hdiscard⟩ :=
    transaction_isolated inFlight 0 interleaved hfree hopen
  have htags : (History.moments next inFlight (.start 0 :: interleaved)).flatMap (chosen 0) = [1, 2] := by decide
  have hout : now.outstanding = [⟨0, 5⟩, ⟨1, 10⟩, ⟨2, 77⟩] := by decide
  rw [htags] at hmem hkept
  refine ⟨hfree, hopen, ⟨removed, hanswer, hasc, fun e => ?_⟩, ?_, ?_⟩
  · have hboth : ∀ e ∈ [(⟨0, 5⟩ : Entry UInt64), ⟨1, 10⟩, ⟨2, 77⟩], e.tag ∈ [1, 2] ↔ e ∈ [⟨1, 10⟩, ⟨2, 77⟩] := by decide
    rw [hmem, show History.final next inFlight (.start 0 :: interleaved) = now from rfl, hout]
    constructor
    · rintro ⟨he, ht⟩; exact (hboth e he).mp ht
    · intro he
      have hin : e ∈ [(⟨0, 5⟩ : Entry UInt64), ⟨1, 10⟩, ⟨2, 77⟩] := List.mem_cons_of_mem _ he
      exact ⟨hin, (hboth e hin).mpr he⟩
  · rw [hkept, show History.final next inFlight (.start 0 :: interleaved) = now from rfl, hout]; decide
  · rw [hdiscard]; decide

end MessageBroker.Delivery.Consumer
