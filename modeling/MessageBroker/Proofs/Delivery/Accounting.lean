/-
  MessageBroker.Proofs.Delivery.Accounting — every entry a tracker accepts is accounted for.

  Each request to a tracker is one atomic step, so whoever shares the tracker, their
  requests are one sequence. Of each moment in it, `accepted` is the entry that an `add`
  filed, `returned` are the entries that the answer hands over, `dropped` those that a
  `clear` forgets, and `lost` those that an acknowledgement had cut off when the sum of
  their sizes raised. `cancelAll` answers messages alone: they are paired with the tags
  that were outstanding, lowest first.
  - `balance`: one request moves entries between these places and changes none.
  - `entries_accounted`: over every run from an empty tracker, what was accepted is
    outstanding, returned, dropped or lost, each entry in one place and once; refused are
    exactly the tags outstanding, and the answers are in tag order.
  - `too_heavy_is_lost`: the one way to lose entries.
-/

import Mathlib.Algebra.Ring.Nat
import Mathlib.Data.List.Perm.Basic
import MessageBroker.Proofs.Delivery.Withdrawal
import MessageBroker.Proofs.History

namespace MessageBroker.Delivery

variable {M : Type}

@[reducible] def Consumer.sized : Message Nat where
  size := UInt64.ofNat

theorem perm_step {α : Type} {held out lost given held' out' lost' given' : List α}
    (h : (held ++ out ++ lost).Perm given)
    (hstep : (held' ++ out' ++ lost').Perm (held ++ given')) :
    (held' ++ (out ++ out') ++ (lost ++ lost')).Perm (given ++ given') := by
  classical
  -- as multisets: add up the occurrences of each entry
  rw [List.perm_iff_count] at h hstep ⊢
  intro e
  have h1 := h e
  have h2 := hstep e
  simp only [List.count_append] at h1 h2 ⊢
  omega

namespace Tracker

inductive Request (M : Type) where
  | add (tag : Tag) (message : M)
  | remove (tag : Tag)
  | acknowledge (tag : Tag) (multiple : Bool)
  | removeAll (tags : List Tag)
  | cancelAll
  | clear

inductive Answer (M : Type) where
  | accepted
  | refused (e : TrackerError)
  | message (message : Option M)
  | entries (entries : List (Entry M))
  | messages (messages : List M)
  | cleared
  | faulted (fault : Fault)

def Answer.ofOutcome : Outcome (List (Entry M)) → Answer M
  | .returned removed => .entries removed
  | .raised fault => .faulted fault

section
variable [Message M]

def step (t : Tracker M) : Request M → Answer M × Tracker M
  | .add tag message =>
    match t.add tag message with
    | .ok t => (.accepted, t)
    | .error e => (.refused e, t)
  | .remove tag => (.message (t.remove tag).1, (t.remove tag).2)
  | .acknowledge tag multiple => (.ofOutcome (t.acknowledge tag multiple).1, (t.acknowledge tag multiple).2)
  | .removeAll tags => (.entries (t.removeAll tags).1, (t.removeAll tags).2)
  | .cancelAll => (.messages t.cancelAll.1, t.cancelAll.2)
  | .clear => (.cleared, t.clear)

def next (t : Tracker M) (r : Request M) : Tracker M := (t.step r).2

def accepted (m : Moment (Tracker M) (Request M)) : List (Entry M) :=
  match m.event, (m.before.step m.event).1 with
  | .add tag message, .accepted => [⟨tag, message⟩]
  | _, _ => []

def returned (m : Moment (Tracker M) (Request M)) : List (Entry M) :=
  match m.event, (m.before.step m.event).1 with
  | .remove tag, .message message => (message.map (Entry.mk tag)).toList
  | _, .entries entries => entries
  | _, .messages messages => List.zipWith Entry.mk m.before.tags messages
  | _, _ => []

def dropped (m : Moment (Tracker M) (Request M)) : List (Entry M) :=
  match m.event with
  | .clear => m.before.outstanding.entries
  | _ => []

def faults (m : Moment (Tracker M) (Request M)) : Bool :=
  match m.event with
  | .acknowledge tag multiple => m.before.overruns tag multiple
  | _ => false

/-- The entries that a moment has cut off when it raises. -/
def lost (m : Moment (Tracker M) (Request M)) : List (Entry M) :=
  match m.event, (m.before.step m.event).1 with
  | .acknowledge tag multiple, .faulted _ => m.before.selected tag multiple
  | _, _ => []

end

/-! ## One request -/

theorem zipWith_tags_messages (m : TagMap M) : List.zipWith Entry.mk m.tags m.messages = m.entries := by
  simp [TagMap.tags, TagMap.messages, List.zipWith_map, List.zipWith_self]

theorem insert_perm {t : Tracker M} {tag : Tag} (h : tag ∉ t.tags) (message : M) :
    (t.outstanding.insert tag message).entries.Perm (t.outstanding.entries ++ [⟨tag, message⟩]) := by
  refine (TagMap.place_perm fun y hy hyt => ?_).trans (List.perm_append_singleton _ _).symm
  have hin : y.tag ∈ t.tags := TagMap.mem_tags_of_mem hy
  exact h (by rwa [hyt] at hin)

section
variable [Message M]

theorem step_add_of_mem {t : Tracker M} {tag : Tag} (h : tag ∈ t.tags) (message : M) :
    t.step (.add tag message) = (.refused (.duplicateTag tag), t) := by
  simp only [step, add_of_mem h]

theorem step_add_of_notMem {t : Tracker M} {tag : Tag} (h : tag ∉ t.tags) (message : M) :
    t.step (.add tag message) =
      (.accepted, ⟨t.outstanding.insert tag message, addSaturating t.bytes (Message.size message)⟩) := by
  simp only [step, add_of_notMem h]

theorem returned_remove (t : Tracker M) (tag : Tag) :
    returned ⟨t, .remove tag⟩ = t.outstanding.entries.filter (·.tag == tag) := by
  simp only [returned, step, remove_fst]
  exact (TagMap.filter_tag _ _).symm

theorem answer_acknowledge (t : Tracker M) (tag : Tag) (multiple : Bool) :
    (t.step (.acknowledge tag multiple)).1 =
      if t.overruns tag multiple then .faulted .overflow else .entries (t.selected tag multiple) := by
  show Answer.ofOutcome (t.acknowledge tag multiple).1 = _
  rw [acknowledge_fst]
  split <;> rfl

theorem returned_acknowledge (t : Tracker M) (tag : Tag) (multiple : Bool) :
    returned ⟨t, .acknowledge tag multiple⟩ = if t.overruns tag multiple then [] else t.selected tag multiple := by
  unfold returned
  by_cases hover : t.overruns tag multiple = true
  · simp only [answer_acknowledge, if_pos hover]
  · simp only [answer_acknowledge, if_neg hover]

theorem lost_acknowledge (t : Tracker M) (tag : Tag) (multiple : Bool) :
    lost ⟨t, .acknowledge tag multiple⟩ = if t.overruns tag multiple then t.selected tag multiple else [] := by
  unfold lost
  by_cases hover : t.overruns tag multiple = true
  · simp only [answer_acknowledge, if_pos hover]
  · simp only [answer_acknowledge, if_neg hover]

theorem lost_of_fits {m : Moment (Tracker M) (Request M)} (h : faults m = false) : lost m = [] := by
  obtain ⟨t, r⟩ := m
  cases r with
  | acknowledge tag multiple =>
    have hfits : t.overruns tag multiple = false := h
    rw [lost_acknowledge, hfits]
    rfl
  | _ => rfl

theorem returned_removeAll (t : Tracker M) (tags : List Tag) :
    returned ⟨t, .removeAll tags⟩ = t.outstanding.entries.filter fun e => tags.contains e.tag := by
  simp only [returned, step, removeAll_fst]

theorem returned_cancelAll (t : Tracker M) : returned ⟨t, .cancelAll⟩ = t.outstanding.entries :=
  zipWith_tags_messages t.outstanding

/-- One request moves entries between the places and changes none of them. -/
theorem balance (t : Tracker M) (r : Request M) :
    ((t.next r).outstanding.entries ++ returned ⟨t, r⟩ ++ (dropped ⟨t, r⟩ ++ lost ⟨t, r⟩)).Perm
      (t.outstanding.entries ++ accepted ⟨t, r⟩) := by
  cases r with
  | add tag message =>
    by_cases h : tag ∈ t.tags
    · simp [next, returned, dropped, lost, accepted, step_add_of_mem h]
    · simpa [next, returned, dropped, lost, accepted, step_add_of_notMem h] using insert_perm h message
  | remove tag => simp only [dropped, lost, accepted, List.append_nil]; exact remove_perm t tag
  | acknowledge tag multiple =>
    -- what is selected goes to one place or the other
    have hmoved : ((t.next (.acknowledge tag multiple)).outstanding.entries ++ t.selected tag multiple).Perm
        t.outstanding.entries := acknowledge_perm t tag multiple
    rw [returned_acknowledge, lost_acknowledge]
    simp only [dropped, accepted, List.append_nil, List.nil_append]
    by_cases hover : t.overruns tag multiple = true
    · simpa only [if_pos hover, List.append_nil] using hmoved
    · simpa only [if_neg hover, List.append_nil] using hmoved
  | removeAll tags => simp only [dropped, lost, accepted, List.append_nil]; exact removeAll_perm t tags
  | cancelAll => simp [returned_cancelAll, dropped, lost, accepted, step, next, cancelAll]
  | clear => simp [returned, dropped, lost, accepted, step, next, clear]

theorem nodup_before (t : Tracker M) (r : Request M) :
    (t.outstanding.entries ++ accepted ⟨t, r⟩).Nodup := by
  have hold : t.outstanding.entries.Nodup := Ascending.nodup t.outstanding.ascending
  cases r with
  | add tag message =>
    by_cases h : tag ∈ t.tags
    · simpa [accepted, step_add_of_mem h] using hold
    · have hnew : (⟨tag, message⟩ : Entry M) ∉ t.outstanding.entries := fun hm => h (TagMap.mem_tags_of_mem hm)
      have hone : [(⟨tag, message⟩ : Entry M)].Nodup := List.pairwise_singleton _ _
      simp only [accepted, step_add_of_notMem h]
      refine List.nodup_append.mpr ⟨hold, hone, fun e he x hx hex => ?_⟩
      rw [hex, List.mem_singleton.mp hx] at he
      exact hnew he
  | remove | acknowledge | removeAll | cancelAll | clear => simpa [accepted, step] using hold

theorem notMem_next_of_returned {t : Tracker M} {r : Request M} {e : Entry M} (h : e ∈ returned ⟨t, r⟩) :
    e ∉ (t.next r).outstanding.entries := by
  have hnd := (balance t r).nodup_iff.mpr (nodup_before t r)
  intro he
  exact (List.nodup_append.mp (List.nodup_append.mp hnd).1).2.2 e he e h rfl

theorem mem_of_returned {t : Tracker M} {r : Request M} {e : Entry M} (h : e ∈ returned ⟨t, r⟩) :
    e ∈ t.outstanding.entries := by
  cases r with
  | add tag message =>
    by_cases hm : tag ∈ t.tags
    · simp [returned, step_add_of_mem hm] at h
    · simp [returned, step_add_of_notMem hm] at h
  | remove => rw [returned_remove] at h; exact (List.mem_filter.mp h).1
  | acknowledge tag multiple =>
    rw [returned_acknowledge, selected_eq] at h
    split at h
    · cases h
    · exact (List.mem_filter.mp h).1
  | removeAll => rw [returned_removeAll] at h; exact (List.mem_filter.mp h).1
  | cancelAll => rwa [returned_cancelAll] at h
  | clear => simp [returned, step] at h

/-- Lost are the entries of one cumulative acknowledgement, too large for a word together. -/
theorem lost_cases (m : Moment (Tracker M) (Request M)) (h : lost m ≠ []) :
    ∃ tag, m.event = .acknowledge tag true ∧ lost m = m.before.selected tag true ∧ UInt64.size ≤ weight (lost m) := by
  have hfaults : faults m = true := by
    by_cases hfaults : faults m = true
    · exact hfaults
    · exact absurd (lost_of_fits (Bool.not_eq_true _ ▸ hfaults)) h
  obtain ⟨t, r⟩ := m
  cases r with
  | acknowledge tag multiple =>
    have hover : t.overruns tag multiple = true := hfaults
    have hlost : lost ⟨t, .acknowledge tag multiple⟩ = t.selected tag multiple := by rw [lost_acknowledge, if_pos hover]
    cases multiple with
    | true => exact ⟨tag, rfl, hlost, hlost ▸ weight_of_overruns hover⟩
    | false => cases hover
  | _ => cases hfaults

theorem ascending_returned (t : Tracker M) (r : Request M) : Ascending (returned ⟨t, r⟩) := by
  have hasc := t.outstanding.ascending
  cases r with
  | add tag message =>
    by_cases hm : tag ∈ t.tags
    · simp [returned, step_add_of_mem hm, Ascending]
    · simp [returned, step_add_of_notMem hm, Ascending]
  | remove => rw [returned_remove]; exact hasc.filter _
  | acknowledge tag multiple =>
    rw [returned_acknowledge]
    split
    · exact List.Pairwise.nil
    · exact ascending_selected t tag multiple
  | removeAll => rw [returned_removeAll]; exact hasc.filter _
  | cancelAll => rw [returned_cancelAll]; exact hasc
  | clear => exact List.Pairwise.nil

/-! ## Every run -/

theorem run_balance (t : Tracker M) (requests : List (Request M)) :
    let past := History.moments next t requests
    ((History.final next t requests).outstanding.entries ++ past.flatMap returned ++
      (past.flatMap dropped ++ past.flatMap lost)).Perm (t.outstanding.entries ++ past.flatMap accepted) := by
  intro past
  have htogether : ((History.final next t requests).outstanding.entries ++ past.flatMap returned ++
      past.flatMap fun m => dropped m ++ lost m).Perm (t.outstanding.entries ++ past.flatMap accepted) := by
    refine History.along (fun past t' => (t'.outstanding.entries ++ past.flatMap returned ++
      past.flatMap fun m => dropped m ++ lost m).Perm (t.outstanding.entries ++ past.flatMap accepted)) ?_ ?_ requests
    · simp
    · intro past t' r ih
      simp only [History.flatMap_snoc]
      rw [← List.append_assoc t.outstanding.entries]
      exact perm_step ih (balance t' r)
  exact ((List.flatMap_append_perm past dropped lost).append_left _).trans htogether

/-- An entry returned in a run from a tracker that does not hold it was accepted in
    that run before. -/
theorem accepted_before_returned {t : Tracker M} {e : Entry M} (habs : e ∉ t.outstanding.entries)
    {requests : List (Request M)} {past later : List (Moment (Tracker M) (Request M))}
    {m : Moment (Tracker M) (Request M)}
    (h : History.moments next t requests = past ++ m :: later) (hm : e ∈ returned m) : e ∈ past.flatMap accepted := by
  obtain ⟨first, -, -, rfl, hbefore, -⟩ := History.moments_split h
  have hheld : e ∈ (History.final next t first).outstanding.entries := hbefore ▸ mem_of_returned hm
  have hin : e ∈ t.outstanding.entries ++ (History.moments next t first).flatMap accepted :=
    (run_balance t first).mem_iff.mp (by simp [hheld])
  exact (List.mem_append.mp hin).resolve_left habs

/-- A run from an empty tracker, whoever makes the requests. What was accepted is
    outstanding, returned, dropped or lost, in equal numbers; a second return of an entry
    needs a second acceptance in between; an `add` is refused exactly if its tag is
    outstanding, and then changes nothing; answers are in ascending tag order. Lost is what
    a cumulative acknowledgement cuts off whose sizes a word does not hold together, and
    nothing else. -/
theorem entries_accounted (requests : List (Request M)) :
    let past := History.moments next (empty : Tracker M) requests
    let t := History.final next (empty : Tracker M) requests
    (past.flatMap accepted).Perm
      (t.outstanding.entries ++ past.flatMap returned ++ past.flatMap dropped ++ past.flatMap lost) ∧
    (∀ m ∈ past, lost m ≠ [] → ∃ tag, m.event = .acknowledge tag true ∧ lost m = m.before.selected tag true ∧
      UInt64.size ≤ weight (lost m)) ∧
    (∀ earlier m between m' later, past = earlier ++ m :: (between ++ m' :: later) →
      ∀ e, e ∈ returned m → e ∈ returned m' → e ∈ between.flatMap accepted) ∧
    (∀ m ∈ past, ∀ tag message, m.event = .add tag message →
      ((m.before.step m.event).1 = .accepted ↔ tag ∉ m.before.tags) ∧
      (tag ∈ m.before.tags → m.before.step m.event = (.refused (.duplicateTag tag), m.before))) ∧
    (∀ m ∈ past, Ascending (returned m)) := by
  intro past t
  refine ⟨?_, fun m _ => lost_cases m, ?_, ?_, ?_⟩
  · have hbalance : (t.outstanding.entries ++ past.flatMap returned ++
        (past.flatMap dropped ++ past.flatMap lost)).Perm (past.flatMap accepted) := run_balance empty requests
    rw [← List.append_assoc] at hbalance
    exact hbalance.symm
  · intro earlier m between m' later h e he he'
    obtain ⟨-, rest, -, -, -, hrest⟩ := History.moments_split h
    exact accepted_before_returned (notMem_next_of_returned he) hrest.symm he'
  · intro m _ tag message hm
    rw [hm]
    refine ⟨⟨fun hacc hin => ?_, fun hout => by rw [step_add_of_notMem hout]⟩, fun hin => step_add_of_mem hin message⟩
    rw [step_add_of_mem hin] at hacc
    cases hacc
  · exact fun m _ => ascending_returned m.before m.event

/-- Two deliveries that a word does not hold together are acknowledged at once. Nothing is
    outstanding, returned or dropped afterwards. -/
theorem too_heavy_is_lost :
    letI := Consumer.sized
    let requests : List (Request Nat) := [.add 1 (2 ^ 63), .add 2 (2 ^ 63), .acknowledge 2 true]
    let past := History.moments next (empty : Tracker Nat) requests
    let t := History.final next (empty : Tracker Nat) requests
    past.flatMap accepted = [⟨1, 2 ^ 63⟩, ⟨2, 2 ^ 63⟩] ∧ past.flatMap lost = [⟨1, 2 ^ 63⟩, ⟨2, 2 ^ 63⟩] ∧
      ¬(past.flatMap accepted).Perm (t.outstanding.entries ++ past.flatMap returned ++ past.flatMap dropped) := by
  decide +kernel

end

end Tracker

end MessageBroker.Delivery
