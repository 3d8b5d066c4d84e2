/-
  MessageBroker.Proofs.Delivery.Staging — receipts staged and committed, or handed in directly.

  A transaction looks its receipts up in the entries outstanding, files what it finds under the
  tags, so that overlapping receipts find an entry once, and withdraws the tags one by one when it
  commits. Handed in directly, each receipt takes its entries out at once, so that a later one
  finds what the earlier ones left. Both ways take out what some receipt covers. A commit always
  answers with it; a receipt handed in directly only if a word holds the sizes of what it finds.
  - `entries_stageAll`: a transaction holds the entries that some receipt covers, each once.
  - `removeAll_as_receipts`: removing the tags that some receipt covers, against the receipts.
  - `commit_as_direct`: a transaction that is committed with nothing in between, against the same
    receipts one after the other.
  - `too_heavy_only_committed`: what a commit answers and a receipt handed in directly does not.
-/

import MessageBroker.Proofs.Delivery.Cumulative

namespace MessageBroker.Delivery

open Tracker (Receipt coveredBy Agrees)

variable {M : Type}

/-! ## What is staged -/

theorem TagMap.mem_insertAll {m : TagMap M} {l : List (Entry M)} {e : Entry M} (h : e ∈ (m.insertAll l).entries) :
    e ∈ m.entries ∨ e ∈ l := by
  induction l generalizing m with
  | nil => exact .inl h
  | cons x rest ih =>
    have hrest : e ∈ ((m.insert x.tag x.message).insertAll rest).entries := h
    rcases ih hrest with hmap | hlist
    · rcases TagMap.mem_insert hmap with rfl | hm
      · exact .inr List.mem_cons_self
      · exact .inl hm
    · exact .inr (List.mem_cons_of_mem _ hlist)

namespace Transaction

def stageAll (x : Transaction M) (s : Session M) (receipts : List Receipt) : Transaction M :=
  receipts.foldl (fun x r => x.stage s r.tag r.multiple) x

theorem stageAll_cons (x : Transaction M) (s : Session M) (r : Receipt) (rest : List Receipt) :
    x.stageAll s (r :: rest) = (x.stage s r.tag r.multiple).stageAll s rest := rfl

@[simp] theorem tags_empty : (empty : Transaction M).staged.tags = [] := rfl

theorem mem_tags_stageAll (x : Transaction M) (s : Session M) (receipts : List Receipt) (u : Tag) :
    u ∈ (x.stageAll s receipts).staged.tags ↔
      u ∈ x.staged.tags ∨ u ∈ s.tracker.tags ∧ coveredBy receipts u = true := by
  induction receipts generalizing x with
  | nil => simp [stageAll, coveredBy]
  | cons r rest ih =>
    have hcovered : coveredBy (r :: rest) u = (covers r.tag r.multiple u || coveredBy rest u) := rfl
    have hstage : u ∈ (x.stage s r.tag r.multiple).staged.tags ↔
        u ∈ x.staged.tags ∨ u ∈ s.tracker.tags ∧ covers r.tag r.multiple u = true := by
      unfold stage
      rw [TagMap.mem_tags_insertAll, Tracker.tags_selected, List.mem_filter]
    rw [stageAll_cons, ih, hstage, hcovered, Bool.or_eq_true, or_assoc, and_or_left]

theorem mem_stageAll {x : Transaction M} {s : Session M} {receipts : List Receipt} {e : Entry M}
    (h : e ∈ (x.stageAll s receipts).staged.entries) :
    e ∈ x.staged.entries ∨ e ∈ s.tracker.outstanding.entries := by
  induction receipts generalizing x with
  | nil => exact .inl h
  | cons r rest ih =>
    rcases ih h with hstage | hout
    · rcases TagMap.mem_insertAll hstage with hx | hselected
      · exact .inl hx
      · rw [Tracker.selected_eq] at hselected
        exact .inr (List.mem_filter.mp hselected).1
    · exact .inr hout

/-- A transaction that stages receipts holds the entries outstanding that one of them covers. -/
theorem entries_stageAll (s : Session M) (receipts : List Receipt) :
    (empty.stageAll s receipts).staged.entries =
      s.tracker.outstanding.entries.filter fun e => coveredBy receipts e.tag := by
  have hasc := (empty.stageAll s receipts).staged.ascending
  refine hasc.eq_of_mem_iff (s.tracker.outstanding.ascending.filter _) fun e => ?_
  have hin : ∀ {a}, a ∈ (empty.stageAll s receipts).staged.entries → a ∈ s.tracker.outstanding.entries := by
    intro a ha
    rcases mem_stageAll ha with hnone | hout
    · cases hnone
    · exact hout
  have htags := mem_tags_stageAll empty s receipts e.tag
  rw [List.mem_filter]
  constructor
  · intro he
    rcases htags.mp (TagMap.mem_tags_of_mem he) with hnone | ⟨-, hcovered⟩
    · cases hnone
    · exact ⟨hin he, hcovered⟩
  · rintro ⟨he, hcovered⟩
    -- something is staged under the tag, and a tag names one entry
    have hstaged := htags.mpr (.inr ⟨TagMap.mem_tags_of_mem he, hcovered⟩)
    obtain ⟨message, hmessage⟩ := TagMap.mem_tags.mp hstaged
    have hsame := eq_of_tag_eq s.tracker.outstanding.ascending (hin hmessage) he rfl
    exact hsame ▸ hmessage

end Transaction

/-! ## Removing what receipts cover -/

namespace Tracker

variable [Message M]

theorem bytes_removeAll (t : Tracker M) (tags : List Tag) :
    (t.removeAll tags).2.bytes.toNat = t.bytes.toNat - Delivery.weight (t.removeAll tags).1 := by
  have hsorted : (t.removeAll tags).1.Perm (t.removeEach tags).1 := List.mergeSort_perm _ _
  rw [weight_perm hsorted]
  exact bytes_removeEach t tags

/-- If the tags listed are those outstanding that some receipt covers, removing them takes out
    what the receipts cover, and subtracts what they subtract if a word holds it. -/
theorem removeAll_as_receipts (t : Tracker M) {tags : List Tag} {receipts : List Receipt}
    (same : ∀ u ∈ t.tags, u ∈ tags ↔ coveredBy receipts u = true) :
    (t.removeAll tags).1 = (t.outstanding.entries.filter fun e => coveredBy receipts e.tag) ∧
    (t.removeAll tags).2.outstanding = (t.settled receipts).outstanding ∧
    (Delivery.weight (t.removeAll tags).1 < UInt64.size → (t.removeAll tags).2.bytes = (t.settled receipts).bytes) := by
  have hlisted : ∀ e ∈ t.outstanding.entries, tags.contains e.tag = coveredBy receipts e.tag := by
    intro e he
    rw [Bool.eq_iff_iff, List.contains_iff_mem]
    exact same e.tag (TagMap.mem_tags_of_mem he)
  have hanswer : (t.removeAll tags).1 = t.outstanding.entries.filter fun e => coveredBy receipts e.tag := by
    rw [removeAll_fst, List.filter_congr hlisted]
  refine ⟨hanswer, TagMap.ext ?_, fun hfits => ?_⟩
  · rw [removeAll_entries, entries_acknowledged]
    exact List.filter_congr fun e he => by rw [hlisted e he]
  · have hremoved := bytes_removeAll t tags
    rw [hanswer] at hfits hremoved
    exact UInt64.toNat_inj.mp (hremoved.trans (bytes_settled hfits).symm)

/-- Removing the tags that were selected for an acknowledgement agrees with the acknowledgement. -/
theorem selected_agrees (t : Tracker M) (tag : Tag) (multiple : Bool) :
    Agrees (t.removeAll ((t.selected tag multiple).map (·.tag))) (t.acknowledge tag multiple) := by
  have hcovers : ∀ u, coveredBy [⟨tag, multiple⟩] u = covers tag multiple u := fun _ => Bool.or_false _
  have hselected : ∀ u ∈ t.tags, u ∈ (t.selected tag multiple).map (·.tag) ↔ coveredBy [⟨tag, multiple⟩] u = true := by
    intro u hu
    rw [tags_selected, List.mem_filter, hcovers]
    exact and_iff_right hu
  obtain ⟨hanswer, houtstanding, hbytes⟩ := removeAll_as_receipts t hselected
  simp only [hcovers, ← selected_eq] at hanswer
  refine ⟨houtstanding, fun hfits => ?_⟩
  have htracker : (t.acknowledge tag multiple).2 = (t.removeAll ((t.selected tag multiple).map (·.tag))).2 :=
    (Tracker.ext houtstanding (hbytes hfits)).symm
  rw [hanswer] at hfits ⊢
  rw [acknowledge_of_fits hfits, htracker]

theorem returned_acknowledge_getD (t : Tracker M) (tag : Tag) (multiple : Bool) :
    returned ⟨t, .acknowledge tag multiple⟩ = (t.acknowledge tag multiple).1.getD [] := by
  simp only [returned, step]
  cases (t.acknowledge tag multiple).1 with
  | returned removed => rfl
  | raised fault => rfl

end Tracker

/-! ## Committing -/

namespace Session

variable [Message M]

/-- Hand the receipts in one after the other, those after one that raises too. Answers what they
    answer, in that order. -/
def acknowledgeAll (s : Session M) : List Receipt → List (Entry M) × Session M
  | [] => ([], s)
  | r :: rest =>
    let (first, s) := s.acknowledge r.tag r.multiple
    let (others, s) := s.acknowledgeAll rest
    (first.getD [] ++ others, s)

theorem acknowledgeAll_eq (s : Session M) (receipts : List Receipt) :
    s.acknowledgeAll receipts = (s.tracker.answered receipts, { s with tracker := s.tracker.settled receipts }) := by
  induction receipts generalizing s with
  | nil => rfl
  | cons r rest ih =>
    rw [Tracker.answered_cons, Tracker.settled_cons, Tracker.returned_acknowledge_getD]
    simp only [acknowledgeAll, ih]
    rfl

/-- Of any session and any receipts, staged in one transaction and committed with nothing in
    between. The commit answers, in ascending order, the entries that some receipt covers, as many
    as were staged. It leaves the same entries outstanding, the same next tag and the same credit as
    the receipts handed in one after the other. If a word holds the sizes of what it answers, they
    answer the same altogether and leave the same session. A single receipt may also be selected,
    and what was selected removed. -/
theorem commit_as_direct (s : Session M) (receipts : List Receipt) :
    let staged := Transaction.empty.stageAll s receipts
    let committed := staged.commit s
    let direct := s.acknowledgeAll receipts
    Ascending committed.1 ∧ staged.size = committed.1.length ∧
    (∀ e, e ∈ committed.1 ↔ e ∈ s.tracker.outstanding.entries ∧ coveredBy receipts e.tag = true) ∧
    committed.2.tracker.outstanding = direct.2.tracker.outstanding ∧
    committed.2.nextTag = direct.2.nextTag ∧
    committed.2.hasCredit = direct.2.hasCredit ∧
    (weight committed.1 < UInt64.size → committed.1.Perm direct.1 ∧ committed.2 = direct.2) ∧
    ∀ tag multiple, Agrees (s.tracker.removeAll ((s.tracker.selected tag multiple).map (·.tag)))
      (s.tracker.acknowledge tag multiple) := by
  intro staged committed direct
  have hcovered : ∀ u ∈ s.tracker.tags, u ∈ staged.staged.tags ↔ coveredBy receipts u = true := by
    intro u hu
    have hstaged := Transaction.mem_tags_stageAll .empty s receipts u
    rw [Transaction.tags_empty] at hstaged
    simpa only [List.not_mem_nil, false_or, hu, true_and] using hstaged
  have hcommitted : committed = ((s.tracker.removeAll staged.staged.tags).1,
      { s with tracker := (s.tracker.removeAll staged.staged.tags).2 }) := rfl
  have hdirect : direct = (s.tracker.answered receipts, { s with tracker := s.tracker.settled receipts }) :=
    acknowledgeAll_eq s receipts
  obtain ⟨hanswer, houtstanding, hbytes⟩ := Tracker.removeAll_as_receipts s.tracker hcovered
  rw [hcommitted, hdirect]
  refine ⟨Tracker.ascending_removeAll _ _, ?_, ?_, houtstanding, rfl, ?_, ?_, Tracker.selected_agrees s.tracker⟩
  · show staged.staged.entries.length = (s.tracker.removeAll staged.staged.tags).1.length
    rw [Transaction.entries_stageAll, hanswer]
  · intro e
    rw [hanswer, List.mem_filter]
  · have hsize : (s.tracker.removeAll staged.staged.tags).2.size = (s.tracker.settled receipts).size :=
      congrArg TagMap.size houtstanding
    simp only [hasCredit, hsize]
  · intro hfits
    have htracker : (s.tracker.removeAll staged.staged.tags).2 = s.tracker.settled receipts :=
      Tracker.ext houtstanding (hbytes hfits)
    refine ⟨?_, by rw [htracker]⟩
    rw [hanswer] at hfits ⊢
    exact (Tracker.returned_of_fits hfits).symm

/-- Four deliveries fill the credit. The receipts name 3 first, then all up to 2, then all up to 3
    again, and at last a tag that is not outstanding. Directly 3 is answered first; the commit
    answers it last. -/
theorem overlapping_commit_as_direct :
    letI := Consumer.sized
    let t : Tracker Nat := History.final Tracker.next .empty [.add 1 10, .add 2 20, .add 3 30, .add 4 40]
    let s : Session Nat := { tracker := t, nextTag := 5, limit := some 4 }
    let receipts : List Receipt := [⟨3, false⟩, ⟨2, true⟩, ⟨3, true⟩, ⟨9, false⟩]
    let staged := Transaction.empty.stageAll s receipts
    (staged.commit s).1 = [⟨1, 10⟩, ⟨2, 20⟩, ⟨3, 30⟩] ∧ weight (staged.commit s).1 < UInt64.size ∧
      staged.size = 3 ∧ (s.acknowledgeAll receipts).1 = [⟨3, 30⟩, ⟨1, 10⟩, ⟨2, 20⟩] ∧
      (s.acknowledgeAll receipts).1.Perm [⟨1, 10⟩, ⟨2, 20⟩, ⟨3, 30⟩] ∧
      (staged.commit s).2.tracker.outstanding.entries = [⟨4, 40⟩] ∧ (staged.commit s).2.tracker.bytes = 40 ∧
      s.hasCredit = false ∧ (staged.commit s).2.hasCredit = true := by
  let _ := Consumer.sized
  intro t s receipts staged
  obtain ⟨hasc, -, hanswer, -, -, -, hagree, -⟩ := commit_as_direct s receipts
  have hsorted : Ascending [(⟨1, 10⟩ : Entry Nat), ⟨2, 20⟩, ⟨3, 30⟩] := by decide
  have hcovered : s.tracker.outstanding.entries.filter (fun e => coveredBy receipts e.tag) =
      [⟨1, 10⟩, ⟨2, 20⟩, ⟨3, 30⟩] := by decide +kernel
  have hcommitted : (staged.commit s).1 = [⟨1, 10⟩, ⟨2, 20⟩, ⟨3, 30⟩] := by
    refine hasc.eq_of_mem_iff hsorted fun e => ?_
    rw [← hcovered, List.mem_filter]
    exact hanswer e
  have hfits : weight (staged.commit s).1 < UInt64.size := by
    rw [hcommitted]
    decide
  obtain ⟨hturned, hsession⟩ := hagree hfits
  have hcommit : (staged.commit s).2 = (s.acknowledgeAll receipts).2 := hsession
  refine ⟨hcommitted, hfits, by decide +kernel, by decide +kernel, hcommitted ▸ hturned.symm, ?_, ?_,
    by decide +kernel, ?_⟩
  · rw [hcommit]
    decide +kernel
  · rw [hcommit]
    decide +kernel
  · rw [hcommit]
    decide +kernel

/-- Two deliveries that a word does not hold together. Staged and committed they are answered; a
    receipt for both that is handed in directly loses them. -/
theorem too_heavy_only_committed :
    letI := Consumer.sized
    let t : Tracker Nat := History.final Tracker.next .empty [.add 1 (2 ^ 63), .add 2 (2 ^ 63)]
    let s : Session Nat := { tracker := t, nextTag := 3, limit := none }
    let receipts : List Receipt := [⟨2, true⟩]
    ((Transaction.empty.stageAll s receipts).commit s).1 = [⟨1, 2 ^ 63⟩, ⟨2, 2 ^ 63⟩] ∧
      (s.acknowledge 2 true).1 = .raised .overflow ∧ (s.acknowledgeAll receipts).1 = [] ∧
      ¬((Transaction.empty.stageAll s receipts).commit s).1.Perm (s.acknowledgeAll receipts).1 := by
  let _ := Consumer.sized
  intro t s receipts
  have hcommitted : ((Transaction.empty.stageAll s receipts).commit s).1 = [⟨1, 2 ^ 63⟩, ⟨2, 2 ^ 63⟩] := by
    show (s.tracker.removeAll (Transaction.empty.stageAll s receipts).staged.tags).1 = _
    rw [Tracker.removeAll_fst]
    decide +kernel
  have hdirect : (s.acknowledgeAll receipts).1 = [] := by decide +kernel
  refine ⟨hcommitted, by decide +kernel, hdirect, fun hperm => ?_⟩
  rw [hcommitted, hdirect] at hperm
  exact absurd hperm.length_eq (by decide)

end Session

end MessageBroker.Delivery
