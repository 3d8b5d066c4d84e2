/-
  MessageBroker.Proofs.Delivery.Withdrawal — what leaves a tracker and what stays.

  A tracker's entries are in ascending tag order, so a tag names at most one of them
  (`eq_of_tag_eq`). Filing a new entry adds that entry alone (`place_perm`), at the end
  if its tag is the highest (`place_last`). Taking entries out splits them in two:
  - `remove_fst` / `remove_entries`: one tag's entry, and the others.
  - `acknowledge_fst` / `acknowledge_entries`: the entries covered, and the others. If the
    sizes of those covered do not fit in a word (`overruns`), nothing is answered, and the
    others stay all the same.
  - `removeAll_fst` / `removeAll_entries`: the entries under the listed tags, ascending,
    and the others.
  A delivery is refused for one of three reasons or files the next tag (`deliver_cases`);
  a close gives up every entry, once (`close_cases`).
-/

import MessageBroker.Delivery.Session

namespace MessageBroker.Delivery

variable {M : Type}

/-! ## Entries in tag order -/

theorem eq_of_tag_eq {l : List (Entry M)} (h : Ascending l) {a b : Entry M} (ha : a ∈ l) (hb : b ∈ l)
    (same : a.tag = b.tag) : a = b := by
  induction l with
  | nil => cases ha
  | cons x rest ih =>
    obtain ⟨hx, hrest⟩ := List.pairwise_cons.mp h
    rcases List.mem_cons.mp ha with rfl | ha' <;> rcases List.mem_cons.mp hb with rfl | hb'
    · rfl
    · exact absurd (same ▸ hx b hb') (UInt64.lt_irrefl _)
    · exact absurd (same ▸ hx a ha') (UInt64.lt_irrefl _)
    · exact ih hrest ha' hb'

theorem Ascending.nodup {l : List (Entry M)} (h : Ascending l) : l.Nodup := by
  refine List.Pairwise.imp ?_ h
  rintro a b hlt rfl
  exact UInt64.lt_irrefl _ hlt

theorem Ascending.eq_of_mem_iff {l l' : List (Entry M)} (h : Ascending l) (h' : Ascending l')
    (same : ∀ e, e ∈ l ↔ e ∈ l') : l = l' := by
  have hperm : l.Perm l' := (List.perm_ext_iff_of_nodup h.nodup h'.nodup).mpr same
  refine hperm.eq_of_pairwise ?_ h h'
  intro a b _ _ hab hba
  exact absurd (UInt64.lt_trans hab hba) (UInt64.lt_irrefl _)

theorem Ascending.eq_of_sorted {l l' : List (Entry M)} (h : Ascending l)
    (sorted : l'.Pairwise fun a b => a.tag ≤ b.tag) (same : l'.Perm l) : l' = l := by
  refine same.eq_of_pairwise ?_ sorted (h.imp UInt64.le_of_lt)
  intro a b ha hb hab hba
  exact eq_of_tag_eq h (same.mem_iff.mp ha) hb (UInt64.le_antisymm hab hba)

namespace TagMap

theorem mem_tags {m : TagMap M} {tag : Tag} : tag ∈ m.tags ↔ ∃ message, ⟨tag, message⟩ ∈ m.entries := by
  simp only [tags, List.mem_map]
  constructor
  · rintro ⟨⟨t, message⟩, he, rfl⟩; exact ⟨message, he⟩
  · rintro ⟨message, he⟩; exact ⟨_, he, rfl⟩

theorem mem_tags_of_mem {m : TagMap M} {e : Entry M} (h : e ∈ m.entries) : e.tag ∈ m.tags :=
  List.mem_map_of_mem h

theorem contains_iff {m : TagMap M} {tag : Tag} : m.contains tag = true ↔ tag ∈ m.tags := by
  simp [contains, tags]

theorem get?_eq_some {m : TagMap M} {tag : Tag} {message : M} :
    m.get? tag = some message ↔ ⟨tag, message⟩ ∈ m.entries := by
  simp only [get?, Option.map_eq_some_iff]
  constructor
  · rintro ⟨e, he, rfl⟩
    have htag : e.tag = tag := by simpa using List.find?_some he
    subst htag
    exact List.mem_of_find?_eq_some he
  · intro he
    cases hf : m.entries.find? (·.tag == tag) with
    | none => simpa using List.find?_eq_none.mp hf _ he
    | some e =>
      have htag : e.tag = tag := by simpa using List.find?_some hf
      have := eq_of_tag_eq m.ascending (List.mem_of_find?_eq_some hf) he htag
      exact ⟨e, rfl, by rw [this]⟩

theorem get?_eq_none {m : TagMap M} {tag : Tag} : m.get? tag = none ↔ tag ∉ m.tags := by
  simp only [get?, Option.map_eq_none_iff, List.find?_eq_none, tags, List.mem_map, not_exists, not_and, beq_iff_eq]

theorem filter_tag (m : TagMap M) (tag : Tag) :
    m.entries.filter (·.tag == tag) = ((m.get? tag).map (Entry.mk tag)).toList := by
  cases hg : m.get? tag with
  | none =>
    have habs := get?_eq_none.mp hg
    refine List.filter_eq_nil_iff.mpr fun e he ht => habs ?_
    have htag : e.tag = tag := by simpa using ht
    exact htag ▸ mem_tags_of_mem he
  | some message =>
    have hmem := get?_eq_some.mp hg
    have hasc : Ascending (m.entries.filter (·.tag == tag)) := m.ascending.filter _
    refine hasc.eq_of_mem_iff (List.pairwise_singleton _ _) fun e => ?_
    simp only [List.mem_filter, beq_iff_eq, Option.map_some, Option.toList_some, List.mem_singleton]
    constructor
    · rintro ⟨he, ht⟩; exact eq_of_tag_eq m.ascending he hmem ht
    · rintro rfl; exact ⟨hmem, rfl⟩

theorem mem_map_tag_place {e : Entry M} {l : List (Entry M)} {tag : Tag} :
    tag ∈ (place e l).map (·.tag) ↔ tag = e.tag ∨ tag ∈ l.map (·.tag) := by
  induction l with
  | nil => simp [place]
  | cons x rest ih =>
    unfold place
    split
    · simp
    · rename_i hnlt
      split
      · simp only [List.map_cons, List.mem_cons, ih]
        exact ⟨fun h => h.elim (.inr ∘ .inl) (.imp_right .inr), fun h => h.elim (.inr ∘ .inl) (.imp_right .inr)⟩
      · rename_i hngt
        have same : e.tag = x.tag := UInt64.le_antisymm (UInt64.not_lt.mp hngt) (UInt64.not_lt.mp hnlt)
        simp [same]

theorem mem_tags_insertAll {m : TagMap M} {l : List (Entry M)} {tag : Tag} :
    tag ∈ (m.insertAll l).tags ↔ tag ∈ m.tags ∨ tag ∈ l.map (·.tag) := by
  induction l generalizing m with
  | nil => simp [insertAll]
  | cons e rest ih =>
    have hstep : m.insertAll (e :: rest) = (m.insert e.tag e.message).insertAll rest := rfl
    rw [hstep, ih]
    simp only [tags, entries_insert, mem_map_tag_place, List.map_cons, List.mem_cons]
    exact ⟨fun h => by rcases h with (h | h) | h <;> simp [h], fun h => by rcases h with h | h | h <;> simp [h]⟩

theorem place_perm {e : Entry M} {l : List (Entry M)} (h : ∀ y ∈ l, y.tag ≠ e.tag) : (place e l).Perm (e :: l) := by
  induction l with
  | nil => exact .refl _
  | cons x rest ih =>
    unfold place
    split
    · exact .refl _
    · rename_i hnlt
      split
      · exact ((ih fun y hy => h y (by simp [hy])).cons x).trans (.swap e x rest)
      · rename_i hngt
        exact absurd (UInt64.le_antisymm (UInt64.not_lt.mp hnlt) (UInt64.not_lt.mp hngt)) (h x (by simp))

theorem place_last {e : Entry M} {l : List (Entry M)} (h : ∀ y ∈ l, y.tag < e.tag) : place e l = l ++ [e] := by
  induction l with
  | nil => rfl
  | cons x rest ih =>
    have hx := h x (by simp)
    unfold place
    rw [if_neg (UInt64.lt_asymm hx), if_pos hx, ih fun y hy => h y (by simp [hy])]
    rfl

end TagMap

/-! ## Taking entries out -/

/-- What an acknowledgement of `tag` covers: that tag, or with `multiple` all up to it. -/
def covers (tag : Tag) (multiple : Bool) (t : Tag) : Bool := if multiple then t ≤ tag else t == tag

namespace Tracker

@[ext] theorem ext {t t' : Tracker M} (houtstanding : t.outstanding = t'.outstanding) (hbytes : t.bytes = t'.bytes) :
    t = t' := by
  cases t
  cases t'
  cases houtstanding
  cases hbytes
  rfl

@[simp] theorem empty_entries : (empty : Tracker M).outstanding.entries = [] := rfl

theorem selected_eq (t : Tracker M) (tag : Tag) (multiple : Bool) :
    t.selected tag multiple = t.outstanding.entries.filter fun e => covers tag multiple e.tag := by
  cases multiple with
  | true => exact t.outstanding.upTo_eq_filter tag
  | false => exact (t.outstanding.filter_tag tag).symm

theorem tags_selected (t : Tracker M) (tag : Tag) (multiple : Bool) :
    (t.selected tag multiple).map (·.tag) = t.tags.filter (covers tag multiple) := by
  rw [selected_eq, tags, TagMap.tags, List.filter_map]
  rfl

variable [Message M]

/-- The acknowledgement adds up sizes that do not fit in a word. -/
def overruns (t : Tracker M) (tag : Tag) (multiple : Bool) : Bool := multiple && tooHeavy (t.selected tag multiple)

theorem weight_of_overruns {t : Tracker M} {tag : Tag} {multiple : Bool} (h : t.overruns tag multiple = true) :
    UInt64.size ≤ weight (t.selected tag multiple) := by
  simp only [overruns, tooHeavy, Bool.and_eq_true, decide_eq_true_eq] at h
  exact h.2

theorem overruns_of_fits {t : Tracker M} {tag : Tag} {multiple : Bool}
    (h : weight (t.selected tag multiple) < UInt64.size) : t.overruns tag multiple = false := by
  by_cases hover : t.overruns tag multiple = true
  · exact absurd (weight_of_overruns hover) (Nat.not_le.mpr h)
  · exact Bool.not_eq_true _ ▸ hover

/-- A cumulative acknowledgement that does not raise has added up no more than a word holds. -/
theorem fits_of_overruns {t : Tracker M} {tag : Tag} (h : t.overruns tag true = false) :
    weight (t.selected tag true) < UInt64.size := by
  simp only [overruns, tooHeavy, Bool.true_and, decide_eq_false_iff_not] at h
  exact Nat.not_le.mp h

omit [Message M] in
theorem ascending_selected (t : Tracker M) (tag : Tag) (multiple : Bool) : Ascending (t.selected tag multiple) := by
  rw [selected_eq]
  exact t.outstanding.ascending.filter _

/-- Cutting the map behind `tag`, or taking all of it where no tag lies behind, takes out what
    is selected and keeps the rest. -/
theorem takeThrough_eq (t : Tracker M) (tag : Tag) :
    t.takeThrough tag =
      if t.overruns tag true then (.raised .overflow, ⟨t.outstanding.filter (tag < ·.tag), t.bytes⟩)
      else (.returned (t.selected tag true),
        ⟨t.outstanding.filter (tag < ·.tag), subSaturating t.bytes (wordSum (t.selected tag true))⟩) := by
  have hselected : t.selected tag true = t.outstanding.entries.filter (·.tag ≤ tag) := t.outstanding.upTo_eq_filter tag
  unfold takeThrough overruns
  rw [hselected, Bool.true_and]
  cases hbound : following? tag with
  | some bound =>
    have hle : ∀ e : Entry M, e.tag < bound ↔ e.tag ≤ tag := fun e => lt_following hbound e.tag
    have hremoved : (t.outstanding.splitAt bound).1.entries = t.outstanding.entries.filter (·.tag ≤ tag) := by
      rw [TagMap.entries_splitAt_fst]
      simp only [hle]
    have hkept : (t.outstanding.splitAt bound).2 = t.outstanding.filter (tag < ·.tag) := by
      refine TagMap.ext ?_
      rw [TagMap.entries_splitAt_snd, TagMap.entries_filter]
      refine List.filter_congr fun e _ => ?_
      simp only [hle, ← UInt64.not_le, decide_not]
    simp only [hremoved, hkept]
  | none =>
    have hle : ∀ e : Entry M, e.tag ≤ tag := fun e => le_of_following_none hbound e.tag
    have hremoved : t.outstanding.entries = t.outstanding.entries.filter (·.tag ≤ tag) :=
      (List.filter_eq_self.mpr fun e _ => decide_eq_true (hle e)).symm
    have hkept : (TagMap.empty : TagMap M) = t.outstanding.filter (tag < ·.tag) := by
      refine TagMap.ext ?_
      rw [TagMap.entries_filter]
      refine (List.filter_eq_nil_iff.mpr fun e _ => ?_).symm
      simpa using hle e
    simp only [← hremoved, hkept]

/-- What lies behind `tag` stays, whether the sizes are too large for a word or not. -/
theorem takeThrough_outstanding (t : Tracker M) (tag : Tag) :
    (t.takeThrough tag).2.outstanding = t.outstanding.filter (tag < ·.tag) := by
  rw [takeThrough_eq]
  split <;> rfl

theorem add_of_mem {t : Tracker M} {tag : Tag} (h : tag ∈ t.tags) (message : M) :
    t.add tag message = .error (.duplicateTag tag) :=
  if_pos (TagMap.contains_iff.mpr h)

theorem add_of_notMem {t : Tracker M} {tag : Tag} (h : tag ∉ t.tags) (message : M) :
    t.add tag message =
      .ok ⟨t.outstanding.insert tag message, addSaturating t.bytes (Message.size message)⟩ :=
  if_neg fun hc => h (TagMap.contains_iff.mp hc)

theorem remove_fst (t : Tracker M) (tag : Tag) : (t.remove tag).1 = t.get? tag := by
  unfold remove; split <;> simp [*]

theorem remove_entries (t : Tracker M) (tag : Tag) :
    (t.remove tag).2.outstanding.entries = t.outstanding.entries.filter (·.tag != tag) := by
  unfold remove
  split
  · rename_i hg
    have habs := TagMap.get?_eq_none.mp hg
    refine (List.filter_eq_self.mpr fun e he => ?_).symm
    have : e.tag ≠ tag := fun h => habs (h ▸ TagMap.mem_tags_of_mem he)
    simpa using this
  · rfl

theorem remove_perm (t : Tracker M) (tag : Tag) :
    ((t.remove tag).2.outstanding.entries ++ ((t.remove tag).1.map (Entry.mk tag)).toList).Perm
      t.outstanding.entries := by
  have hout : ((t.remove tag).1.map (Entry.mk tag)).toList = t.outstanding.entries.filter (·.tag == tag) := by
    rw [remove_fst]; exact (TagMap.filter_tag _ _).symm
  rw [hout, remove_entries]
  exact List.perm_append_comm.trans (List.filter_append_perm _ _)

theorem acknowledge_single (t : Tracker M) (tag : Tag) :
    t.acknowledge tag false = (.returned ((t.remove tag).1.map (Entry.mk tag)).toList, (t.remove tag).2) := by
  simp only [acknowledge, Bool.false_eq_true, if_false]
  split <;> rename_i hremove <;> simp [hremove]

theorem acknowledge_fst (t : Tracker M) (tag : Tag) (multiple : Bool) :
    (t.acknowledge tag multiple).1 =
      if t.overruns tag multiple then .raised .overflow else .returned (t.selected tag multiple) := by
  cases multiple with
  | true =>
    show (t.takeThrough tag).1 = _
    rw [takeThrough_eq]
    split <;> rfl
  | false =>
    rw [acknowledge_single, remove_fst]
    rfl

/-- Sizes that are too large for a word are gone with their entries, and still in the total. -/
theorem acknowledge_of_overruns {t : Tracker M} {tag : Tag} {multiple : Bool} (h : t.overruns tag multiple = true) :
    t.acknowledge tag multiple = (.raised .overflow, ⟨(t.acknowledge tag multiple).2.outstanding, t.bytes⟩) := by
  cases multiple with
  | true =>
    show t.takeThrough tag = (.raised .overflow, ⟨(t.takeThrough tag).2.outstanding, t.bytes⟩)
    rw [takeThrough_eq, if_pos h]
  | false => cases h

theorem acknowledge_bytes {t : Tracker M} {tag : Tag} (h : t.overruns tag true = false) :
    (t.acknowledge tag true).2.bytes = subSaturating t.bytes (wordSum (t.selected tag true)) := by
  show (t.takeThrough tag).2.bytes = _
  rw [takeThrough_eq, if_neg (by simp [h])]

theorem acknowledge_entries (t : Tracker M) (tag : Tag) (multiple : Bool) :
    (t.acknowledge tag multiple).2.outstanding.entries =
      t.outstanding.entries.filter fun e => !covers tag multiple e.tag := by
  cases multiple with
  | true =>
    show (t.takeThrough tag).2.outstanding.entries = _
    rw [takeThrough_outstanding, TagMap.entries_filter]
    refine List.filter_congr fun e _ => ?_
    by_cases h : e.tag ≤ tag
    · simp [covers, h, UInt64.not_lt.mpr h]
    · simp [covers, h, UInt64.not_le.mp h]
  | false =>
    rw [acknowledge_single]
    exact remove_entries t tag

theorem acknowledge_perm (t : Tracker M) (tag : Tag) (multiple : Bool) :
    ((t.acknowledge tag multiple).2.outstanding.entries ++ t.selected tag multiple).Perm t.outstanding.entries := by
  rw [selected_eq, acknowledge_entries]
  exact List.perm_append_comm.trans (List.filter_append_perm _ _)

/-! ## Taking out a list of tags -/

theorem removeEach_cons (t : Tracker M) (tag : Tag) (rest : List Tag) :
    t.removeEach (tag :: rest) =
      (((t.remove tag).1.map (Entry.mk tag)).toList ++ ((t.remove tag).2.removeEach rest).1,
        ((t.remove tag).2.removeEach rest).2) := by
  simp only [removeEach]
  split <;> rename_i hr <;> simp [hr]

theorem removeEach_entries (t : Tracker M) (tags : List Tag) :
    (t.removeEach tags).2.outstanding.entries = t.outstanding.entries.filter fun e => !tags.contains e.tag := by
  induction tags generalizing t with
  | nil => exact (List.filter_eq_self.mpr fun _ _ => rfl).symm
  | cons tag rest ih =>
    rw [removeEach_cons, ih, remove_entries, List.filter_filter]
    refine List.filter_congr fun e _ => ?_
    by_cases h : e.tag = tag <;> simp [h]

theorem removeEach_perm (t : Tracker M) (tags : List Tag) :
    ((t.removeEach tags).2.outstanding.entries ++ (t.removeEach tags).1).Perm t.outstanding.entries := by
  induction tags generalizing t with
  | nil => simp [removeEach]
  | cons tag rest ih =>
    rw [removeEach_cons]
    refine (List.perm_append_comm_assoc _ _ _).trans ?_
    exact ((ih _).append_left _).trans (List.perm_append_comm.trans (remove_perm t tag))

theorem removeAll_perm (t : Tracker M) (tags : List Tag) :
    ((t.removeAll tags).2.outstanding.entries ++ (t.removeAll tags).1).Perm t.outstanding.entries :=
  ((List.mergeSort_perm _ _).append_left _).trans (removeEach_perm t tags)

theorem removeAll_entries (t : Tracker M) (tags : List Tag) :
    (t.removeAll tags).2.outstanding.entries = t.outstanding.entries.filter fun e => !tags.contains e.tag :=
  removeEach_entries t tags

/-- The answer is sorted, and so are the entries under the listed tags: being the same
    entries they are the same list. -/
theorem removeAll_fst (t : Tracker M) (tags : List Tag) :
    (t.removeAll tags).1 = t.outstanding.entries.filter fun e => tags.contains e.tag := by
  have hkept := removeAll_perm t tags
  rw [removeAll_entries] at hkept
  have hall := List.filter_append_perm (fun e : Entry M => tags.contains e.tag) t.outstanding.entries
  have hperm : (t.removeAll tags).1.Perm (t.outstanding.entries.filter fun e => tags.contains e.tag) :=
    (List.perm_append_left_iff _).mp (hkept.trans (hall.symm.trans List.perm_append_comm))
  have hsorted : (t.removeAll tags).1.Pairwise fun a b => a.tag ≤ b.tag := by
    have hlist : (t.removeAll tags).1.Pairwise fun a b => decide (a.tag ≤ b.tag) = true :=
      List.pairwise_mergeSort (fun a b c => by simpa using UInt64.le_trans)
        (fun a b => by simpa using UInt64.le_total _ _) _
    exact hlist.imp of_decide_eq_true
  exact Ascending.eq_of_sorted (t.outstanding.ascending.filter _) hsorted hperm

theorem ascending_removeAll (t : Tracker M) (tags : List Tag) : Ascending (t.removeAll tags).1 := by
  rw [removeAll_fst]
  exact t.outstanding.ascending.filter _

end Tracker

/-! ## Delivering and closing -/

namespace Session

/-- A session is closed already, or closing gives up every entry. -/
theorem close_cases (s : Session M) :
    (s.closed = true ∧ s.close = ([], s)) ∨
    (s.closed = false ∧ s.close = (s.tracker.outstanding.messages, { s with closed := true, tracker := .empty })) := by
  by_cases h : s.closed = true
  · exact .inl ⟨h, by simp [close, h]⟩
  · have hopen : s.closed = false := by simpa using h
    exact .inr ⟨hopen, by simp [close, hopen, Tracker.cancelAll]⟩

variable [Message M]

def track (s : Session M) (message : M) : Session M :=
  { s with
    tracker := ⟨s.tracker.outstanding.insert s.nextTag message,
      addSaturating s.tracker.bytes (Message.size message)⟩
    nextTag := s.nextTag + 1 }

/-- A delivery is refused for one of three reasons, or it files the next tag. -/
theorem deliver_cases (s : Session M) (message : M) :
    (s.closed = true ∧ s.deliver message = .error .sessionClosed) ∨
    (s.closed = false ∧ s.hasCredit = false ∧ s.deliver message = .error .prefetchExhausted) ∨
    (s.closed = false ∧ s.hasCredit = true ∧ s.nextTag ∈ s.tracker.tags ∧
      s.deliver message = .error (.duplicateTag s.nextTag)) ∨
    (s.closed = false ∧ s.hasCredit = true ∧ s.nextTag ∉ s.tracker.tags ∧
      s.deliver message = .ok (s.nextTag, s.track message)) := by
  by_cases hc : s.closed = true
  · exact .inl ⟨hc, by simp [deliver, hc]⟩
  have hopen : s.closed = false := by simpa using hc
  right
  by_cases hcr : s.hasCredit = true
  · right
    by_cases hm : s.nextTag ∈ s.tracker.tags
    · exact .inl ⟨hopen, hcr, hm, by simp [deliver, hopen, hcr, Tracker.add_of_mem hm, TrackerError.toError]⟩
    · exact .inr ⟨hopen, hcr, hm, by simp [deliver, hopen, hcr, Tracker.add_of_notMem hm, track]⟩
  · have hno : s.hasCredit = false := by simpa using hcr
    exact .inl ⟨hopen, hno, by simp [deliver, hopen, hno]⟩

end Session

end MessageBroker.Delivery
