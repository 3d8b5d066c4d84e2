/-
  MessageBroker.Proofs.Delivery.Listing — tags taken out by a list of them.

  A list of tags is gone through from its front, and each tag that is outstanding when its turn
  comes is taken out: a tag that is listed again, or was never outstanding, takes out nothing. What
  was taken out comes in the order of the list and is sorted afterwards. So the answer and what
  stays are told by which tags are listed, not by where or how often (`removeAll_congr`), and a
  list may be handed in piece by piece (`removeAll_append`).
  - `removeAll_by_listed`: what a list takes out and leaves, of any tracker, its total included.
-/

import MessageBroker.Proofs.Delivery.Staging

namespace MessageBroker.Delivery.Tracker

variable {M : Type} [Message M]

theorem removeAll_congr (t : Tracker M) {tags tags' : List Tag} (same : ∀ tag, tag ∈ tags' ↔ tag ∈ tags) :
    t.removeAll tags' = t.removeAll tags := by
  have hlisted : tags'.contains = tags.contains := by
    funext tag
    rw [Bool.eq_iff_iff, List.contains_iff_mem, List.contains_iff_mem]
    exact same tag
  have hanswer : (t.removeAll tags').1 = (t.removeAll tags).1 := by
    rw [removeAll_fst, removeAll_fst, hlisted]
  have houtstanding : (t.removeAll tags').2.outstanding = (t.removeAll tags).2.outstanding := by
    apply TagMap.ext
    rw [removeAll_entries, removeAll_entries, hlisted]
  have hbytes : (t.removeAll tags').2.bytes = (t.removeAll tags).2.bytes := by
    apply UInt64.toNat_inj.mp
    rw [bytes_removeAll, bytes_removeAll, hanswer]
  exact Prod.ext hanswer (Tracker.ext houtstanding hbytes)

theorem removeEach_append (t : Tracker M) (first rest : List Tag) :
    t.removeEach (first ++ rest) =
      ((t.removeEach first).1 ++ ((t.removeEach first).2.removeEach rest).1,
        ((t.removeEach first).2.removeEach rest).2) := by
  induction first generalizing t with
  | nil => rfl
  | cons tag first ih => rw [List.cons_append, removeEach_cons, ih, removeEach_cons, List.append_assoc]

/-- A list may be handed in in two pieces: their answers, merged by tag, are its answer. -/
theorem removeAll_append (t : Tracker M) (first rest : List Tag) :
    t.removeAll (first ++ rest) =
      ((t.removeAll first).1.merge ((t.removeAll first).2.removeAll rest).1 fun a b => a.tag ≤ b.tag,
        ((t.removeAll first).2.removeAll rest).2) := by
  have hwhole := removeEach_append t first rest
  have hleft : (t.removeAll (first ++ rest)).2 = ((t.removeAll first).2.removeAll rest).2 := by
    show (t.removeEach (first ++ rest)).2 = ((t.removeEach first).2.removeEach rest).2
    rw [hwhole]
  -- sorted or not, the answers hold the same entries
  have hanswers : ((t.removeAll first).1 ++ ((t.removeAll first).2.removeAll rest).1).Perm
      (t.removeAll (first ++ rest)).1 := by
    have hfirst : (t.removeAll first).1.Perm (t.removeEach first).1 := List.mergeSort_perm _ _
    have hrest : ((t.removeAll first).2.removeAll rest).1.Perm ((t.removeEach first).2.removeEach rest).1 :=
      List.mergeSort_perm _ _
    have hall : (t.removeAll (first ++ rest)).1.Perm (t.removeEach (first ++ rest)).1 := List.mergeSort_perm _ _
    rw [hwhole] at hall
    exact (hfirst.append hrest).trans hall.symm
  have hsorted (l : List (Entry M)) (h : Ascending l) : l.Pairwise fun a b => decide (a.tag ≤ b.tag) = true :=
    h.imp fun hab => decide_eq_true (UInt64.le_of_lt hab)
  have hmerged : ((t.removeAll first).1.merge ((t.removeAll first).2.removeAll rest).1
      fun a b => a.tag ≤ b.tag).Pairwise fun a b => a.tag ≤ b.tag := by
    refine List.Pairwise.imp of_decide_eq_true (List.pairwise_merge ?_ ?_ _ _ ?_ ?_)
    · intro a b c hab hbc
      simpa using UInt64.le_trans (of_decide_eq_true hab) (of_decide_eq_true hbc)
    · intro a b
      simpa using UInt64.le_total a.tag b.tag
    · exact hsorted _ (ascending_removeAll _ _)
    · exact hsorted _ (ascending_removeAll _ _)
  have hanswer := (ascending_removeAll t (first ++ rest)).eq_of_sorted hmerged
    ((List.merge_perm_append _).trans hanswers)
  exact Prod.ext hanswer.symm hleft

/-- Any tracker and any list of tags, in any order, with repeats and with tags that are not
    outstanding. The answer is the entries outstanding whose tag is listed, in strictly ascending
    order, so each of them once; the others stay; and the total is less by the sizes of what went,
    as far as it goes. Another list of the same tags has the same answer and leaves the same
    tracker; and a longer list does what its two pieces do one after the other, and answers what
    they answer, merged by tag. -/
theorem removeAll_by_listed (t : Tracker M) (tags : List Tag) :
    (∀ e, e ∈ (t.removeAll tags).1 ↔ e ∈ t.outstanding.entries ∧ e.tag ∈ tags) ∧
    Ascending (t.removeAll tags).1 ∧
    (∀ e, e ∈ (t.removeAll tags).2.outstanding.entries ↔ e ∈ t.outstanding.entries ∧ e.tag ∉ tags) ∧
    (t.removeAll tags).2.bytes.toNat = t.bytes.toNat - Delivery.weight (t.removeAll tags).1 ∧
    (∀ tags' : List Tag, (∀ tag, tag ∈ tags' ↔ tag ∈ tags) → t.removeAll tags' = t.removeAll tags) ∧
    ∀ more : List Tag,
      (t.removeAll (tags ++ more)).2 = ((t.removeAll tags).2.removeAll more).2 ∧
      (t.removeAll (tags ++ more)).1 =
        (t.removeAll tags).1.merge ((t.removeAll tags).2.removeAll more).1 fun a b => a.tag ≤ b.tag := by
  refine ⟨?_, ascending_removeAll t tags, ?_, bytes_removeAll t tags, ?_, ?_⟩
  · intro e
    rw [removeAll_fst, List.mem_filter, List.contains_iff_mem]
  · intro e
    rw [removeAll_entries, List.mem_filter, Bool.not_eq_true', ← Bool.not_eq_true, List.contains_iff_mem]
  · intro tags' same
    exact removeAll_congr t same
  · intro more
    rw [removeAll_append]
    exact ⟨rfl, rfl⟩

/-- Four deliveries. Tag 3 is listed twice, 9 is not outstanding; sorted and with each tag once, the
    list takes out the same. Then 4 and 1 again go, and are merged into the answer. -/
theorem listed_twice_taken_once :
    letI := Consumer.sized
    let t : Tracker Nat := History.final next empty [.add 1 10, .add 2 20, .add 3 30, .add 4 40]
    (∀ tag : Tag, tag ∈ [1, 3, 9] ↔ tag ∈ [3, 9, 1, 3]) ∧
      (t.removeAll [3, 9, 1, 3]).1 = [⟨1, 10⟩, ⟨3, 30⟩] ∧ t.removeAll [1, 3, 9] = t.removeAll [3, 9, 1, 3] ∧
      (t.removeAll [3, 9, 1, 3]).2.outstanding.entries = [⟨2, 20⟩, ⟨4, 40⟩] ∧
      (t.removeAll [3, 9, 1, 3]).2.bytes = 60 ∧
      (t.removeAll ([3, 9, 1, 3] ++ [2, 1])).1 = [⟨1, 10⟩, ⟨2, 20⟩, ⟨3, 30⟩] := by
  let _ := Consumer.sized
  intro t
  obtain ⟨-, -, -, hbytes, hsame, hmore⟩ := removeAll_by_listed t [3, 9, 1, 3]
  have hlisted : ∀ tag : Tag, tag ∈ [1, 3, 9] ↔ tag ∈ [3, 9, 1, 3] := by
    intro tag
    simp only [List.mem_cons, List.not_mem_nil, or_false]
    constructor
    · rintro (h | h | h) <;> simp [h]
    · rintro (h | h | h | h) <;> simp [h]
  have hanswer : (t.removeAll [3, 9, 1, 3]).1 = [⟨1, 10⟩, ⟨3, 30⟩] := by
    rw [removeAll_fst]
    decide
  have hrest : ((t.removeAll [3, 9, 1, 3]).2.removeAll [2, 1]).1 = [⟨2, 20⟩] := by
    rw [removeAll_fst, removeAll_entries]
    decide
  have htotal : t.bytes.toNat = 100 := by decide
  refine ⟨hlisted, hanswer, hsame [1, 3, 9] hlisted, ?_, ?_, ?_⟩
  · rw [removeAll_entries]
    decide
  · apply UInt64.toNat_inj.mp
    rw [hbytes, hanswer, htotal]
    rfl
  · rw [(hmore [2, 1]).2, hanswer, hrest]
    simp

end MessageBroker.Delivery.Tracker
