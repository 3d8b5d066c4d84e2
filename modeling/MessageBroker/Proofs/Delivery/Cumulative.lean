/-
  MessageBroker.Proofs.Delivery.Cumulative — one receipt for many deliveries, or many for one each.

  A cumulative acknowledgement cuts the entries at a tag and adds up the sizes of the lower part
  before it subtracts them. A single one looks its entry up and subtracts one size. Both ways keep
  the same entries. As long as a word holds the sizes that are added up, they also answer the same
  entries in the same order, and subtract the same.
  - `bytes_acknowledge` / `bytes_settled` / `bytes_removeEach`: what is subtracted is the weight of
    what is taken out, as far as the total goes.
  - `answered_singles` / `settled_singles`: acknowledging tags one at a time withdraws each of them,
    and in ascending order it answers what they name (`removeEach_ascending`).
  - `cumulative_as_singles`: a cumulative acknowledgement against single ones, and against two
    cumulative ones, of any tracker and up to any tag.
  - `too_heavy_only_as_singles`: where no word holds the sizes together, single ones still answer.
-/

import MessageBroker.Proofs.Delivery.Reordering

namespace MessageBroker.Delivery

variable {M : Type}

theorem Ascending.append {l l' : List (Entry M)} (h : Ascending l) (h' : Ascending l') (bound : Tag)
    (below : ∀ e ∈ l, e.tag ≤ bound) (above : ∀ e ∈ l', bound < e.tag) : Ascending (l ++ l') := by
  refine List.pairwise_append.mpr ⟨h, h', ?_⟩
  intro a ha b hb
  exact UInt64.lt_of_le_of_lt (below a ha) (above b hb)

namespace Tracker

open History

variable [Message M]

/-- Two ways to take entries out, of which the second may add up sizes that no word holds: they
    leave the same entries, and if a word holds the sizes, the second answers what the first does
    and they leave the same tracker. -/
structure Agrees (one : List (Entry M) × Tracker M) (other : Outcome (List (Entry M)) × Tracker M) : Prop where
  outstanding_eq : one.2.outstanding = other.2.outstanding
  eq_of_fits : Delivery.weight one.1 < UInt64.size → other = (.returned one.1, one.2)

/-! ## What is subtracted -/

theorem bytes_remove (t : Tracker M) (tag : Tag) :
    (t.remove tag).2.bytes.toNat = t.bytes.toNat - Delivery.weight ((t.remove tag).1.map (Entry.mk tag)).toList := by
  rw [remove_fst]
  unfold remove
  cases hget : t.get? tag with
  | none => simp
  | some message => simp [toNat_subSaturating]

theorem bytes_removeEach (t : Tracker M) (tags : List Tag) :
    (t.removeEach tags).2.bytes.toNat = t.bytes.toNat - Delivery.weight (t.removeEach tags).1 := by
  induction tags generalizing t with
  | nil => rfl
  | cons tag rest ih =>
    have hfirst := bytes_remove t tag
    have hrest := ih (t.remove tag).2
    rw [removeEach_cons, weight_append, hrest, hfirst]
    omega

/-- An acknowledgement of sizes that fit in a word together answers all it selects. -/
theorem acknowledge_of_fits {t : Tracker M} {tag : Tag} {multiple : Bool}
    (hfits : Delivery.weight (t.selected tag multiple) < UInt64.size) :
    t.acknowledge tag multiple = (.returned (t.selected tag multiple), (t.acknowledge tag multiple).2) := by
  have hanswer := acknowledge_fst t tag multiple
  rw [overruns_of_fits hfits, if_neg Bool.false_ne_true] at hanswer
  rw [← hanswer]

theorem bytes_acknowledge {t : Tracker M} {tag : Tag} {multiple : Bool}
    (hfits : Delivery.weight (t.selected tag multiple) < UInt64.size) :
    (t.acknowledge tag multiple).2.bytes.toNat = t.bytes.toNat - Delivery.weight (t.selected tag multiple) := by
  cases multiple with
  | false =>
    have hone := bytes_remove t tag
    rw [remove_fst] at hone
    rw [acknowledge_single]
    exact hone
  | true => rw [acknowledge_bytes (overruns_of_fits hfits), toNat_subSaturating, toNat_wordSum hfits]

theorem answered_cons (t : Tracker M) (r : Receipt) (rest : List Receipt) :
    t.answered (r :: rest) =
      returned ⟨t, .acknowledge r.tag r.multiple⟩ ++ (t.acknowledge r.tag r.multiple).2.answered rest := rfl

theorem settled_cons (t : Tracker M) (r : Receipt) (rest : List Receipt) :
    t.settled (r :: rest) = (t.acknowledge r.tag r.multiple).2.settled rest := rfl

/-- What a receipt finds and what the others find after it is all that they cover. -/
theorem weight_covered_cons (t : Tracker M) (r : Receipt) (rest : List Receipt) :
    Delivery.weight (t.outstanding.entries.filter fun e => coveredBy (r :: rest) e.tag) =
      Delivery.weight (t.selected r.tag r.multiple) +
        Delivery.weight ((t.acknowledge r.tag r.multiple).2.outstanding.entries.filter fun e => coveredBy rest e.tag) := by
  have hfirst := weight_acknowledge t r.tag r.multiple
  have hrest := weight_perm (List.filter_append_perm (fun e : Entry M => coveredBy rest e.tag)
    (t.acknowledge r.tag r.multiple).2.outstanding.entries)
  have hall := weight_perm (List.filter_append_perm (fun e : Entry M => coveredBy (r :: rest) e.tag) t.outstanding.entries)
  -- the same entries are covered by neither
  have hkept : ((t.acknowledge r.tag r.multiple).2.outstanding.entries.filter fun e => !coveredBy rest e.tag) =
      t.outstanding.entries.filter fun e => !coveredBy (r :: rest) e.tag := by
    have h := entries_acknowledged (t.acknowledge r.tag r.multiple).2 rest
    rw [← h, ← settled_cons]
    exact entries_acknowledged t (r :: rest)
  rw [weight_append] at hrest hall
  rw [hkept] at hrest
  simp only [weight] at hfirst
  omega

theorem bytes_settled {t : Tracker M} {receipts : List Receipt}
    (hfits : Delivery.weight (t.outstanding.entries.filter fun e => coveredBy receipts e.tag) < UInt64.size) :
    (t.settled receipts).bytes.toNat =
      t.bytes.toNat - Delivery.weight (t.outstanding.entries.filter fun e => coveredBy receipts e.tag) := by
  induction receipts generalizing t with
  | nil =>
    have hnone : (t.outstanding.entries.filter fun e => coveredBy [] e.tag) = [] := List.filter_false _
    rw [hnone]
    rfl
  | cons r rest ih =>
    rw [weight_covered_cons] at hfits ⊢
    have hfirst : (t.acknowledge r.tag r.multiple).2.bytes.toNat =
        t.bytes.toNat - Delivery.weight (t.selected r.tag r.multiple) := bytes_acknowledge (by omega)
    have hrest := ih (t := (t.acknowledge r.tag r.multiple).2) (by omega)
    rw [settled_cons]
    omega

/-! ## One at a time -/

/-- A receipt for each of the tags. -/
def singles (tags : List Tag) : List Receipt := tags.map fun tag => ⟨tag, false⟩

theorem returned_single (t : Tracker M) (tag : Tag) :
    returned ⟨t, .acknowledge tag false⟩ = ((t.remove tag).1.map (Entry.mk tag)).toList := by
  simp only [returned, step, acknowledge_single, Answer.ofOutcome]

theorem answered_singles (t : Tracker M) (tags : List Tag) : t.answered (singles tags) = (t.removeEach tags).1 := by
  induction tags generalizing t with
  | nil => rfl
  | cons tag rest ih =>
    have hcons : singles (tag :: rest) = ⟨tag, false⟩ :: singles rest := rfl
    rw [hcons, answered_cons, returned_single, acknowledge_single, removeEach_cons, ih]

theorem settled_singles (t : Tracker M) (tags : List Tag) : t.settled (singles tags) = (t.removeEach tags).2 := by
  induction tags generalizing t with
  | nil => rfl
  | cons tag rest ih =>
    have hcons : singles (tag :: rest) = ⟨tag, false⟩ :: singles rest := rfl
    rw [hcons, settled_cons, acknowledge_single, removeEach_cons, ih]

theorem removeEach_tags (t : Tracker M) (tags : List Tag) : ((t.removeEach tags).1.map (·.tag)).Sublist tags := by
  induction tags generalizing t with
  | nil => exact .slnil
  | cons tag rest ih =>
    have hrest := ih (t.remove tag).2
    rw [removeEach_cons]
    cases (t.remove tag).1 with
    | none => exact .cons tag hrest
    | some message => exact .cons_cons tag hrest

theorem removeEach_ascending (t : Tracker M) {tags : List Tag} (h : tags.Pairwise (· < ·)) :
    (t.removeEach tags).1 = t.outstanding.entries.filter fun e => tags.contains e.tag := by
  have hasc : Ascending (t.removeEach tags).1 := List.pairwise_map.mp (h.sublist (removeEach_tags t tags))
  refine hasc.eq_of_mem_iff (t.outstanding.ascending.filter _) fun e => ?_
  have hsorted : (t.removeAll tags).1.Perm (t.removeEach tags).1 := List.mergeSort_perm _ _
  rw [← hsorted.mem_iff, removeAll_fst]

/-! ## All at once -/

def tagsUpTo (t : Tracker M) (tag : Tag) : List Tag := t.tags.filter (· ≤ tag)

omit [Message M] in
theorem tagsUpTo_ascending (t : Tracker M) (tag : Tag) : (t.tagsUpTo tag).Pairwise (· < ·) :=
  (List.pairwise_map.mpr t.outstanding.ascending).filter _

omit [Message M] in
theorem contains_tagsUpTo {t : Tracker M} {tag : Tag} {e : Entry M} (he : e ∈ t.outstanding.entries) :
    (t.tagsUpTo tag).contains e.tag = covers tag true e.tag := by
  have hin : e.tag ∈ t.tags := TagMap.mem_tags_of_mem he
  simp [tagsUpTo, covers, hin]

theorem answered_singles_upTo (t : Tracker M) (tag : Tag) :
    t.answered (singles (t.tagsUpTo tag)) = t.selected tag true := by
  rw [answered_singles, removeEach_ascending t (t.tagsUpTo_ascending tag), selected_eq]
  exact List.filter_congr fun e he => contains_tagsUpTo he

theorem singles_agree (t : Tracker M) (tag : Tag) :
    Agrees (t.answered (singles (t.tagsUpTo tag)), t.settled (singles (t.tagsUpTo tag))) (t.acknowledge tag true) := by
  have houtstanding : (t.settled (singles (t.tagsUpTo tag))).outstanding = (t.acknowledge tag true).2.outstanding := by
    refine TagMap.ext ?_
    rw [settled_singles, removeEach_entries, acknowledge_entries]
    exact List.filter_congr fun e he => by rw [contains_tagsUpTo he]
  refine ⟨houtstanding, fun hfits => ?_⟩
  rw [answered_singles_upTo] at hfits
  have hsingles := bytes_removeEach t (t.tagsUpTo tag)
  rw [← settled_singles, ← answered_singles, answered_singles_upTo] at hsingles
  have hbytes : (t.settled (singles (t.tagsUpTo tag))).bytes = (t.acknowledge tag true).2.bytes :=
    UInt64.toNat_inj.mp (hsingles.trans (bytes_acknowledge hfits).symm)
  rw [acknowledge_of_fits hfits, answered_singles_upTo, Tracker.ext houtstanding hbytes]

/-- What a receipt up to a lower tag selects, and what one up to a higher tag selects after it. -/
theorem selected_append (t : Tracker M) {a b : Tag} (hab : a ≤ b) :
    t.selected a true ++ (t.acknowledge a true).2.selected b true = t.selected b true := by
  have hkept : ∀ e, e ∈ (t.acknowledge a true).2.outstanding.entries ↔ e ∈ t.outstanding.entries ∧ a < e.tag := by
    intro e
    rw [acknowledge_entries, List.mem_filter]
    simp [covers]
  refine ((ascending_selected t a true).append (ascending_selected _ b true) a ?_ ?_).eq_of_mem_iff
    (ascending_selected t b true) ?_
  · intro e he
    rw [selected_eq] at he
    simpa [covers] using (List.mem_filter.mp he).2
  · intro e he
    rw [selected_eq] at he
    exact ((hkept e).mp (List.mem_filter.mp he).1).2
  · intro e
    simp only [selected_eq, List.mem_append, List.mem_filter, hkept, covers, if_true, decide_eq_true_eq]
    constructor
    · rintro (⟨he, hle⟩ | ⟨⟨he, -⟩, hle⟩)
      · exact ⟨he, UInt64.le_trans hle hab⟩
      · exact ⟨he, hle⟩
    · rintro ⟨he, hle⟩
      by_cases ha : e.tag ≤ a
      · exact .inl ⟨he, ha⟩
      · exact .inr ⟨⟨he, UInt64.not_le.mp ha⟩, hle⟩

/-- Two receipts keep what the one up to the higher tag keeps. -/
theorem outstanding_twice (t : Tracker M) {a b : Tag} (hab : a ≤ b) :
    ((t.acknowledge a true).2.acknowledge b true).2.outstanding = (t.acknowledge b true).2.outstanding := by
  refine TagMap.ext ?_
  rw [acknowledge_entries, acknowledge_entries, acknowledge_entries, List.filter_filter]
  refine List.filter_congr fun e _ => ?_
  by_cases hle : e.tag ≤ a
  · simp [covers, hle, UInt64.le_trans hle hab]
  · simp [covers, hle]

/-- A receipt up to a lower tag, handed in before, changes nothing together. -/
theorem acknowledge_twice {t : Tracker M} {a b : Tag} (hab : a ≤ b)
    (hfits : Delivery.weight (t.selected b true) < UInt64.size) :
    (t.acknowledge a true).1 = .returned (t.selected a true) ∧
    (t.acknowledge a true).2.acknowledge b true =
      (.returned ((t.acknowledge a true).2.selected b true), (t.acknowledge b true).2) := by
  have hsplit : Delivery.weight (t.selected a true) + Delivery.weight ((t.acknowledge a true).2.selected b true) =
      Delivery.weight (t.selected b true) := by
    rw [← weight_append, selected_append t hab]
  have hfirst : Delivery.weight (t.selected a true) < UInt64.size := by omega
  have hsecond : Delivery.weight ((t.acknowledge a true).2.selected b true) < UInt64.size := by omega
  have hone := bytes_acknowledge hfirst
  have htwo := bytes_acknowledge hsecond
  have hboth := bytes_acknowledge hfits
  have hbytes : ((t.acknowledge a true).2.acknowledge b true).2.bytes = (t.acknowledge b true).2.bytes :=
    UInt64.toNat_inj.mp (by omega)
  refine ⟨congrArg Prod.fst (acknowledge_of_fits hfirst), ?_⟩
  rw [acknowledge_of_fits hsecond, Tracker.ext (outstanding_twice t hab) hbytes]

/-- Of any tracker and any tag, the last one included. A cumulative acknowledgement keeps exactly the
    entries above the tag. So do acknowledging each tag outstanding up to it, one after the other in
    ascending order, and a cumulative acknowledgement up to any lower tag followed by its own. If a
    word holds the sizes of the entries up to the tag, all three answer exactly these, in ascending
    order, and leave the same tracker; the single acknowledgements answer them in any case. -/
theorem cumulative_as_singles (t : Tracker M) (tag : Tag) :
    let cumulative := t.acknowledge tag true
    let upTo := t.answered (singles (t.tagsUpTo tag))
    (∀ e, e ∈ cumulative.2.outstanding.entries ↔ e ∈ t.outstanding.entries ∧ tag < e.tag) ∧
    Ascending upTo ∧ (∀ e, e ∈ upTo ↔ e ∈ t.outstanding.entries ∧ e.tag ≤ tag) ∧
    Agrees (upTo, t.settled (singles (t.tagsUpTo tag))) cumulative ∧
    (∀ a ≤ tag, ((t.acknowledge a true).2.acknowledge tag true).2.outstanding = cumulative.2.outstanding) ∧
    (Delivery.weight upTo < UInt64.size →
      cumulative.1 = .returned upTo ∧
      ∀ a ≤ tag, ∃ first second, (t.acknowledge a true).1 = .returned first ∧
        (t.acknowledge a true).2.acknowledge tag true = (.returned second, cumulative.2) ∧ first ++ second = upTo) := by
  intro cumulative upTo
  have hupTo : upTo = t.selected tag true := answered_singles_upTo t tag
  refine ⟨?_, ?_, ?_, singles_agree t tag, fun a ha => outstanding_twice t ha, fun hfits => ?_⟩
  · intro e
    rw [acknowledge_entries, List.mem_filter]
    simp [covers]
  · rw [hupTo]
    exact ascending_selected t tag true
  · intro e
    rw [hupTo, selected_eq, List.mem_filter]
    simp [covers]
  · rw [hupTo] at hfits ⊢
    refine ⟨congrArg Prod.fst (acknowledge_of_fits hfits), fun a ha => ?_⟩
    obtain ⟨hfirst, hsecond⟩ := acknowledge_twice ha hfits
    exact ⟨_, _, hfirst, hsecond, selected_append t ha⟩

/-- The last tag there is has no tag behind it to cut at. Everything is acknowledged up to it: at
    once, after all up to 6, and one at a time. The last delivery weighs as much as 64 bits hold
    beside the others. -/
theorem last_tag_as_singles :
    letI := Consumer.sized
    let t : Tracker Nat := final next empty [.add 1 10, .add 5 20, .add maxWord (2 ^ 64 - 31)]
    let all : List (Entry Nat) := [⟨1, 10⟩, ⟨5, 20⟩, ⟨maxWord, 2 ^ 64 - 31⟩]
    following? maxWord = none ∧ Delivery.weight all < UInt64.size ∧ (6 : Tag) ≤ maxWord ∧
      t.answered [⟨1, false⟩, ⟨5, false⟩, ⟨maxWord, false⟩] = all ∧ t.acknowledge maxWord true = (.returned all, empty) ∧
      t.settled [⟨1, false⟩, ⟨5, false⟩, ⟨maxWord, false⟩] = empty ∧
      ∃ first second, (t.acknowledge 6 true).1 = .returned first ∧
        (t.acknowledge 6 true).2.acknowledge maxWord true = (.returned second, empty) ∧ first ++ second = all := by
  let _ := Consumer.sized
  intro t all
  have hlower : (6 : Tag) ≤ maxWord := by decide
  have htags : t.tagsUpTo maxWord = [1, 5, maxWord] := by decide
  have hanswer : t.answered (singles (t.tagsUpTo maxWord)) = all := by
    rw [htags]
    decide +kernel
  have hfits : Delivery.weight all < UInt64.size := by decide
  obtain ⟨-, -, -, hsingles, -, hcumulative⟩ := cumulative_as_singles t maxWord
  rw [hanswer] at hsingles hcumulative
  have hend : (t.acknowledge maxWord true).2 = empty :=
    Tracker.ext (TagMap.ext (by decide +kernel)) (by decide +kernel)
  obtain ⟨hreturned, hearlier⟩ := hcumulative hfits
  rw [hend] at hearlier
  have hsettled : t.settled (singles (t.tagsUpTo maxWord)) = (t.acknowledge maxWord true).2 :=
    (congrArg Prod.snd (hsingles.eq_of_fits hfits)).symm
  rw [htags, hend] at hsettled
  rw [htags] at hanswer
  exact ⟨by decide, hfits, hlower, hanswer, Prod.ext hreturned hend, hsettled, hearlier 6 hlower⟩

/-- Two deliveries that a word does not hold together. One at a time they are answered; at once they
    are gone without an answer, and the total is as before. -/
theorem too_heavy_only_as_singles :
    letI := Consumer.sized
    let t : Tracker Nat := final next empty [.add 1 (2 ^ 63), .add 2 (2 ^ 63)]
    t.tagsUpTo 2 = [1, 2] ∧ t.answered (singles [1, 2]) = [⟨1, 2 ^ 63⟩, ⟨2, 2 ^ 63⟩] ∧
      (t.acknowledge 2 true).1 = .raised .overflow ∧ (t.acknowledge 2 true).2.outstanding.entries = [] ∧
      (t.acknowledge 2 true).2.bytes = t.bytes ∧ ∀ removed, (t.acknowledge 2 true).1 ≠ .returned removed := by
  let _ := Consumer.sized
  intro t
  have hraised : (t.acknowledge 2 true).1 = .raised .overflow := by decide +kernel
  refine ⟨by decide, by decide +kernel, hraised, by decide +kernel, by decide +kernel, fun removed => ?_⟩
  rw [hraised]
  exact nofun

end Tracker

end MessageBroker.Delivery
