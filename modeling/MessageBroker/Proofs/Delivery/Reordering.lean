/-
  MessageBroker.Proofs.Delivery.Reordering — acknowledgements may come in any order.

  Several callers acknowledge deliveries of one tracker, some one tag at a time, some all tags up
  to one. Which of the requests takes out an entry that several of them cover is a matter of
  their order. What they take out together is not: it is every entry that some request covers.
  Whether they answer with it can be: a cumulative request that finds more than a word holds
  answers nothing, and finds less after others.
  - `entries_acknowledged`: what no request covers stays.
  - `covered_acknowledged`: what the requests answer and what they lose is what some request covers.
  - `exact_acknowledged`: a total that was the true sum is the true sum of what stays.
  - `acknowledged_in_any_order`: none of the three says in which order the requests came, and
    nothing is lost if a word holds the sizes of what is covered.
  - `order_decides_what_is_lost`: if it does not, something can be.
-/

import MessageBroker.Proofs.Delivery.Sizes

namespace MessageBroker.Delivery.Tracker

open History

/-- Which deliveries someone acknowledges: one tag, or with `multiple` all up to it. -/
structure Receipt where
  tag : Tag
  multiple : Bool
  deriving DecidableEq, Repr

def coveredBy (receipts : List Receipt) (tag : Tag) : Bool := receipts.any fun r => covers r.tag r.multiple tag

theorem coveredBy_perm {receipts receipts' : List Receipt} (h : receipts.Perm receipts') :
    coveredBy receipts = coveredBy receipts' :=
  funext fun _ => h.any_eq

variable {M : Type}

def acknowledging (receipts : List Receipt) : List (Request M) := receipts.map fun r => .acknowledge r.tag r.multiple

variable [Message M]

def settled (t : Tracker M) (receipts : List Receipt) : Tracker M := final next t (acknowledging receipts)

def answered (t : Tracker M) (receipts : List Receipt) : List (Entry M) :=
  (moments next t (acknowledging receipts)).flatMap returned

def spilled (t : Tracker M) (receipts : List Receipt) : List (Entry M) :=
  (moments next t (acknowledging receipts)).flatMap lost

theorem entries_acknowledged (t : Tracker M) (receipts : List Receipt) :
    (t.settled receipts).outstanding.entries = t.outstanding.entries.filter fun e => !coveredBy receipts e.tag := by
  induction receipts generalizing t with
  | nil => exact (List.filter_eq_self.mpr fun _ _ => rfl).symm
  | cons r rest ih =>
    have hfirst : (t.next (.acknowledge r.tag r.multiple)).outstanding.entries =
        t.outstanding.entries.filter fun e => !covers r.tag r.multiple e.tag := acknowledge_entries t r.tag r.multiple
    have hrest := ih (t.next (.acknowledge r.tag r.multiple))
    rw [hfirst, List.filter_filter] at hrest
    refine hrest.trans (List.filter_congr fun e _ => ?_)
    simp only [coveredBy, List.any_cons, Bool.not_or, Bool.and_comm]

theorem files_and_drops_nothing {t : Tracker M} {receipts : List Receipt} {m : Moment (Tracker M) (Request M)}
    (h : m ∈ moments next t (acknowledging receipts)) : accepted m = [] ∧ dropped m = [] := by
  have hevents : (moments next t (acknowledging receipts)).map Moment.event = acknowledging receipts :=
    map_event_moments t (acknowledging receipts)
  have hevent : m.event ∈ acknowledging receipts := hevents ▸ List.mem_map_of_mem h
  obtain ⟨r, -, hr⟩ := List.mem_map.mp hevent
  obtain ⟨before, event⟩ := m
  subst hr
  exact ⟨rfl, rfl⟩

theorem covered_acknowledged (t : Tracker M) (receipts : List Receipt) :
    (t.answered receipts ++ t.spilled receipts).Perm
      (t.outstanding.entries.filter fun e => coveredBy receipts e.tag) := by
  have haccepted : (moments next t (acknowledging receipts)).flatMap accepted = [] :=
    List.flatMap_eq_nil_iff.mpr fun m hm => (files_and_drops_nothing hm).1
  have hdropped : (moments next t (acknowledging receipts)).flatMap dropped = [] :=
    List.flatMap_eq_nil_iff.mpr fun m hm => (files_and_drops_nothing hm).2
  have hbalance : ((t.settled receipts).outstanding.entries ++ t.answered receipts ++
      ((moments next t (acknowledging receipts)).flatMap dropped ++ t.spilled receipts)).Perm
      (t.outstanding.entries ++ (moments next t (acknowledging receipts)).flatMap accepted) :=
    run_balance t (acknowledging receipts)
  rw [haccepted, hdropped, List.append_nil, List.nil_append, List.append_assoc, entries_acknowledged] at hbalance
  have hsplit := List.filter_append_perm (fun e : Entry M => coveredBy receipts e.tag) t.outstanding.entries
  exact (List.perm_append_left_iff _).mp (hbalance.trans (hsplit.symm.trans List.perm_append_comm))

/-- Nothing is lost if a word holds the sizes of all that is covered. -/
theorem spilled_of_fits {t : Tracker M} {receipts : List Receipt}
    (hfits : Delivery.weight (t.outstanding.entries.filter fun e => coveredBy receipts e.tag) < UInt64.size) :
    t.spilled receipts = [] := by
  refine List.flatMap_eq_nil_iff.mpr fun m hm => ?_
  by_cases hlost : lost m = []
  · exact hlost
  · obtain ⟨_, -, -, hheavy⟩ := lost_cases m hlost
    obtain ⟨past, later, hsplit⟩ := List.append_of_mem hm
    have hspilled : t.spilled receipts = past.flatMap lost ++ (lost m ++ later.flatMap lost) := by
      rw [spilled, hsplit, List.flatMap_append, List.flatMap_cons]
    have hweight := weight_perm (covered_acknowledged t receipts)
    rw [hspilled, weight_append, weight_append, weight_append] at hweight
    omega

theorem returned_of_fits {t : Tracker M} {receipts : List Receipt}
    (hfits : Delivery.weight (t.outstanding.entries.filter fun e => coveredBy receipts e.tag) < UInt64.size) :
    (t.answered receipts).Perm (t.outstanding.entries.filter fun e => coveredBy receipts e.tag) := by
  have hcovered := covered_acknowledged t receipts
  rwa [spilled_of_fits hfits, List.append_nil] at hcovered

/-- A total that is the true sum stays so: an acknowledgement only subtracts what was added. -/
theorem exact_acknowledged {t : Tracker M} (h : t.Exact) (receipts : List Receipt) : (t.settled receipts).Exact := by
  induction receipts generalizing t with
  | nil => exact h
  | cons r rest ih =>
    have hkept := weight_acknowledge t r.tag r.multiple
    have hbound := t.bytes.toNat_lt
    have hexact : t.bytes.toNat = t.weight := h
    have hfits : (t.next (.acknowledge r.tag r.multiple)).Fits := by
      show (t.acknowledge r.tag r.multiple).2.weight < UInt64.size
      simp only [UInt64.size]
      omega
    exact ih (exact_next h (.acknowledge r.tag r.multiple) hfits).1

/-- The total is a word, so nothing that is added up by receipts is too large for one. -/
theorem Exact.fits_covered {t : Tracker M} (h : t.Exact) (receipts : List Receipt) :
    Delivery.weight (t.outstanding.entries.filter fun e => coveredBy receipts e.tag) < UInt64.size := by
  have hsplit := weight_perm (List.filter_append_perm (fun e : Entry M => coveredBy receipts e.tag) t.outstanding.entries)
  have hexact : t.bytes.toNat = Delivery.weight t.outstanding.entries := h
  have hbound := t.bytes.toNat_lt
  rw [weight_append] at hsplit
  simp only [UInt64.size]
  omega

/-- The same receipts in two orders, on any tracker. They leave the same entries, which are those
    that none of them covers; what they hand over and what they lose are together the same entries,
    each of them once, which are those that some receipt covers. If a word holds the sizes of these,
    as it does where the total was the true sum, nothing is lost, and both orders hand over the same;
    and if the total was the true sum, they leave the same total, the true sum of what is left. -/
theorem acknowledged_in_any_order (t : Tracker M) {receipts receipts' : List Receipt}
    (reordered : receipts.Perm receipts') :
    let covered := t.outstanding.entries.filter fun e => coveredBy receipts e.tag
    let taken := t.answered receipts ++ t.spilled receipts
    (t.settled receipts).outstanding = (t.settled receipts').outstanding ∧
    taken.Perm (t.answered receipts' ++ t.spilled receipts') ∧
    taken.Nodup ∧
    (∀ e, (e ∈ taken ↔ e ∈ t.outstanding.entries ∧ coveredBy receipts e.tag = true) ∧
      (e ∈ (t.settled receipts).outstanding.entries ↔ e ∈ t.outstanding.entries ∧ coveredBy receipts e.tag = false)) ∧
    (Delivery.weight covered < UInt64.size →
      t.spilled receipts = [] ∧ t.spilled receipts' = [] ∧ (t.answered receipts).Perm (t.answered receipts')) ∧
    (t.Exact → Delivery.weight covered < UInt64.size ∧
      (t.settled receipts).bytes = (t.settled receipts').bytes ∧ (t.settled receipts).Exact) := by
  intro covered taken
  have hleft : (t.settled receipts).outstanding = (t.settled receipts').outstanding := by
    refine TagMap.ext ?_
    rw [entries_acknowledged, entries_acknowledged, coveredBy_perm reordered]
  have htaken : taken.Perm covered := covered_acknowledged t receipts
  have hsame : covered = t.outstanding.entries.filter fun e => coveredBy receipts' e.tag := by
    rw [← coveredBy_perm reordered]
  refine ⟨hleft, ?_, ?_, ?_, ?_, ?_⟩
  · refine htaken.trans ?_
    rw [hsame]
    exact (covered_acknowledged t receipts').symm
  · exact htaken.nodup_iff.mpr ((Ascending.nodup t.outstanding.ascending).filter _)
  · intro e
    constructor
    · rw [htaken.mem_iff, List.mem_filter]
    · rw [entries_acknowledged, List.mem_filter, Bool.not_eq_true']
  · intro hfits
    have hfits' : Delivery.weight (t.outstanding.entries.filter fun e => coveredBy receipts' e.tag) < UInt64.size :=
      hsame ▸ hfits
    refine ⟨spilled_of_fits hfits, spilled_of_fits hfits', (returned_of_fits hfits).trans ?_⟩
    show covered.Perm _
    rw [hsame]
    exact (returned_of_fits hfits').symm
  · intro hexact
    have h : (t.settled receipts).bytes.toNat = (t.settled receipts).weight := exact_acknowledged hexact receipts
    have h' : (t.settled receipts').bytes.toNat = (t.settled receipts').weight := exact_acknowledged hexact receipts'
    refine ⟨hexact.fits_covered receipts, UInt64.toNat_inj.mp ?_, h⟩
    rw [h, h', weight, weight, hleft]

/-- Four deliveries, of which three are acknowledged: the cumulative receipt covers all three, and
    answers with those that have not been acknowledged before it. -/
theorem overlapping_receipts_reordered :
    letI := Consumer.sized
    let t : Tracker Nat := final next empty [.add 1 10, .add 2 20, .add 3 30, .add 4 40]
    let receipts : List Receipt := [⟨1, false⟩, ⟨3, true⟩, ⟨2, false⟩]
    let receipts' : List Receipt := [⟨2, false⟩, ⟨3, true⟩, ⟨1, false⟩]
    receipts.Perm receipts' ∧ t.Exact ∧ t.answered receipts = [⟨1, 10⟩, ⟨2, 20⟩, ⟨3, 30⟩] ∧
      (t.answered receipts').Perm [⟨1, 10⟩, ⟨2, 20⟩, ⟨3, 30⟩] ∧ t.answered receipts' = [⟨2, 20⟩, ⟨1, 10⟩, ⟨3, 30⟩] ∧
      (t.settled receipts').outstanding.entries = [⟨4, 40⟩] ∧ (t.settled receipts').bytes = 40 := by
  let _ := Consumer.sized
  intro t receipts receipts'
  have hreordered : receipts.Perm receipts' := by decide
  have hexact : t.Exact := by
    show t.bytes.toNat = t.weight
    decide
  obtain ⟨hleft, -, -, -, hanswered, htotal⟩ := acknowledged_in_any_order t hreordered
  obtain ⟨hfits, hbytes, -⟩ := htotal hexact
  have hfirst : t.answered receipts = [⟨1, 10⟩, ⟨2, 20⟩, ⟨3, 30⟩] := by decide +kernel
  refine ⟨hreordered, hexact, hfirst, hfirst ▸ (hanswered hfits).2.2.symm, by decide +kernel, ?_, ?_⟩
  · rw [← hleft]
    decide +kernel
  · rw [← hbytes]
    decide +kernel

/-- Two deliveries that a word does not hold together, acknowledged by a receipt for the first and one
    for both. In this order both are handed over, in the other none is. -/
theorem order_decides_what_is_lost :
    letI := Consumer.sized
    let t : Tracker Nat := final next empty [.add 1 (2 ^ 63), .add 2 (2 ^ 63)]
    let receipts : List Receipt := [⟨1, false⟩, ⟨2, true⟩]
    receipts.Perm receipts.reverse ∧ t.answered receipts = [⟨1, 2 ^ 63⟩, ⟨2, 2 ^ 63⟩] ∧
      t.answered receipts.reverse = [] ∧ t.spilled receipts.reverse = [⟨1, 2 ^ 63⟩, ⟨2, 2 ^ 63⟩] ∧
      ¬(t.answered receipts).Perm (t.answered receipts.reverse) := by
  decide +kernel

end MessageBroker.Delivery.Tracker
