/-
  MessageBroker.Proofs.Delivery.Saturation — what a byte total is worth once it has saturated.

  Sizes may add up to more than 64 bits hold. Adding stops there, so the total may then be less
  than the true sum, and subtracting stops at zero, so it stays at most the true sum while what
  is taken out is subtracted. One request can fail to do so: a cumulative acknowledgement adds up
  the sizes that it has cut off, and if that sum raises, it subtracts nothing.
  - `Bounded`: the total is at most the true sum and what has been lost besides.
  - `Bounded.next`: every request keeps it so, with what it loses itself.
  - `total_at_most_sum`: it is so after every run, so the total is at most the true sum unless
    something was lost and the tracker has not been cancelled or cleared since.
  - `raised_sum_stays`: a sum that raises can leave a total for nothing.
-/

import MessageBroker.Proofs.Delivery.Sizes

namespace MessageBroker.Delivery.Tracker

open History

variable {M : Type}

def Request.resets : Request M → Bool
  | .cancelAll | .clear => true
  | _ => false

variable [Message M]

def Bounded (missing : Nat) (t : Tracker M) : Prop := t.bytes.toNat ≤ t.weight + missing

/-- What has been lost since the total was last reset. -/
def missing (past : List (Moment (Tracker M) (Request M))) : List (Entry M) :=
  past.foldl (fun gone m => if m.event.resets then [] else gone ++ lost m) []

theorem missing_snoc (past : List (Moment (Tracker M) (Request M))) (m : Moment (Tracker M) (Request M)) :
    missing (past ++ [m]) = if m.event.resets then [] else missing past ++ lost m := by
  simp only [missing, List.foldl_append, List.foldl_cons, List.foldl_nil]

/-! ## One request -/

theorem bounded_empty : (empty : Tracker M).Bounded 0 := Nat.le_refl 0

section
variable {t : Tracker M} {gone : Nat}

theorem Bounded.insert (h : t.Bounded gone) {tag : Tag} (hfree : tag ∉ t.tags) (message : M) :
    (⟨t.outstanding.insert tag message, addSaturating t.bytes (Message.size message)⟩ : Tracker M).Bounded gone := by
  have hweight := weight_perm (insert_perm hfree message)
  simp only [weight_append, weight_cons, weight_nil] at hweight
  have hbound : t.bytes.toNat ≤ t.weight + gone := h
  show (addSaturating t.bytes (Message.size message)).toNat ≤ Delivery.weight _ + gone
  rw [toNat_addSaturating, hweight]
  simp only [weight] at hbound
  omega

theorem Bounded.remove (h : t.Bounded gone) (tag : Tag) : (t.remove tag).2.Bounded gone := by
  have hsplit := weight_perm (remove_perm t tag)
  have hbound : t.bytes.toNat ≤ t.weight + gone := h
  cases hget : t.get? tag with
  | none =>
    have hsame : t.remove tag = (none, t) := by simp only [Tracker.remove, hget]
    rw [hsame]
    exact h
  | some message =>
    have hbytes : (t.remove tag).2.bytes = subSaturating t.bytes (Message.size message) := by
      simp only [Tracker.remove, hget]
    rw [remove_fst, hget] at hsplit
    simp only [Option.map_some, Option.toList_some, weight_append, weight_cons, weight_nil] at hsplit
    show (t.remove tag).2.bytes.toNat ≤ Delivery.weight _ + gone
    rw [hbytes, toNat_subSaturating]
    simp only [weight] at hbound
    omega

theorem Bounded.removeEach (h : t.Bounded gone) (tags : List Tag) : (t.removeEach tags).2.Bounded gone := by
  induction tags generalizing t with
  | nil => exact h
  | cons tag rest ih =>
    rw [removeEach_cons]
    exact ih (h.remove tag)

theorem Bounded.acknowledge (h : t.Bounded gone) (tag : Tag) :
    (t.acknowledge tag true).2.Bounded (gone + Delivery.weight (lost ⟨t, .acknowledge tag true⟩)) := by
  have hsplit := weight_acknowledge t tag true
  have hbound : t.bytes.toNat ≤ t.weight + gone := h
  show (t.acknowledge tag true).2.bytes.toNat ≤ (t.acknowledge tag true).2.weight + _
  rw [lost_acknowledge]
  by_cases hover : t.overruns tag true = true
  · have hbytes : (t.acknowledge tag true).2.bytes = t.bytes := by rw [acknowledge_of_overruns hover]
    rw [if_pos hover, hbytes]
    omega
  · have hfits : t.overruns tag true = false := Bool.not_eq_true _ ▸ hover
    rw [if_neg hover, acknowledge_bytes hfits, toNat_subSaturating, toNat_wordSum (fits_of_overruns hfits), weight_nil]
    omega

/-- Every request keeps the bound, with what it loses. -/
theorem Bounded.next (h : t.Bounded gone) (r : Request M) :
    (t.next r).Bounded (gone + Delivery.weight (lost ⟨t, r⟩)) := by
  cases r with
  | add tag message =>
    by_cases hin : tag ∈ t.tags
    · rw [Tracker.next, step_add_of_mem hin]
      exact h
    · rw [Tracker.next, step_add_of_notMem hin]
      exact h.insert hin message
  | remove tag => exact h.remove tag
  | acknowledge tag multiple =>
    cases multiple with
    | true => exact h.acknowledge tag
    | false =>
      rw [lost_acknowledge]
      show (t.acknowledge tag false).2.Bounded gone
      rw [acknowledge_single]
      exact h.remove tag
  | removeAll tags => exact h.removeEach tags
  | cancelAll | clear => exact Nat.zero_le _

end

theorem Bounded.bytes_eq_zero {t : Tracker M} (h : t.Bounded 0) (hempty : t.isEmpty = true) : t.bytes = 0 := by
  have hnone : t.outstanding.entries = [] := List.isEmpty_iff.mp hempty
  have hweight : t.weight = 0 := by rw [weight, hnone, weight_nil]
  have hbound : t.bytes.toNat ≤ t.weight + 0 := h
  refine UInt64.toNat_inj.mp ?_
  rw [UInt64.toNat_zero]
  omega

/-! ## Every run -/

theorem bounded (requests : List (Request M)) :
    (final next (empty : Tracker M) requests).Bounded
      (Delivery.weight (missing (moments next (empty : Tracker M) requests))) := by
  refine along (fun past (t : Tracker M) => t.Bounded (Delivery.weight (missing past))) bounded_empty ?_ requests
  intro past t r ih
  rw [missing_snoc]
  cases hresets : r.resets with
  | true =>
    -- cancelling and clearing leave no total
    cases r with
    | cancelAll | clear => exact bounded_empty
    | add | remove | acknowledge | removeAll => cases hresets
  | false =>
    rw [if_neg Bool.false_ne_true, weight_append]
    exact ih.next r

/-- Of every run from an empty tracker, however often its total has saturated. The total is at most
    the sum of the sizes outstanding and of what has been lost since somebody cancelled or cleared.
    So if nothing has, it is at most the sum of the sizes outstanding, and zero if nothing is. Lost is
    what a cumulative acknowledgement cuts off whose sizes a word does not hold together, and
    nothing else. -/
theorem total_at_most_sum (requests : List (Request M)) :
    let past := moments next (empty : Tracker M) requests
    let t := final next (empty : Tracker M) requests
    t.bytes.toNat ≤ t.weight + Delivery.weight (missing past) ∧
    (missing past = [] → t.bytes.toNat ≤ t.weight ∧ (t.isEmpty = true → t.bytes = 0)) ∧
    ∀ m ∈ past, lost m ≠ [] → ∃ tag, m.event = .acknowledge tag true ∧
      lost m = m.before.selected tag true ∧ UInt64.size ≤ Delivery.weight (lost m) := by
  intro past t
  have hbounded : t.Bounded (Delivery.weight (missing past)) := bounded requests
  refine ⟨hbounded, fun hnone => ?_, fun m _ => lost_cases m⟩
  rw [hnone] at hbounded
  exact ⟨hbounded, hbounded.bytes_eq_zero⟩

/-- Three deliveries, of which two saturate the total. They are taken out at once, which raises, and
    the tracker is cleared. Two more saturate it again. -/
def saturating : List (Request Nat) :=
  [.add 1 (2 ^ 63), .add 2 (2 ^ 63), .add 3 5, .acknowledge 2 true, .clear, .add 4 (2 ^ 64 - 1), .add 5 7,
    .acknowledge 4 true, .remove 5]

theorem saturating_at_most_sum :
    letI := Consumer.sized
    let after (n : Nat) := final next (empty : Tracker Nat) (saturating.take n)
    (after 4).bytes.toNat = 2 ^ 64 - 1 ∧ (after 4).weight = 5 ∧
    (after 4).bytes.toNat ≤ 5 + Delivery.weight [(⟨1, 2 ^ 63⟩ : Entry Nat), ⟨2, 2 ^ 63⟩] ∧
    missing (moments next empty (saturating.take 7)) = [] ∧ (after 7).bytes.toNat = 2 ^ 64 - 1 ∧
    (after 7).bytes.toNat ≤ (after 7).weight ∧ missing (moments next empty saturating) = [] ∧ (after 8).bytes = 0 ∧
    (after 8).weight = 7 ∧ (after 9).bytes = 0 := by
  let _ := Consumer.sized
  intro after
  have hfour : missing (moments next empty (saturating.take 4)) = [⟨1, 2 ^ 63⟩, ⟨2, 2 ^ 63⟩] := by decide +kernel
  have hseven : missing (moments next empty (saturating.take 7)) = [] := by decide +kernel
  have hall : missing (moments next empty saturating) = [] := by decide +kernel
  have hend : (after 9).isEmpty = true := by decide +kernel
  have hweight : (after 4).weight = 5 := by decide +kernel
  have hbound : (after 4).bytes.toNat ≤ 5 + Delivery.weight [(⟨1, 2 ^ 63⟩ : Entry Nat), ⟨2, 2 ^ 63⟩] := by
    rw [← hweight, ← hfour]
    exact (total_at_most_sum (saturating.take 4)).1
  refine ⟨by decide +kernel, hweight, hbound, hseven, by decide +kernel, ((total_at_most_sum _).2.1 hseven).1, hall,
    by decide +kernel, by decide +kernel, ?_⟩
  exact ((total_at_most_sum saturating).2.1 hall).2 hend

/-- Two deliveries that 64 bits do not hold together are taken out at once: the sum of their sizes
    raises when they are gone, and the whole of the saturated total stays for nothing. -/
theorem raised_sum_stays :
    letI := Consumer.sized
    let requests : List (Request Nat) := [.add 1 (2 ^ 63), .add 2 (2 ^ 63), .acknowledge 2 true]
    let t := final next (empty : Tracker Nat) requests
    (moments next empty requests).flatMap lost = [⟨1, 2 ^ 63⟩, ⟨2, 2 ^ 63⟩] ∧ t.isEmpty = true ∧ t.weight = 0 ∧
      t.bytes.toNat = 2 ^ 64 - 1 ∧ ¬t.bytes.toNat ≤ t.weight ∧ t.bytes ≠ 0 := by
  decide +kernel

end MessageBroker.Delivery.Tracker
