/-
  MessageBroker.Proofs.Delivery.Sizes — the byte total of a tracker is exact while 64 bits hold it.

  A tracker does not add up the sizes of its entries when it is asked for their total: it adds
  and subtracts along with them, in words that stop at their bounds. `weight` is the sum as it
  should be, without bounds.
  - `toNat_wordSum`: a sum of words is the weight, if a word holds that.
  - `Exact`, `Unsaturated`: the total is the weight; a request adds what fits and subtracts
    what is there.
  - `exact_next`: a request to an exact tracker keeps it exact, and reaches no bound, if the
    weight that it leaves fits in 64 bits.
  - `totals_exact`: so does every run of a consumer, its transactions, and others who share its
    tracker, as each of their requests is at most one to the tracker (`tracker_next`).
-/

import Mathlib.Algebra.Ring.Nat
import Mathlib.Data.List.Infix
import MessageBroker.Proofs.Delivery.Consumer

namespace MessageBroker.Delivery

variable {M : Type} [Message M]

/-! ## Weights -/

@[simp] theorem weight_nil : weight ([] : List (Entry M)) = 0 := rfl

@[simp] theorem weight_cons (e : Entry M) (l : List (Entry M)) :
    weight (e :: l) = (Message.size e.message).toNat + weight l := rfl

@[simp] theorem weight_append (l l' : List (Entry M)) : weight (l ++ l') = weight l + weight l' := by
  induction l with
  | nil => exact (Nat.zero_add _).symm
  | cons e rest ih => rw [List.cons_append, weight_cons, weight_cons, ih, Nat.add_assoc]

theorem weight_perm {l l' : List (Entry M)} (h : l.Perm l') : weight l = weight l' := by
  induction h with
  | nil => rfl
  | cons e _ ih => rw [weight_cons, weight_cons, ih]
  | swap e e' rest =>
    rw [weight_cons, weight_cons, weight_cons, weight_cons]
    omega
  | trans _ _ ih ih' => exact ih.trans ih'

namespace Tracker

theorem toNat_wordSum {l : List (Entry M)} (hfits : Delivery.weight l < UInt64.size) :
    (wordSum l).toNat = Delivery.weight l := by
  -- the fold carries the sum so far
  have hfold : ∀ (l : List (Entry M)) (sum : UInt64), sum.toNat + Delivery.weight l < UInt64.size →
      (l.foldl (fun sum e => sum + Message.size e.message) sum).toNat = sum.toNat + Delivery.weight l := by
    intro l
    induction l with
    | nil =>
      intro sum _
      rfl
    | cons e rest ih =>
      intro sum hsum
      rw [weight_cons] at hsum ⊢
      have hstep : (sum + Message.size e.message).toNat = sum.toNat + (Message.size e.message).toNat := by
        rw [UInt64.toNat_add, Nat.mod_eq_of_lt]
        simp only [UInt64.size] at hsum
        omega
      rw [List.foldl_cons, ih _ (by omega), hstep, Nat.add_assoc]
  have hzero := hfold l 0 (by rwa [UInt64.toNat_zero, Nat.zero_add])
  rwa [UInt64.toNat_zero, Nat.zero_add] at hzero

def weight (t : Tracker M) : Nat := Delivery.weight t.outstanding.entries

def Fits (t : Tracker M) : Prop := t.weight < UInt64.size

def Exact (t : Tracker M) : Prop := t.bytes.toNat = t.weight

def Affords (t : Tracker M) (tag : Tag) : Prop :=
  ∀ message, t.get? tag = some message → (Message.size message).toNat ≤ t.bytes.toNat

/-- The request reaches no bound of the total: what it adds fits in 64 bits, each size that it
    subtracts is there, and a word holds the sizes that it adds up. -/
def Unsaturated (t : Tracker M) : Request M → Prop
  | .add tag message => tag ∉ t.tags → t.bytes.toNat + (Message.size message).toNat < UInt64.size
  | .remove tag => t.Affords tag
  | .acknowledge tag multiple =>
    if multiple then
      (wordSum (t.selected tag true)).toNat = Delivery.weight (t.selected tag true) ∧
        (wordSum (t.selected tag true)).toNat ≤ t.bytes.toNat
    else t.Affords tag
  | .removeAll tags => ∀ first tag rest, tags = first ++ tag :: rest → (t.removeEach first).2.Affords tag
  | .cancelAll | .clear => True

/-! ## One request -/

theorem Exact.insert {t : Tracker M} (h : t.Exact) {tag : Tag} (hfree : tag ∉ t.tags) (message : M)
    (hroom : t.weight + (Message.size message).toNat < UInt64.size) :
    (⟨t.outstanding.insert tag message, addSaturating t.bytes (Message.size message)⟩ : Tracker M).Exact := by
  have hweight := weight_perm (insert_perm hfree message)
  simp only [weight_append, weight_cons, weight_nil] at hweight
  show (addSaturating t.bytes (Message.size message)).toNat = Delivery.weight _
  have hexact : t.bytes.toNat = t.weight := h
  rw [toNat_addSaturating, hweight, hexact]
  simp only [weight] at hroom ⊢
  omega

theorem Exact.affords {t : Tracker M} (h : t.Exact) (tag : Tag) : t.Affords tag := by
  intro message hget
  have hsplit := weight_perm (remove_perm t tag)
  have hexact : t.bytes.toNat = t.weight := h
  rw [remove_fst, hget] at hsplit
  simp only [Option.map_some, Option.toList_some, weight_append, weight_cons, weight_nil] at hsplit
  rw [hexact, weight, ← hsplit]
  omega

theorem Exact.remove {t : Tracker M} (h : t.Exact) (tag : Tag) : (t.remove tag).2.Exact := by
  have hsplit := weight_perm (remove_perm t tag)
  have hexact : t.bytes.toNat = t.weight := h
  cases hget : t.get? tag with
  | none =>
    have hsame : t.remove tag = (none, t) := by simp only [Tracker.remove, hget]
    rw [hsame]
    exact h
  | some message =>
    have hbytes : (t.remove tag).2.bytes = subSaturating t.bytes (Message.size message) := by
      simp only [Tracker.remove, hget]
    rw [remove_fst, hget] at hsplit
    simp only [Option.map_some, Option.toList_some, weight_append, weight_cons, weight_nil] at hsplit
    show (t.remove tag).2.bytes.toNat = Delivery.weight _
    rw [hbytes, toNat_subSaturating, hexact, weight, ← hsplit]
    omega

theorem Exact.removeEach {t : Tracker M} (h : t.Exact) (tags : List Tag) : (t.removeEach tags).2.Exact := by
  induction tags generalizing t with
  | nil => exact h
  | cons tag rest ih =>
    rw [removeEach_cons]
    exact ih (h.remove tag)

/-- What an acknowledgement selects and what it keeps weigh what there was. -/
theorem weight_acknowledge (t : Tracker M) (tag : Tag) (multiple : Bool) :
    (t.acknowledge tag multiple).2.weight + Delivery.weight (t.selected tag multiple) = t.weight := by
  have hsplit := weight_perm (acknowledge_perm t tag multiple)
  rw [weight_append] at hsplit
  exact hsplit

/-- The total is a word, so a word holds the sizes of what is outstanding together. -/
theorem Exact.fits_selected {t : Tracker M} (h : t.Exact) (tag : Tag) (multiple : Bool) :
    Delivery.weight (t.selected tag multiple) < UInt64.size := by
  have hsplit := weight_acknowledge t tag multiple
  have hexact : t.bytes.toNat = t.weight := h
  have hbound := t.bytes.toNat_lt
  simp only [UInt64.size]
  omega

/-- The entries that a cumulative acknowledgement takes out are added up before they are
    subtracted; being outstanding, they weigh no more than the total. -/
theorem Exact.acknowledge {t : Tracker M} (h : t.Exact) (tag : Tag) :
    (t.acknowledge tag true).2.Exact ∧ (wordSum (t.selected tag true)).toNat = Delivery.weight (t.selected tag true) ∧
      (wordSum (t.selected tag true)).toNat ≤ t.bytes.toNat := by
  have hsplit := weight_acknowledge t tag true
  have hexact : t.bytes.toNat = t.weight := h
  have hfits := h.fits_selected tag true
  have hsum := toNat_wordSum hfits
  refine ⟨?_, hsum, by omega⟩
  show (t.acknowledge tag true).2.bytes.toNat = (t.acknowledge tag true).2.weight
  rw [acknowledge_bytes (overruns_of_fits hfits), toNat_subSaturating, hsum]
  omega

/-- A request to an exact tracker leaves it exact, and reaches no bound, if what is outstanding
    after it fits in 64 bits. -/
theorem exact_next {t : Tracker M} (h : t.Exact) (r : Request M) (hfits : (t.next r).Fits) :
    (t.next r).Exact ∧ t.Unsaturated r := by
  cases r with
  | add tag message =>
    by_cases hin : tag ∈ t.tags
    · rw [next, step_add_of_mem hin]
      exact ⟨h, fun hout => absurd hin hout⟩
    · have hweight := weight_perm (insert_perm hin message)
      simp only [weight_append, weight_cons, weight_nil] at hweight
      rw [next, step_add_of_notMem hin] at hfits ⊢
      have hroom : t.weight + (Message.size message).toNat < UInt64.size := by
        simp only [Fits, weight] at hfits ⊢
        omega
      have hexact : t.bytes.toNat = t.weight := h
      exact ⟨h.insert hin message hroom, fun _ => by rw [hexact]; exact hroom⟩
  | remove tag => exact ⟨h.remove tag, h.affords tag⟩
  | acknowledge tag multiple =>
    cases multiple with
    | true => exact h.acknowledge tag
    | false =>
      refine ⟨?_, h.affords tag⟩
      show (t.acknowledge tag false).2.Exact
      rw [acknowledge_single]
      exact h.remove tag
  | removeAll tags => exact ⟨h.removeEach tags, fun first tag rest _ => (h.removeEach first).affords tag⟩
  | cancelAll | clear => exact ⟨rfl, trivial⟩

end Tracker

/-! ## Every run -/

namespace Consumer

open History

def asks (c : Consumer M) : Request M → Option (Tracker.Request M)
  | .deliver message => if c.session.hasCredit then some (.add c.session.nextTag message) else none
  | .acknowledge tag multiple => some (.acknowledge tag multiple)
  | .reject tag => some (.remove tag)
  | .close => if c.session.closed then none else some .cancelAll
  | .commit x => (c.opened x).map fun transaction => .removeAll transaction.staged.tags
  | .start _ | .stage _ _ _ | .discard _ => none
  | .shared r => some r

theorem tracker_next (c : Consumer M) (r : Request M) :
    (c.next r).session.tracker = (c.asks r).elim c.session.tracker c.session.tracker.next := by
  cases r with
  | deliver message =>
    have hcredit_of (h : c.session.closed = true) : c.session.hasCredit = false := by simp [Session.hasCredit, h]
    rcases c.session.deliver_cases message with ⟨hclosed, h⟩ | ⟨-, hspent, h⟩ | ⟨-, hcredit, htaken, h⟩ |
      ⟨-, hcredit, hfree, h⟩
    · simp [next, step_deliver_of_error h, asks, hcredit_of hclosed]
    · simp [next, step_deliver_of_error h, asks, hspent]
    · simp [next, step_deliver_of_error h, asks, hcredit, Tracker.next, Tracker.step_add_of_mem htaken]
    · simp [next, step_deliver_of_ok h, asks, hcredit, Tracker.next, Tracker.step_add_of_notMem hfree, Session.track]
  | acknowledge tag multiple | reject tag | shared r => rfl
  | close =>
    rcases c.session.close_cases with ⟨hclosed, h⟩ | ⟨hopen, h⟩
    · simp [next, step, h, asks, hclosed]
    · simp [next, step, h, asks, hopen, Tracker.next, Tracker.step, Tracker.cancelAll]
  | commit x =>
    cases hopened : c.opened x with
    | none => simp [next, step, asks, hopened]
    | some transaction => simp [next, step, asks, hopened, Transaction.commit, Tracker.next, Tracker.step]
  | start x | stage x tag multiple =>
    simp only [next, step, asks]
    split <;> rfl
  | discard x => rfl

/-- The total is exact, and no request has reached a bound of it. -/
structure Totalled (past : List (Moment (Consumer M) (Request M))) (c : Consumer M) : Prop where
  exact : c.session.tracker.Exact
  unsaturated : ∀ m ∈ past, ∀ r, m.before.asks m.event = some r → m.before.session.tracker.Unsaturated r

theorem Totalled.next {past : List (Moment (Consumer M) (Request M))} {c : Consumer M} (h : Totalled past c)
    (r : Request M) (hfits : (c.next r).session.tracker.Fits) : Totalled (past ++ [⟨c, r⟩]) (c.next r) := by
  have hstep : (c.next r).session.tracker.Exact ∧
      ∀ asked, c.asks r = some asked → c.session.tracker.Unsaturated asked := by
    rw [tracker_next] at hfits ⊢
    cases hasks : c.asks r with
    | none => exact ⟨h.exact, nofun⟩
    | some asked =>
      rw [hasks] at hfits
      obtain ⟨hexact, hunsaturated⟩ := Tracker.exact_next h.exact asked hfits
      exact ⟨hexact, fun other hsame => Option.some.inj hsame ▸ hunsaturated⟩
  refine ⟨hstep.1, ?_⟩
  intro m hm
  rcases List.mem_append.mp hm with hm | hm
  · exact h.unsaturated m hm
  · rw [List.mem_singleton.mp hm]
    exact hstep.2

/-- What fits all along a run is added up exactly. -/
theorem totalled (limit : Option Nat) (requests : List (Request M))
    (fits : ∀ first, first <+: requests → (final next (withLimit limit) first).session.tracker.Fits) :
    Totalled (moments next (withLimit limit) requests) (final next (withLimit limit) requests) := by
  refine along (fun past c => (∀ m ∈ past, m.before.session.tracker.Fits) → c.session.tracker.Fits → Totalled past c)
    ?_ ?_ requests ?_ ?_
  · intro _ _
    exact ⟨rfl, nofun⟩
  · intro past c r ih hpast hnow
    have hbefore := ih (fun m hm => hpast m (List.mem_append_left _ hm)) (hpast ⟨c, r⟩ (by simp))
    exact hbefore.next r hnow
  · intro m hm
    obtain ⟨past, later, hsplit⟩ := List.append_of_mem hm
    obtain ⟨earlier, rest, hevents, -, hbefore, -⟩ := moments_split hsplit
    rw [hbefore]
    exact fits earlier (hevents ▸ List.prefix_append earlier _)
  · exact fits requests List.prefix_rfl

/-- Of every run of a consumer, with any number of transactions open at once and others at the
    same tracker. As long as the sizes of what is outstanding never add up to more than 64 bits
    hold, the total is that sum after every request, and no request has reached a bound of it. -/
theorem totals_exact (limit : Option Nat) (requests : List (Request M))
    (fits : ∀ first, first <+: requests →
      (final next (withLimit limit) first).session.tracker.weight < UInt64.size) :
    (∀ first, first <+: requests →
      (final next (withLimit limit) first).session.tracker.bytes.toNat =
        (final next (withLimit limit) first).session.tracker.weight) ∧
    ∀ m ∈ moments next (withLimit limit) requests, ∀ r, m.before.asks m.event = some r →
      m.before.session.tracker.Unsaturated r := by
  constructor
  · intro first hfirst
    exact (totalled limit first fun earlier h => fits earlier (h.trans hfirst)).exact
  · exact (totalled limit requests fits).unsaturated

/-- Two deliveries fill the 64 bits. The first is rejected and another as large is filed by someone
    else, before the transaction that staged both deliveries takes out the second. -/
def filled : List (Request Nat) :=
  [.deliver (2 ^ 63), .deliver (2 ^ 63 - 1), .start 0, .stage 0 2 true, .reject 1, .shared (.add 7 (2 ^ 63)), .commit 0,
    .deliver 12, .acknowledge 3 true, .close]

theorem filled_exact :
    letI := sized
    let after (n : Nat) := final next (withLimit none) (filled.take n)
    (∀ first, first <+: filled → (final next (withLimit none) first).session.tracker.weight < UInt64.size) ∧
    (after 2).session.tracker.bytes.toNat = 2 ^ 64 - 1 ∧ (after 6).session.tracker.bytes.toNat = 2 ^ 64 - 1 ∧
    (after 8).session.tracker.bytes.toNat = 2 ^ 63 + 12 ∧ (after 9).session.tracker.bytes.toNat = 2 ^ 63 := by
  let _ := sized
  intro after
  have fits : ∀ first, first <+: filled →
      (final next (withLimit none) first).session.tracker.weight < UInt64.size := by
    intro first hfirst
    have heach : ∀ first ∈ filled.inits, (final next (withLimit none) first).session.tracker.weight < UInt64.size := by
      decide
    exact heach first ((List.mem_inits first filled).mpr hfirst)
  have hexact (n : Nat) : (after n).session.tracker.bytes.toNat = (after n).session.tracker.weight :=
    (totals_exact none filled fits).1 _ (List.take_prefix n filled)
  refine ⟨fits, ?_, ?_, ?_, ?_⟩
  · rw [hexact]; decide
  · rw [hexact]; decide
  · rw [hexact]; decide
  · rw [hexact]; decide

end Consumer

end MessageBroker.Delivery
