/-
  MessageBroker.Delivery.Tracker — deliveries that are not acknowledged yet.

  The tracker holds the messages in flight under their delivery tags, and the sum of
  their payload sizes as a 64-bit total. The total saturates: adding stops at the
  largest word, subtracting at zero. A cumulative acknowledgement first adds up the sizes
  it removes, and that sum does not saturate: one that is too large for a word raises.

  Each operation is one atomic step: it answers and gives the tracker afterwards. Only a
  cumulative acknowledgement can raise instead of answering, and it has changed the
  tracker when it does.
-/

import MessageBroker.Delivery.Message
import MessageBroker.Delivery.TagMap
import MessageBroker.Fault

namespace MessageBroker.Delivery

inductive TrackerError where
  | duplicateTag (tag : Tag)
  deriving DecidableEq, Repr

namespace TrackerError

def toError : TrackerError → Error
  | duplicateTag tag => .duplicateTag tag

def message (e : TrackerError) : String := e.toError.message

end TrackerError

/-! ## Saturating totals -/

def maxWord : UInt64 := UInt64.ofNat (UInt64.size - 1)

def addSaturating (a b : UInt64) : UInt64 :=
  if a.toNat + b.toNat < UInt64.size then a + b else maxWord

def subSaturating (a b : UInt64) : UInt64 := if b ≤ a then a - b else 0

theorem toNat_addSaturating (a b : UInt64) :
    (addSaturating a b).toNat = min (a.toNat + b.toNat) (UInt64.size - 1) := by
  unfold addSaturating maxWord
  split
  · rename_i h
    rw [UInt64.toNat_add]
    simp only [UInt64.size] at *
    omega
  · rename_i h
    simp only [UInt64.size] at *
    rw [UInt64.toNat_ofNat']
    omega

theorem toNat_subSaturating (a b : UInt64) :
    (subSaturating a b).toNat = a.toNat - b.toNat := by
  unfold subSaturating
  split
  · rename_i h
    exact UInt64.toNat_sub_of_le _ _ h
  · rename_i h
    have : a.toNat < b.toNat := UInt64.lt_iff_toNat_lt.mp (UInt64.not_le.mp h)
    simp only [UInt64.toNat_zero]
    omega

/-! ## Tags in order -/

def following? (tag : Tag) : Option Tag := if tag = maxWord then none else some (tag + 1)

theorem le_maxWord (t : Tag) : t ≤ maxWord := by
  have hlt := t.toNat_lt
  refine UInt64.le_iff_toNat_le.mpr ?_
  show t.toNat ≤ (UInt64.ofNat (UInt64.size - 1)).toNat
  rw [UInt64.toNat_ofNat']
  simp only [UInt64.size]
  omega

/-- Nothing lies between a tag and the one after it. -/
theorem lt_following {tag bound : Tag} (h : following? tag = some bound) (t : Tag) : t < bound ↔ t ≤ tag := by
  unfold following? at h
  by_cases hmax : tag = maxWord
  · rw [if_pos hmax] at h
    cases h
  · rw [if_neg hmax] at h
    cases h
    have hne : tag.toNat ≠ maxWord.toNat := fun he => hmax (UInt64.toNat_inj.mp he)
    have hle : tag.toNat ≤ maxWord.toNat := UInt64.le_iff_toNat_le.mp (le_maxWord tag)
    have hword : maxWord.toNat = 2 ^ 64 - 1 := by decide
    rw [UInt64.lt_iff_toNat_lt, UInt64.le_iff_toNat_le, UInt64.toNat_add]
    show t.toNat < (tag.toNat + 1) % 2 ^ 64 ↔ t.toNat ≤ tag.toNat
    omega

/-- No tag lies behind one that has none after it. -/
theorem le_of_following_none {tag : Tag} (h : following? tag = none) (t : Tag) : t ≤ tag := by
  unfold following? at h
  by_cases hmax : tag = maxWord
  · rw [hmax]
    exact le_maxWord t
  · rw [if_neg hmax] at h
    cases h

/-! ## Sums of sizes -/

section
variable {M : Type} [Message M]

def weight : List (Entry M) → Nat
  | [] => 0
  | e :: rest => (Message.size e.message).toNat + weight rest

def tooHeavy (entries : List (Entry M)) : Bool := UInt64.size ≤ weight entries

end

/-! ## The tracker -/

structure Tracker (M : Type) where
  outstanding : TagMap M := .empty
  /-- The total of the payload sizes, as far as 64 bits can tell. -/
  bytes : UInt64 := 0

namespace Tracker

variable {M : Type}

def empty : Tracker M := {}

def size (t : Tracker M) : Nat := t.outstanding.size

def isEmpty (t : Tracker M) : Bool := t.outstanding.isEmpty

def tags (t : Tracker M) : List Tag := t.outstanding.tags

def get? (t : Tracker M) (tag : Tag) : Option M := t.outstanding.get? tag

/-- The entries that an acknowledgement of `tag` selects: that tag's, or with
    `multiple` all up to it. -/
def selected (t : Tracker M) (tag : Tag) (multiple : Bool) : List (Entry M) :=
  if multiple then t.outstanding.upTo tag else ((t.get? tag).map (Entry.mk tag)).toList

def clear (_ : Tracker M) : Tracker M := empty

def cancelAll (t : Tracker M) : List M × Tracker M := (t.outstanding.messages, empty)

variable [Message M]

/-- Record a delivery. A tag that is outstanding is refused and nothing changes. -/
def add (t : Tracker M) (tag : Tag) (message : M) : Except TrackerError (Tracker M) :=
  if t.outstanding.contains tag then .error (.duplicateTag tag)
  else .ok ⟨t.outstanding.insert tag message, addSaturating t.bytes (Message.size message)⟩

def remove (t : Tracker M) (tag : Tag) : Option M × Tracker M :=
  match t.get? tag with
  | none => (none, t)
  | some message =>
    (some message, ⟨t.outstanding.erase tag, subSaturating t.bytes (Message.size message)⟩)

def wordSum (entries : List (Entry M)) : UInt64 :=
  entries.foldl (fun sum e => sum + Message.size e.message) 0

/-- Withdraw every delivery up to `tag`: the map is cut at the next tag, and taken whole
    behind the last one. By the time the sizes are added up the map has been cut: if the sum
    raises, what was cut off is gone, and the total is as before. -/
def takeThrough (t : Tracker M) (tag : Tag) : Outcome (List (Entry M)) × Tracker M :=
  let (removed, kept) :=
    match following? tag with
    | some bound => t.outstanding.splitAt bound
    | none => (t.outstanding, .empty)
  if tooHeavy removed.entries then (.raised .overflow, ⟨kept, t.bytes⟩)
  else (.returned removed.entries, ⟨kept, subSaturating t.bytes (wordSum removed.entries)⟩)

/-- Acknowledge `tag`, or with `multiple` every outstanding tag up to it. Answers the
    entries withdrawn, ascending; a tag that is not outstanding withdraws nothing. -/
def acknowledge (t : Tracker M) (tag : Tag) (multiple : Bool) : Outcome (List (Entry M)) × Tracker M :=
  if multiple then t.takeThrough tag
  else
    match t.remove tag with
    | (some message, t) => (.returned [⟨tag, message⟩], t)
    | (none, t) => (.returned [], t)

def removeEach (t : Tracker M) : List Tag → List (Entry M) × Tracker M
  | [] => ([], t)
  | tag :: rest =>
    match t.remove tag with
    | (none, t) => t.removeEach rest
    | (some message, t) =>
      let (removed, t) := t.removeEach rest
      (⟨tag, message⟩ :: removed, t)

/-- Withdraw the listed tags, skipping those that are not outstanding. Answers the
    entries withdrawn, ascending. -/
def removeAll (t : Tracker M) (tags : List Tag) : List (Entry M) × Tracker M :=
  let (removed, t) := t.removeEach tags
  (removed.mergeSort (fun a b => a.tag ≤ b.tag), t)

end Tracker

/-! ## Visiting -/

/-- A visitor is shown entries one at a time. It has a state of its own and may change
    the tracker; it answers whether to stop. `complete` is told that the visit is over. -/
structure Visitor (M σ : Type) where
  visit : Entry M → σ → Tracker M → Bool × σ × Tracker M
  complete : σ → Tracker M → σ × Tracker M := fun s t => (s, t)

namespace Visitor

variable {M σ : Type}

def walk (v : Visitor M σ) : List (Entry M) → σ → Tracker M → σ × Tracker M
  | [], s, t => (s, t)
  | e :: rest, s, t =>
    match v.visit e s t with
    | (true, s, t) => (s, t)
    | (false, s, t) => v.walk rest s t

end Visitor

/-- Show the visitor the entries outstanding now, lowest tag first, whatever it does to
    the tracker meanwhile. -/
def Tracker.visit {M σ : Type} (t : Tracker M) (v : Visitor M σ) (s : σ) : σ × Tracker M :=
  let (s, t) := v.walk t.outstanding.entries s t
  v.complete s t

end MessageBroker.Delivery
