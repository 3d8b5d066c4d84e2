/-
  MessageBroker.Delivery.TagMap — messages filed under their tags, lowest tag first.

  A map is its list of entries in strictly ascending tag order, and the order is part
  of the type. Taking entries out is filtering or cutting, so only `insert` has an order
  to keep (`ascending_place`), and it files nothing but its own entry (`mem_insert`).
  Cutting the list where a bound lies is filtering by the bound (`upTo_eq_filter`,
  `entries_splitAt_fst`, `entries_splitAt_snd`).
-/

import MessageBroker.Error

namespace MessageBroker.Delivery

structure Entry (M : Type) where
  tag : Tag
  message : M
  deriving DecidableEq, Repr

abbrev Ascending {M : Type} (entries : List (Entry M)) : Prop :=
  entries.Pairwise fun a b => a.tag < b.tag

structure TagMap (M : Type) where
  entries : List (Entry M) := []
  ascending : Ascending entries := by exact List.Pairwise.nil

namespace TagMap

variable {M : Type}

/-- File `e` in tag order, in place of an entry under the same tag. -/
def place (e : Entry M) : List (Entry M) → List (Entry M)
  | [] => [e]
  | x :: rest =>
    if e.tag < x.tag then e :: x :: rest
    else if x.tag < e.tag then x :: place e rest
    else e :: rest

theorem mem_place {e y : Entry M} {l : List (Entry M)} (h : y ∈ place e l) :
    y = e ∨ y ∈ l := by
  induction l with
  | nil => simpa [place] using h
  | cons x rest ih =>
    unfold place at h
    split at h
    · simpa using h
    · split at h
      · rcases List.mem_cons.mp h with rfl | h
        · simp
        · rcases ih h with rfl | h <;> simp [*]
      · rcases List.mem_cons.mp h with rfl | h <;> simp [*]

theorem ascending_place (e : Entry M) {l : List (Entry M)} (h : Ascending l) :
    Ascending (place e l) := by
  induction l with
  | nil => simp [place, Ascending]
  | cons x rest ih =>
    obtain ⟨hx, hrest⟩ := List.pairwise_cons.mp h
    unfold place
    split
    · rename_i hlt
      refine List.pairwise_cons.mpr ⟨fun y hy => ?_, h⟩
      rcases List.mem_cons.mp hy with rfl | hy
      · exact hlt
      · exact UInt64.lt_trans hlt (hx y hy)
    · rename_i hnlt
      split
      · rename_i hgt
        refine List.pairwise_cons.mpr ⟨fun y hy => ?_, ih hrest⟩
        rcases mem_place hy with rfl | hy
        · exact hgt
        · exact hx y hy
      · rename_i hngt
        have same : e.tag = x.tag := UInt64.le_antisymm (UInt64.not_lt.mp hngt) (UInt64.not_lt.mp hnlt)
        exact List.pairwise_cons.mpr ⟨fun y hy => same ▸ hx y hy, hrest⟩

def empty : TagMap M := {}

def size (m : TagMap M) : Nat := m.entries.length

def isEmpty (m : TagMap M) : Bool := m.entries.isEmpty

def tags (m : TagMap M) : List Tag := m.entries.map (·.tag)

def messages (m : TagMap M) : List M := m.entries.map (·.message)

def get? (m : TagMap M) (tag : Tag) : Option M :=
  (m.entries.find? (·.tag == tag)).map (·.message)

def contains (m : TagMap M) (tag : Tag) : Bool := m.entries.any (·.tag == tag)

/-- File a message, in place of the one under the same tag. -/
def insert (m : TagMap M) (tag : Tag) (message : M) : TagMap M :=
  ⟨place ⟨tag, message⟩ m.entries, ascending_place _ m.ascending⟩

def filter (m : TagMap M) (p : Entry M → Bool) : TagMap M :=
  ⟨m.entries.filter p, m.ascending.filter p⟩

def erase (m : TagMap M) (tag : Tag) : TagMap M := m.filter (·.tag != tag)

def upTo (m : TagMap M) (tag : Tag) : List (Entry M) := m.entries.takeWhile (·.tag ≤ tag)

def splitAt (m : TagMap M) (bound : Tag) : TagMap M × TagMap M :=
  (⟨m.entries.takeWhile (·.tag < bound), m.ascending.sublist (List.takeWhile_sublist _)⟩,
    ⟨m.entries.dropWhile (·.tag < bound), m.ascending.sublist (List.dropWhile_sublist _)⟩)

def insertAll (m : TagMap M) (entries : List (Entry M)) : TagMap M :=
  entries.foldl (fun m e => m.insert e.tag e.message) m

@[simp] theorem entries_filter (m : TagMap M) (p : Entry M → Bool) :
    (m.filter p).entries = m.entries.filter p := rfl

@[simp] theorem entries_insert (m : TagMap M) (tag : Tag) (message : M) :
    (m.insert tag message).entries = place ⟨tag, message⟩ m.entries := rfl

theorem mem_insert {m : TagMap M} {tag : Tag} {message : M} {y : Entry M}
    (h : y ∈ (m.insert tag message).entries) : y = ⟨tag, message⟩ ∨ y ∈ m.entries :=
  mem_place h

@[ext] theorem ext {a b : TagMap M} (h : a.entries = b.entries) : a = b := by
  cases a; cases b; cases h; rfl

/-! ## Cutting in tag order -/

/-- A condition that holds of every tag below one it holds of is met by the first entries. -/
theorem takeWhile_eq_filter {l : List (Entry M)} (h : Ascending l) {p : Entry M → Bool}
    (below : ∀ a b, a.tag < b.tag → p b = true → p a = true) : l.takeWhile p = l.filter p := by
  induction l with
  | nil => rfl
  | cons x rest ih =>
    obtain ⟨hx, hrest⟩ := List.pairwise_cons.mp h
    by_cases hp : p x = true
    · rw [List.takeWhile_cons_of_pos hp, List.filter_cons_of_pos hp, ih hrest]
    · have hnone : rest.filter p = [] := List.filter_eq_nil_iff.mpr fun y hy hpy => hp (below x y (hx y hy) hpy)
      rw [List.takeWhile_cons_of_neg hp, List.filter_cons_of_neg hp, hnone]

/-- And the others come behind. -/
theorem dropWhile_eq_filter {l : List (Entry M)} (h : Ascending l) {p : Entry M → Bool}
    (below : ∀ a b, a.tag < b.tag → p b = true → p a = true) : l.dropWhile p = l.filter fun e => !p e := by
  induction l with
  | nil => rfl
  | cons x rest ih =>
    obtain ⟨hx, hrest⟩ := List.pairwise_cons.mp h
    by_cases hp : p x = true
    · rw [List.dropWhile_cons_of_pos hp, List.filter_cons_of_neg (by simp [hp]), ih hrest]
    · have hall : rest.filter (fun e => !p e) = rest := by
        refine List.filter_eq_self.mpr fun y hy => ?_
        have hpy : p y ≠ true := fun hpy => hp (below x y (hx y hy) hpy)
        simpa using hpy
      rw [List.dropWhile_cons_of_neg hp, List.filter_cons_of_pos (by simpa using hp), hall]

theorem upTo_eq_filter (m : TagMap M) (tag : Tag) : m.upTo tag = m.entries.filter (·.tag ≤ tag) := by
  refine takeWhile_eq_filter m.ascending fun a b hab hb => ?_
  have hb : b.tag ≤ tag := by simpa using hb
  simpa using UInt64.le_of_lt (UInt64.lt_of_lt_of_le hab hb)

/-- The condition that splits a map at a bound holds below every tag it holds of. -/
theorem below_bound {bound : Tag} (a b : Entry M) (hab : a.tag < b.tag) (hb : decide (b.tag < bound) = true) :
    decide (a.tag < bound) = true :=
  decide_eq_true (UInt64.lt_trans hab (of_decide_eq_true hb))

theorem entries_splitAt_fst (m : TagMap M) (bound : Tag) :
    (m.splitAt bound).1.entries = m.entries.filter (·.tag < bound) :=
  takeWhile_eq_filter m.ascending below_bound

theorem entries_splitAt_snd (m : TagMap M) (bound : Tag) :
    (m.splitAt bound).2.entries = m.entries.filter fun e => !decide (e.tag < bound) :=
  dropWhile_eq_filter m.ascending below_bound

end TagMap

end MessageBroker.Delivery
