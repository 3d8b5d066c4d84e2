/-
  MessageBroker.Proofs.Pool.Protocol — what a pool says to one connection, in which order.

  The calls that a pool makes on one connection, in their order, are a word. The language of
  these words is put together from the calls and their replies, as the callers of a
  connection see it:
  - `moreUnit`, `idleUnit`, `lastUnit`, `faultyUnit`: a unit of work with the questions after
    it, by what comes of it.
  - `visit`: from the queue to the detector, through any number of resubmissions.
  - `farewell`: a visit that does not end at the detector.
  - `protocol`: visits, and at most one farewell after them.
  Words of a product, or of a product with a star, are taken apart and counted
  (`Counts`).
-/

import Mathlib.Computability.Language
import Mathlib.Order.CompletePartialOrder
import MessageBroker.Pool.State

namespace MessageBroker.Pool

open scoped Computability

/-- What a connection, or the detector about it, hears of the pool. A unit of work takes its
    time, so its begin and its end are two things. -/
inductive Callback where
  | made (call : Call) (reply : Reply)
  | workBegins
  | workEnds (reply : Reply)
  deriving DecidableEq, Repr

namespace Protocol

/-! ## Single callbacks -/

def oneOf {α : Type} (f : α → Callback) : Language Callback := {u | ∃ a, u = [f a]}

def returns (call : Call) : Language Callback := oneOf fun b => .made call (.returned b)

def answers (call : Call) (b : Bool) : Language Callback := oneOf fun _ : Unit => .made call (.returned b)

def faults (call : Call) : Language Callback := oneOf fun fault => .made call (.raised fault)

def begins : Language Callback := oneOf fun _ : Unit => .workBegins

def ends (b : Bool) : Language Callback := oneOf fun _ : Unit => .workEnds (.returned b)

def endsInFault : Language Callback := oneOf fun fault => .workEnds (.raised fault)

/-! ## Units of work -/

def paused : Language Callback := begins * ends false

def unchanged : Language Callback := paused * answers .changed false

/-- A unit of work that leaves work. Whether the read was cut short is asked only if the
    state did not change. -/
def moreUnit : Language Callback := paused * answers .changed true + unchanged * answers .partialRead true

def idleUnit : Language Callback := unchanged * answers .partialRead false

def lastUnit : Language Callback := begins * ends true

/-- A unit of work that faults, or one after which a question faults. -/
def faultyUnit : Language Callback :=
  begins * endsInFault + paused * faults .changed + unchanged * faults .partialRead

/-! ## Visits -/

def enters : Language Callback := returns (.notify .queued)

def runs : Language Callback := returns (.notify .running) * moreUnit∗

def again : Language Callback := runs * moreUnit * enters

def parks : Language Callback := runs * idleUnit * returns (.notify .awaitingReadiness) * returns .handOver

/-- What a worker closes a connection upon: a fault, or that the queue refuses it. -/
def spoilt : Language Callback :=
  faults (.notify .running) +
    runs * (faultyUnit + idleUnit * faults (.notify .awaitingReadiness) + moreUnit)

def closes : Language Callback := returns .close + faults .close

/-- How a connection goes for good from its worker: it ended, it is closed, or it is lost to
    a fault on its way to the queue or to the detector. -/
def goes : Language Callback :=
  runs * lastUnit + spoilt * closes + runs * moreUnit * faults (.notify .queued) +
    runs * idleUnit * returns (.notify .awaitingReadiness) * faults .handOver

/-- On the queue, once or after resubmissions. -/
def waits : Language Callback := enters * again∗

def visit : Language Callback := waits * parks

/-- A visit that does not end at the detector. -/
def farewell : Language Callback := faults (.notify .queued) + waits * goes

/-- From the last time that a connection is put on the queue until it has left the pool. -/
def stay : Language Callback := faults (.notify .queued) + enters * (parks + goes)

end Protocol

open Protocol in
def protocol : Language Callback := visit∗ + visit∗ * farewell

/-! ## Words -/

section
variable {α : Type} {K L M N : Language α} {u t : List α}

theorem append_mem (hu : u ∈ K * L) (ht : t ∈ M) (h : L * M ≤ N) : u ++ t ∈ K * N := by
  have hut : u ++ t ∈ K * L * M := Language.append_mem_mul hu ht
  rw [mul_assoc] at hut
  exact mul_le_mul_right h K hut

theorem mem_append_nil (hu : u ∈ K) : u ++ [] ∈ K := by rwa [List.append_nil]

theorem mul_kstar_mul_le (K L : Language α) : K * L∗ * L ≤ K * L∗ := by
  rw [mul_assoc]
  exact mul_le_mul_right kstar_mul_le_kstar K

end

namespace Protocol

theorem mem_returns (call : Call) (b : Bool) : [.made call (.returned b)] ∈ returns call := ⟨b, rfl⟩

theorem mem_answers (call : Call) (b : Bool) : [.made call (.returned b)] ∈ answers call b := ⟨(), rfl⟩

theorem mem_faults (call : Call) (fault : Fault) : [.made call (.raised fault)] ∈ faults call := ⟨fault, rfl⟩

theorem mem_begins : [.workBegins] ∈ begins := ⟨(), rfl⟩

theorem mem_ends (b : Bool) : [.workEnds (.returned b)] ∈ ends b := ⟨(), rfl⟩

theorem mem_endsInFault (fault : Fault) : [.workEnds (.raised fault)] ∈ endsInFault := ⟨fault, rfl⟩

theorem again_of_waits : waits * again ≤ waits := mul_kstar_mul_le enters again

theorem visit_of_visits : visit∗ * visit ≤ visit∗ := kstar_mul_le_kstar

theorem enters_le_waits : enters ≤ waits := le_mul_of_one_le_right' one_le_kstar

theorem returns_le_runs : returns (.notify .running) ≤ runs := le_mul_of_one_le_right' one_le_kstar

theorem faulty_le_spoilt : runs * faultyUnit ≤ spoilt :=
  (mul_le_mul_right (le_sup_left.trans le_sup_left) runs).trans le_sup_right

theorem idle_le_spoilt : runs * (idleUnit * faults (.notify .awaitingReadiness)) ≤ spoilt :=
  (mul_le_mul_right (le_sup_right.trans le_sup_left) runs).trans le_sup_right

theorem more_le_spoilt : runs * moreUnit ≤ spoilt := (mul_le_mul_right le_sup_right runs).trans le_sup_right

theorem spoilt_closes_le_goes : spoilt * closes ≤ goes := (le_sup_right.trans le_sup_left).trans le_sup_left

/-- What has entered the queue has entered it last. -/
theorem last_enters {u : List Callback} (h : u ∈ waits) : ∃ before, ∃ entry ∈ enters, u = before ++ entry := by
  obtain ⟨first, hfirst, rest, hrest, rfl⟩ := Language.mem_mul.mp h
  rw [← Language.one_add_kstar_mul_self_eq_kstar] at hrest
  rcases hrest with hnil | hagain
  · obtain rfl := hnil
    exact ⟨[], first, hfirst, List.append_nil _⟩
  · obtain ⟨some, -, last, hlast, rfl⟩ := Language.mem_mul.mp hagain
    obtain ⟨unit, -, entry, hentry, rfl⟩ := Language.mem_mul.mp hlast
    exact ⟨first ++ some ++ unit, entry, hentry, by simp⟩

theorem last_stay {u : List Callback} (h : u ∈ protocol) (hne : u ≠ []) :
    ∃ before, ∃ recent ∈ stay, u = before ++ recent := by
  have hleft {a b : List Callback} (ha : a ∈ waits) (hb : b ∈ parks + goes) :
      ∃ before, ∃ recent ∈ stay, a ++ b = before ++ recent := by
    obtain ⟨before, entry, hentry, rfl⟩ := last_enters ha
    exact ⟨before, entry ++ b, .inr (Language.append_mem_mul hentry hb), List.append_assoc ..⟩
  have hafter {a b : List Callback} : (∃ before, ∃ recent ∈ stay, b = before ++ recent) →
      ∃ before, ∃ recent ∈ stay, a ++ b = before ++ recent := by
    rintro ⟨before, recent, hrecent, rfl⟩
    exact ⟨a ++ before, recent, hrecent, (List.append_assoc ..).symm⟩
  rcases h with hvisits | hleaves
  · rw [← Language.one_add_kstar_mul_self_eq_kstar] at hvisits
    rcases hvisits with hnil | hvisits
    · exact absurd hnil hne
    · obtain ⟨earlier, -, last, hlast, rfl⟩ := Language.mem_mul.mp hvisits
      obtain ⟨a, ha, b, hb, rfl⟩ := Language.mem_mul.mp hlast
      exact hafter (hleft ha (.inl hb))
  · obtain ⟨earlier, -, last, hlast, rfl⟩ := Language.mem_mul.mp hleaves
    rcases hlast with hlost | hgoes
    · exact ⟨earlier, last, .inl hlost, rfl⟩
    · obtain ⟨a, ha, b, hb, rfl⟩ := Language.mem_mul.mp hgoes
      exact hafter (hleft ha (.inr hb))

end Protocol

/-! ## Counting callbacks -/

def Counts (p : Callback → Bool) (n : Nat) (L : Language Callback) : Prop := ∀ u ∈ L, u.countP p = n

section
variable {p q : Callback → Bool} {m n : Nat} {K L : Language Callback}

theorem counts_zero {α : Type} {f : α → Callback} (h : ∀ a, p (f a) = false) : Counts p 0 (Protocol.oneOf f) := by
  rintro u ⟨a, rfl⟩
  simp [h a]

theorem counts_one {α : Type} {f : α → Callback} (h : ∀ a, p (f a) = true) : Counts p 1 (Protocol.oneOf f) := by
  rintro u ⟨a, rfl⟩
  simp [h a]

theorem Counts.mul (hK : Counts p m K) (hL : Counts p n L) : Counts p (m + n) (K * L) := by
  intro u hu
  obtain ⟨a, ha, b, hb, rfl⟩ := Language.mem_mul.mp hu
  rw [List.countP_append, hK a ha, hL b hb]

theorem Counts.add (hK : Counts p n K) (hL : Counts p n L) : Counts p n (K + L) := by
  intro u hu
  rcases hu with hu | hu
  · exact hK u hu
  · exact hL u hu

theorem Counts.kstar (hL : Counts p 0 L) : Counts p 0 L∗ := by
  intro u hu
  obtain ⟨parts, rfl, hparts⟩ := Language.mem_kstar.mp hu
  clear hu
  induction parts with
  | nil => rfl
  | cons v rest ih =>
    rw [List.flatten_cons, List.countP_append, hL v (hparts v List.mem_cons_self),
      ih fun y hy => hparts y (List.mem_cons_of_mem _ hy)]

theorem Counts.none_of (hL : Counts q 0 L) (h : ∀ x, p x = true → q x = true) : Counts p 0 L := by
  intro u hu
  have hle := List.countP_mono_left (l := u) fun x _ => h x
  rw [hL u hu] at hle
  exact Nat.le_zero.mp hle

end

/-- With this callback the connection leaves the pool, or would have entered it. -/
def Callback.isParting : Callback → Bool
  | .made (.notify .queued) (.raised _) => true
  | .made .close _ | .made .handOver _ => true
  | .workEnds (.returned true) => true
  | _ => false

def Callback.isClose : Callback → Bool
  | .made .close _ => true
  | _ => false

theorem Callback.isParting_of_isClose (x : Callback) (h : x.isClose = true) : x.isParting = true := by
  unfold isClose at h
  split at h
  · rfl
  · cases h

namespace Protocol

open Callback

theorem parting_paused : Counts isParting 0 paused :=
  (counts_zero fun _ => rfl).mul (counts_zero fun _ => rfl)

theorem parting_unchanged : Counts isParting 0 unchanged :=
  parting_paused.mul (counts_zero fun _ => rfl)

theorem parting_moreUnit : Counts isParting 0 moreUnit :=
  (parting_paused.mul (counts_zero fun _ => rfl)).add (parting_unchanged.mul (counts_zero fun _ => rfl))

theorem parting_idleUnit : Counts isParting 0 idleUnit :=
  parting_unchanged.mul (counts_zero fun _ => rfl)

theorem parting_faultyUnit : Counts isParting 0 faultyUnit :=
  (((counts_zero fun _ => rfl).mul (counts_zero fun _ => rfl)).add
    (parting_paused.mul (counts_zero fun _ => rfl))).add (parting_unchanged.mul (counts_zero fun _ => rfl))

theorem parting_runs : Counts isParting 0 runs :=
  (counts_zero fun _ => rfl).mul parting_moreUnit.kstar

theorem parting_runs_idle : Counts isParting 0 (runs * idleUnit * returns (.notify .awaitingReadiness)) :=
  (parting_runs.mul parting_idleUnit).mul (counts_zero fun _ => rfl)

theorem parting_waits : Counts isParting 0 waits :=
  (counts_zero fun _ => rfl).mul ((parting_runs.mul parting_moreUnit).mul (counts_zero fun _ => rfl)).kstar

theorem parting_spoilt : Counts isParting 0 spoilt :=
  (counts_zero fun _ => rfl).add <| parting_runs.mul <|
    (parting_faultyUnit.add (parting_idleUnit.mul (counts_zero fun _ => rfl))).add parting_moreUnit

/-- A visit ends with the one callback with which the connection leaves the pool. -/
theorem parting_parks : Counts isParting 1 parks :=
  parting_runs_idle.mul (counts_one fun _ => rfl)

theorem parting_goes : Counts isParting 1 goes :=
  (((parting_runs.mul ((counts_zero fun _ => rfl).mul (counts_one fun _ => rfl))).add
    (parting_spoilt.mul ((counts_one fun _ => rfl).add (counts_one fun _ => rfl)))).add
    ((parting_runs.mul parting_moreUnit).mul (counts_one fun _ => rfl))).add
    (parting_runs_idle.mul (counts_one fun _ => rfl))

theorem parting_farewell : Counts isParting 1 farewell :=
  (counts_one fun _ => rfl).add (parting_waits.mul parting_goes)

theorem parting_stay : Counts isParting 1 stay :=
  (counts_one fun _ => rfl).add ((counts_zero fun _ => rfl).mul (parting_parks.add parting_goes))

/-- No connection is closed on its way to the detector. -/
theorem close_visit : Counts isClose 0 visit :=
  (parting_waits.none_of isParting_of_isClose).mul <|
    (parting_runs_idle.none_of isParting_of_isClose).mul (counts_zero fun _ => rfl)

/-- A connection is closed once at most. -/
theorem countP_close_le {u : List Callback} (h : u ∈ protocol) : u.countP isClose ≤ 1 := by
  rcases h with h | h
  · rw [close_visit.kstar u h]
    exact Nat.zero_le 1
  · obtain ⟨a, ha, b, hb, rfl⟩ := Language.mem_mul.mp h
    rw [List.countP_append, close_visit.kstar a ha, Nat.zero_add, ← parting_farewell b hb]
    exact List.countP_mono_left fun x _ => isParting_of_isClose x

end Protocol

end MessageBroker.Pool
