/-
  MessageBroker.Proofs.Selector.Custody — a selector that closes all leaves no connection behind.

  Any number of callers offer connections to one selector. Its thread takes the offers, sends
  off connections that are ready, and closes all that it has, any number of times. A caller
  looks whether offers are accepted and sends its connection in one step, as it holds the
  lock that whoever closes all needs to refuse offers from then on.
  - `Shared`, `next`: the selector, its callers and its thread, step by step.
  - `Transfer`: a step brings a connection into custody, moves it about there, or takes it
    out, to be closed or to the pool (`Step.transfer`).
  - `Shut`: once offers are refused nothing is sent, and once all is closed nothing is left.
  - `closed_or_dispatched`: so each connection that was offered is closed or was sent off.
-/

import MessageBroker.Proofs.Pool.Moves
import MessageBroker.Proofs.Selector.Tokens

namespace MessageBroker.Selector

open History
open Pool (Enqueued)

variable {ι : Type}

inductive OfferStage where
  /-- About to look whether offers are accepted. -/
  | entered
  /-- The connection is sent; about to wake the selector. -/
  | sent
  /-- About to close the connection. -/
  | refused
  | returned
  deriving DecidableEq, Repr

structure Offer (ι : Type) where
  connection : ι
  stage : OfferStage
  deriving DecidableEq, Repr

def Offer.inHand (o : Offer ι) : Option ι :=
  match o.stage with
  | .entered | .refused => some o.connection
  | .sent | .returned => none

inductive Thread (ι : Type) where
  | serving
  /-- Closing all: offers are refused from now on. -/
  | shut
  /-- Closing all: these connections are left. -/
  | closing (left : List ι)
  deriving DecidableEq, Repr

def Thread.left : Thread ι → List ι
  | .serving | .shut => []
  | .closing left => left

def Thread.isClosing : Thread ι → Bool
  | .closing _ => true
  | _ => false

structure Shared (ι : Type) where
  selector : State ι := {}
  /-- The tokens that connections are watched under. -/
  token : ι → Option Token := fun _ => none
  /-- Every call so far, in the order of the calls. -/
  offers : List (Offer ι) := []
  thread : Thread ι := .serving
  /-- How often all was closed. -/
  finished : Nat := 0
  /-- Connections that were ready and went to the pool. -/
  dispatched : List ι := []
  /-- Connections that were closed, by their callers or by the thread. -/
  closed : List ι := []
  /-- Connections that faulted on their way to the pool's queue. -/
  lost : List ι := []

inductive Event (ι : Type) where
  /-- Someone offers a connection. -/
  | call (c : ι)
  /-- The `i`-th caller goes on by one point. -/
  | offer (i : Nat)
  /-- The thread takes the oldest offer, and can have it watched or not. -/
  | takeReturn (watchable : Bool)
  /-- A token is reported ready to the thread; the pool answers like this. -/
  | ready (token : Token) (answer : Enqueued)
  /-- The thread goes on by one point in closing all. -/
  | closeAll

namespace Shared

def inHands (s : Shared ι) : List ι := s.offers.filterMap Offer.inHand

/-- The connections that the selector, its callers and its thread have. -/
def custody (s : Shared ι) : List ι :=
  s.inHands ++ s.selector.returned ++ s.selector.parked.map (·.2) ++ s.thread.left

def offered (s : Shared ι) : List ι := s.offers.map Offer.connection

/-- Someone else has the connection, and can offer it. -/
def Free (s : Shared ι) (c : ι) : Prop := c ∉ s.custody ∧ c ∉ s.closed ∧ c ∉ s.lost

instance [DecidableEq ι] (s : Shared ι) (c : ι) : Decidable (s.Free c) :=
  inferInstanceAs (Decidable (_ ∧ _ ∧ _))

def setOffer (s : Shared ι) (i : Nat) (o : Offer ι) : Shared ι := { s with offers := s.offers.set i o }

def send (s : Shared ι) (c : ι) : Shared ι :=
  { s with selector := { s.selector with returned := s.selector.returned ++ [c] } }

def close (s : Shared ι) (c : ι) : Shared ι := { s with closed := s.closed ++ [c] }

def unpark (s : Shared ι) (token : Token) : Shared ι :=
  { s with selector := { s.selector with parked := s.selector.parked.filter (·.1 != token) } }

def stepOffer (s : Shared ι) (i : Nat) : Shared ι :=
  match s.offers[i]? with
  | some ⟨c, .entered⟩ =>
    match s.selector.offer c with
    | (true, selector) => { s with selector }.setOffer i ⟨c, .sent⟩
    | (false, _) => s.setOffer i ⟨c, .refused⟩
  | some ⟨c, .sent⟩ => s.setOffer i ⟨c, .returned⟩
  | some ⟨c, .refused⟩ => (s.close c).setOffer i ⟨c, .returned⟩
  | some ⟨_, .returned⟩ | none => s

def ready (s : Shared ι) (token : Token) (answer : Enqueued) : Shared ι :=
  match s.selector.ready token with
  | (none, _) => s
  | (some c, selector) =>
    match answer with
    | .accepted => { s with selector, dispatched := s.dispatched ++ [c] }
    | .rejected => { s with selector }.close c
    | .raised _ => { s with selector, dispatched := s.dispatched ++ [c], lost := s.lost ++ [c] }

section
variable [DecidableEq ι]

def takeReturn (s : Shared ι) (watchable : Bool) : Shared ι :=
  match s.selector.returned with
  | [] => s
  | c :: _ =>
    let selector := s.selector.takeReturn (s.token c) watchable
    if watchable then
      { s with selector, token := Function.update s.token c (some (s.selector.watchFor (s.token c)).token) }
    else { s with selector }.close c

def closeAll (s : Shared ι) : Shared ι :=
  match s.thread with
  | .serving => { s with selector := s.selector.shut, thread := .shut }
  | .shut => { s with selector := s.selector.drain.2, thread := .closing s.selector.drain.1 }
  | .closing (c :: rest) => { s with token := Function.update s.token c none, thread := .closing rest }.close c
  | .closing [] => { s with thread := .serving, finished := s.finished + 1 }

/-- A step of someone. Who does not have a connection cannot offer it, and while the thread
    closes all it does nothing else. -/
def next (s : Shared ι) : Event ι → Shared ι
  | .call c => if s.Free c then { s with offers := s.offers ++ [⟨c, .entered⟩] } else s
  | .offer i => s.stepOffer i
  | .takeReturn watchable => if s.thread = .serving then s.takeReturn watchable else s
  | .ready token answer => if s.thread = .serving then s.ready token answer else s
  | .closeAll => s.closeAll

/-! ## The table -/

inductive Step (s : Shared ι) : Shared ι → Prop
  | idle : Step s s
  | call {c : ι} (free : s.Free c) : Step s { s with offers := s.offers ++ [⟨c, .entered⟩] }
  | send {i : Nat} {c : ι} (place : s.offers[i]? = some ⟨c, .entered⟩) (accepting : s.selector.accepting = true) :
      Step s ((s.send c).setOffer i ⟨c, .sent⟩)
  | refuse {i : Nat} {c : ι} (place : s.offers[i]? = some ⟨c, .entered⟩) : Step s (s.setOffer i ⟨c, .refused⟩)
  | wake {i : Nat} {c : ι} (place : s.offers[i]? = some ⟨c, .sent⟩) : Step s (s.setOffer i ⟨c, .returned⟩)
  | closeRefused {i : Nat} {c : ι} (place : s.offers[i]? = some ⟨c, .refused⟩) :
      Step s ((s.close c).setOffer i ⟨c, .returned⟩)
  | park {c : ι} {rest : List ι} (serving : s.thread = .serving) (returned : s.selector.returned = c :: rest) :
      Step s
        { s with
          selector := s.selector.takeReturn (s.token c) true
          token := Function.update s.token c (some (s.selector.watchFor (s.token c)).token) }
  | giveUp {c : ι} {rest : List ι} (serving : s.thread = .serving) (returned : s.selector.returned = c :: rest) :
      Step s ({ s with selector := s.selector.takeReturn (s.token c) false }.close c)
  /-- A connection is ready; the pool takes it, refuses it, or has lost it. -/
  | ready {token : Token} {c : ι} {t : Shared ι} (serving : s.thread = .serving)
      (parked : (token, c) ∈ s.selector.parked)
      (answered : t = { s.unpark token with dispatched := s.dispatched ++ [c] } ∨ t = (s.unpark token).close c ∨
        t = { s.unpark token with dispatched := s.dispatched ++ [c], lost := s.lost ++ [c] }) :
      Step s t
  | shut (serving : s.thread = .serving) : Step s { s with selector := s.selector.shut, thread := .shut }
  | drain (shut : s.thread = .shut) :
      Step s { s with selector := s.selector.drain.2, thread := .closing s.selector.drain.1 }
  | closeOne {c : ι} {rest : List ι} (closing : s.thread = .closing (c :: rest)) :
      Step s ({ s with token := Function.update s.token c none, thread := .closing rest }.close c)
  | finish (closing : s.thread = .closing []) : Step s { s with thread := .serving, finished := s.finished + 1 }

theorem step_offer (s : Shared ι) (i : Nat) : Step s (s.stepOffer i) := by
  unfold stepOffer
  split
  · rename_i c h
    unfold State.offer
    by_cases haccepting : s.selector.accepting = true
    · rw [if_pos haccepting]
      exact .send h haccepting
    · rw [if_neg haccepting]
      exact .refuse h
  · exact .wake ‹_›
  · exact .closeRefused ‹_›
  · exact .idle
  · exact .idle

theorem step_takeReturn {s : Shared ι} (serving : s.thread = .serving) (watchable : Bool) :
    Step s (s.takeReturn watchable) := by
  unfold takeReturn
  split
  · exact .idle
  · cases watchable with
    | true => exact .park serving ‹_›
    | false => exact .giveUp serving ‹_›

theorem step_ready {s : Shared ι} (serving : s.thread = .serving) (token : Token) (answer : Enqueued) :
    Step s (s.ready token answer) := by
  unfold ready State.ready
  cases hfound : s.selector.parked.find? (·.1 == token) with
  | none => exact .idle
  | some entry =>
    obtain ⟨token', c⟩ := entry
    obtain rfl : token' = token := by simpa using List.find?_some hfound
    have hparked := List.mem_of_find?_eq_some hfound
    cases answer with
    | accepted => exact .ready serving hparked (.inl rfl)
    | rejected => exact .ready serving hparked (.inr (.inl rfl))
    | raised fault => exact .ready serving hparked (.inr (.inr rfl))

theorem step_closeAll (s : Shared ι) : Step s s.closeAll := by
  unfold closeAll
  split
  · exact .shut ‹_›
  · exact .drain ‹_›
  · exact .closeOne ‹_›
  · exact .finish ‹_›

theorem next_step (s : Shared ι) (e : Event ι) : Step s (s.next e) := by
  cases e with
  | call c =>
    simp only [next]
    split
    · exact .call ‹_›
    · exact .idle
  | offer i => exact s.step_offer i
  | takeReturn watchable =>
    simp only [next]
    split
    · exact step_takeReturn ‹_› watchable
    · exact .idle
  | ready token answer =>
    simp only [next]
    split
    · exact step_ready ‹_› token answer
    · exact .idle
  | closeAll => exact s.step_closeAll

end

/-! ## Connections in custody -/

/-- Everything that was entered in a list for good. -/
def entries (s : Shared ι) : List ι × List ι × List ι × List ι := (s.offered, s.dispatched, s.closed, s.lost)

inductive Transfer (s t : Shared ι) : Prop
  | admits {c : ι} (free : s.Free c) (custody : t.custody.Perm (c :: s.custody))
      (entered : t.entries = (s.offered ++ [c], s.dispatched, s.closed, s.lost))
  | keeps (custody : t.custody.Perm s.custody) (entered : t.entries = s.entries)
  | closes {c : ι} (custody : (c :: t.custody).Perm s.custody)
      (entered : t.entries = (s.offered, s.dispatched, s.closed ++ [c], s.lost))
  | dispatches {c : ι} (custody : (c :: t.custody).Perm s.custody)
      (entered : t.entries = (s.offered, s.dispatched ++ [c], s.closed, s.lost))
  | loses {c : ι} (custody : (c :: t.custody).Perm s.custody)
      (entered : t.entries = (s.offered, s.dispatched ++ [c], s.closed, s.lost ++ [c]))

section
variable {s t : Shared ι} {c : ι} {i : Nat} {o : Offer ι}

theorem inHands_setOffer (h : s.offers[i]? = some o) (o' : Offer ι) :
    (o.inHand.toList ++ (s.setOffer i o').inHands).Perm (o'.inHand.toList ++ s.inHands) := by
  have hperm := (Pool.State.cons_set_perm h o').filterMap Offer.inHand
  cases hold : o.inHand <;> cases hnew : o'.inHand <;>
    simpa [inHands, setOffer, List.filterMap_cons, hold, hnew] using hperm

theorem offered_setOffer (h : s.offers[i]? = some o) (stage : OfferStage) :
    (s.setOffer i ⟨o.connection, stage⟩).offered = s.offered := by
  obtain ⟨hi, rfl⟩ := List.getElem?_eq_some_iff.mp h
  have hi' : i < (s.offers.map Offer.connection).length := by simpa using hi
  have hsame : (s.offers.map Offer.connection)[i] = s.offers[i].connection := List.getElem_map _
  simp only [offered, setOffer, List.map_set]
  rw [← hsame, List.set_getElem_self hi']

theorem parked_nodup (hn : s.custody.Nodup) : (s.selector.parked.map (·.2)).Nodup :=
  (List.nodup_append.mp (List.nodup_append.mp hn).1).2.1

/-- A connection that the thread is still to take, or about to close, is not parked. -/
theorem not_parked (hn : s.custody.Nodup) (hc : c ∈ s.selector.returned ++ s.thread.left) :
    c ∉ s.selector.parked.map (·.2) := by
  classical
  intro hin
  have hle := List.nodup_iff_count_le_one.mp hn c
  have hparked := List.count_pos_iff.mpr hin
  have helsewhere := List.count_pos_iff.mpr hc
  simp only [custody, List.count_append] at hle helsewhere
  omega

theorem custody_setOffer (h : s.offers[i]? = some o) (o' : Offer ι) :
    (o.inHand.toList ++ (s.setOffer i o').custody).Perm (o'.inHand.toList ++ s.custody) := by
  have hall := (inHands_setOffer h o').append_right
    (s.selector.returned ++ (s.selector.parked.map (·.2) ++ s.thread.left))
  simpa only [custody, List.append_assoc, setOffer] using hall

variable [DecidableEq ι]

theorem custody_send (s : Shared ι) (c : ι) : (s.send c).custody.Perm (c :: s.custody) := by
  refine List.perm_iff_count.mpr fun d => ?_
  simp only [custody, send, inHands, List.count_append, List.count_cons, List.count_nil]
  omega

theorem custody_unpark {token : Token} (hf : Filed s.token s.selector) (hn : s.custody.Nodup)
    (hparked : (token, c) ∈ s.selector.parked) : (c :: (s.unpark token).custody).Perm s.custody := by
  have hperm := (hf.parked_perm (parked_nodup hn) hparked).map (·.2)
  refine List.perm_iff_count.mpr fun d => ?_
  have hcount := hperm.count_eq d
  simp only [custody, unpark, inHands, List.map_cons, List.count_append, List.count_cons] at hcount ⊢
  omega

theorem Step.transfer (h : Step s t) (hf : Filed s.token s.selector) (hn : s.custody.Nodup) : Transfer s t := by
  cases h with
  | idle => exact .keeps (.refl _) rfl
  | @call c free =>
    refine .admits free ?_ (by simp [entries, offered])
    simp only [custody, inHands, List.filterMap_append, List.append_assoc]
    exact List.perm_middle
  | @send i c place =>
    have hset := custody_setOffer (s := s.send c) place ⟨c, .sent⟩
    refine .keeps ((List.perm_cons c).mp (hset.trans (s.custody_send c))) ?_
    exact congrArg (·, s.dispatched, s.closed, s.lost) (offered_setOffer (s := s.send c) place .sent)
  | @refuse i c place =>
    refine .keeps ((List.perm_cons c).mp (custody_setOffer place ⟨c, .refused⟩)) ?_
    exact congrArg (·, s.dispatched, s.closed, s.lost) (offered_setOffer place .refused)
  | @wake i c place =>
    refine .keeps (custody_setOffer place ⟨c, .returned⟩) ?_
    exact congrArg (·, s.dispatched, s.closed, s.lost) (offered_setOffer place .returned)
  | @closeRefused i c place =>
    refine .closes (custody_setOffer (s := s.close c) place ⟨c, .returned⟩) ?_
    exact congrArg (·, s.dispatched, s.closed ++ [c], s.lost) (offered_setOffer (s := s.close c) place .returned)
  | @park c rest _ returned =>
    refine .keeps (List.perm_iff_count.mpr fun d => ?_) rfl
    rw [State.takeReturn_watched returned, hf.displaces_none (not_parked hn (by simp [returned]))]
    simp only [custody, inHands, returned, List.map_append, List.map_singleton, List.count_append, List.count_cons,
      List.count_nil]
    omega
  | @giveUp c rest _ returned =>
    refine .closes (List.perm_iff_count.mpr fun d => ?_) rfl
    rw [State.takeReturn_unwatched returned]
    simp only [custody, close, inHands, returned, List.count_append, List.count_cons]
    omega
  | @ready token c _ _ parked answered =>
    have hout := custody_unpark hf hn parked
    rcases answered with rfl | rfl | rfl
    · exact .dispatches hout rfl
    · exact .closes hout rfl
    · exact .loses hout rfl
  | shut serving =>
    refine .keeps ?_ rfl
    simp [custody, serving, Thread.left, State.shut, inHands]
  | drain shut =>
    refine .keeps (List.perm_iff_count.mpr fun d => ?_) rfl
    simp only [custody, shut, Thread.left, State.drain, inHands, List.count_append, List.map_nil, List.count_nil]
    omega
  | @closeOne c rest closing =>
    refine .closes (List.perm_iff_count.mpr fun d => ?_) rfl
    simp only [custody, close, closing, Thread.left, inHands, List.count_append, List.count_cons]
    omega
  | finish closing =>
    refine .keeps ?_ rfl
    simp [custody, closing, Thread.left, inHands]

theorem Step.filed (h : Step s t) (hf : Filed s.token s.selector) (hn : s.custody.Nodup) :
    Filed t.token t.selector := by
  cases h with
  | idle | call | send | refuse | wake | closeRefused | shut | finish =>
    exact hf.keep (Nat.le_refl _) (List.Subset.refl _)
  | park _ returned => exact hf.park returned
  | giveUp _ returned =>
    rw [State.takeReturn_unwatched returned]
    exact hf.keep (Nat.le_add_right _ _) (List.Subset.refl _)
  | ready _ _ answered =>
    rcases answered with rfl | rfl | rfl <;> exact hf.keep (Nat.le_refl _) (List.filter_subset_self _)
  | drain => exact hf.keep (Nat.le_refl _) (List.nil_subset _)
  | @closeOne c rest closing => exact hf.forget (not_parked hn (by simp [closing, Thread.left]))

/-! ## Each connection once -/

/-- Every connection is in one place, and each offer is accounted for. -/
structure Balanced (s : Shared ι) : Prop where
  once : ∀ d, s.custody.count d + s.closed.count d + s.lost.count d ≤ 1
  accounted : ∀ d, s.offered.count d = s.custody.count d + s.dispatched.count d + s.closed.count d

theorem Balanced.nodup (hb : Balanced s) : s.custody.Nodup :=
  List.nodup_iff_count_le_one.mpr fun d => by
    have := hb.once d
    omega

/-- A step enters a connection where it takes one out. -/
theorem Balanced.transfer (hb : Balanced s) (h : Transfer s t) : Balanced t := by
  have hmoves (d : ι) : t.custody.count d + t.closed.count d + t.lost.count d ≤ 1 ∧
      t.offered.count d = t.custody.count d + t.dispatched.count d + t.closed.count d := by
    have honce := hb.once d
    have haccounted := hb.accounted d
    cases h with
    | @admits c free custody entered =>
      obtain ⟨hoffered, hdispatched, hclosed, hlost⟩ := by simpa only [entries, Prod.mk.injEq] using entered
      have hcustody := custody.count_eq d
      rw [hoffered, hdispatched, hclosed, hlost, hcustody, List.count_append]
      by_cases hdc : d = c
      · subst hdc
        have hfree := List.count_eq_zero.mpr free.1
        have hopen := List.count_eq_zero.mpr free.2.1
        have halive := List.count_eq_zero.mpr free.2.2
        rw [List.count_cons_self, List.count_singleton_self]
        omega
      · rw [List.count_cons_of_ne (Ne.symm hdc), List.count_singleton, if_neg (by simpa using Ne.symm hdc)]
        omega
    | keeps custody entered =>
      obtain ⟨hoffered, hdispatched, hclosed, hlost⟩ := by simpa only [entries, Prod.mk.injEq] using entered
      rw [hoffered, hdispatched, hclosed, hlost, custody.count_eq d]
      exact ⟨honce, haccounted⟩
    | @closes c custody entered | @dispatches c custody entered | @loses c custody entered =>
      obtain ⟨hoffered, hdispatched, hclosed, hlost⟩ := by simpa only [entries, Prod.mk.injEq] using entered
      have hcustody := custody.count_eq d
      rw [List.count_cons] at hcustody
      rw [hoffered, hdispatched, hclosed, hlost]
      simp only [List.count_append, List.count_singleton]
      omega
  exact ⟨fun d => (hmoves d).1, fun d => (hmoves d).2⟩

end

/-! ## After all is closed -/

section
variable {s t : Shared ι}

/-- Who closes all refuses offers first, and has nothing left at the end. -/
structure Shut (s : Shared ι) : Prop where
  refusing : s.thread ≠ .serving ∨ 0 < s.finished → s.selector.accepting = false
  emptied : s.thread.isClosing = true ∨ 0 < s.finished → s.selector.returned = [] ∧ s.selector.parked = []
  idle : 0 < s.finished → s.thread.left = []

theorem Shut.of_serving (hserving : s.thread = .serving) (hnever : ¬0 < s.finished) : Shut s where
  refusing hsome := absurd hsome (not_or.mpr ⟨not_not.mpr hserving, hnever⟩)
  emptied hsome := by
    rcases hsome with hclosing | hfinished
    · rw [hserving] at hclosing
      cases hclosing
    · exact absurd hfinished hnever
  idle hfinished := absurd hfinished hnever

/-- When all is closed and every call has returned, nothing is in custody. -/
theorem Shut.custody_eq_nil (hs : Shut s) (hfinished : 0 < s.finished)
    (hreturned : ∀ o ∈ s.offers, o.stage = .returned) : s.custody = [] := by
  obtain ⟨hqueue, hparked⟩ := hs.emptied (.inr hfinished)
  have hhands : s.inHands = [] := by
    refine List.filterMap_eq_nil_iff.mpr fun o hin => ?_
    simp only [Offer.inHand, hreturned o hin]
  simp [custody, hhands, hqueue, hparked, hs.idle hfinished]

variable [DecidableEq ι]

theorem Shut.step (hs : Shut s) (h : Step s t) : Shut t := by
  cases h with
  | idle | call | refuse | wake | closeRefused => exact ⟨hs.refusing, hs.emptied, hs.idle⟩
  | send _ accepting =>
    refine ⟨hs.refusing, fun hsome => ?_, hs.idle⟩
    -- an offer is not sent any more once all is being closed
    have hrefusing : s.selector.accepting = false := by
      refine hs.refusing (hsome.imp_left fun hclosing hserving => ?_)
      have hthread : s.thread.isClosing = true := hclosing
      rw [hserving] at hthread
      cases hthread
    rw [accepting] at hrefusing
    cases hrefusing
  | park serving returned | giveUp serving returned =>
    refine Shut.of_serving serving fun hfinished => ?_
    have hnone := (hs.emptied (.inr hfinished)).1
    rw [returned] at hnone
    cases hnone
  | ready serving parked answered =>
    have hnever : ¬0 < s.finished := fun hfinished => by
      rw [(hs.emptied (.inr hfinished)).2] at parked
      cases parked
    rcases answered with rfl | rfl | rfl <;> exact Shut.of_serving serving hnever
  | shut serving =>
    refine ⟨fun _ => rfl, fun hsome => ?_, fun _ => rfl⟩
    exact hs.emptied (hsome.imp_left nofun)
  | drain shut =>
    refine ⟨fun _ => ?_, fun _ => ⟨rfl, rfl⟩, fun hfinished => ?_⟩
    · exact hs.refusing (.inl (by rw [shut]; exact nofun))
    · obtain ⟨hreturned, hparked⟩ := hs.emptied (.inr hfinished)
      simp [Thread.left, State.drain, hreturned, hparked]
  | closeOne closing =>
    refine ⟨fun _ => ?_, fun _ => ?_, fun hfinished => ?_⟩
    · exact hs.refusing (.inl (by rw [closing]; exact nofun))
    · exact hs.emptied (.inl (by rw [closing]; rfl))
    · have hnone := hs.idle hfinished
      rw [closing] at hnone
      cases hnone
  | finish closing =>
    refine ⟨fun _ => ?_, fun _ => ?_, fun _ => rfl⟩
    · exact hs.refusing (.inl (by rw [closing]; exact nofun))
    · exact hs.emptied (.inl (by rw [closing]; rfl))

/-! ## Every run -/

structure Sound (s : Shared ι) : Prop where
  filed : Filed s.token s.selector
  balanced : Balanced s
  shut : Shut s

theorem sound_empty : Sound ({} : Shared ι) where
  filed := ⟨nofun, nofun, nofun⟩
  balanced := by
    constructor <;> intro d <;> simp [offered, custody, inHands, Thread.left]
  shut := .of_serving rfl (Nat.lt_irrefl 0)

theorem Sound.step (hs : Sound s) (h : Step s t) : Sound t where
  filed := h.filed hs.filed hs.balanced.nodup
  balanced := hs.balanced.transfer (h.transfer hs.filed hs.balanced.nodup)
  shut := hs.shut.step h

theorem Sound.run (hs : Sound s) (events : List (Event ι)) : Sound (final next s events) :=
  along (fun _ t => Sound t) hs (fun _ t e ht => ht.step (t.next_step e)) events

theorem Step.finished_le (h : Step s t) : s.finished ≤ t.finished := by
  cases h with
  | finish => exact Nat.le_succ _
  | ready _ _ answered => rcases answered with rfl | rfl | rfl <;> exact Nat.le_refl _
  | _ => exact Nat.le_refl _

theorem finished_le_run (s : Shared ι) (events : List (Event ι)) : s.finished ≤ (final next s events).finished :=
  along (fun _ (t : Shared ι) => s.finished ≤ t.finished) (Nat.le_refl _)
    (fun _ t e hle => Nat.le_trans hle (t.next_step e).finished_le) events

/-- Of every run of a selector, whoever offers which connections and when, whichever of them
    can be watched or get ready, whatever the pool answers, and however often all is closed.
    No connection is closed twice. Once all has been closed, nothing waits for the selector
    and nothing is parked, then and ever after; and when every call has returned by then, the
    offers made are those of connections that went to the pool and of connections that are
    closed. -/
theorem closed_or_dispatched (events : List (Event ι)) :
    let s := final next ({} : Shared ι) events
    s.closed.Nodup ∧
    (0 < s.finished →
      (∀ later, (final next s later).selector.returned = [] ∧ (final next s later).selector.parked = []) ∧
      ((∀ o ∈ s.offers, o.stage = .returned) → s.offered.Perm (s.dispatched ++ s.closed))) := by
  intro s
  have hs : Sound s := sound_empty.run events
  refine ⟨?_, fun hfinished => ⟨fun later => ?_, fun hreturned => ?_⟩⟩
  · refine List.nodup_iff_count_le_one.mpr fun d => ?_
    have honce := hs.balanced.once d
    omega
  · exact (hs.run later).shut.emptied (.inr (Nat.lt_of_lt_of_le hfinished (s.finished_le_run later)))
  · refine List.perm_iff_count.mpr fun d => ?_
    have haccounted := hs.balanced.accounted d
    rw [hs.shut.custody_eq_nil hfinished hreturned, List.count_nil] at haccounted
    rw [List.count_append]
    omega

/-- Connection 0 is parked, goes to the pool, and is offered again; connection 1 is parked, 2
    and 3 are sent, when all is closed. The second offer of connection 0 comes too late, and
    its caller closes it behind the selector. -/
theorem parked_sent_and_late_closed :
    let events : List (Event Nat) := List.flatten
      [[.call 0, .offer 0, .takeReturn true, .offer 0, .ready 2 .accepted],
        [.call 1, .offer 1, .takeReturn true, .offer 1],
        [.call 2, .offer 2, .call 0, .call 3, .offer 4, .closeAll, .offer 3],
        List.replicate 5 .closeAll, [.offer 2, .offer 4, .offer 3]]
    let s := final next ({} : Shared Nat) events
    0 < s.finished ∧ (∀ o ∈ s.offers, o.stage = .returned) ∧ s.offered = [0, 1, 2, 0, 3] ∧ s.dispatched = [0] ∧
    s.closed = [1, 2, 3, 0] ∧ s.closed.Nodup ∧ s.selector.parked = [] ∧ s.offered.Perm (s.dispatched ++ s.closed) := by
  intro events s
  have finished : 0 < s.finished := by decide
  have returned : ∀ o ∈ s.offers, o.stage = .returned := by decide
  obtain ⟨honce, hall⟩ := closed_or_dispatched events
  obtain ⟨hempty, haccounted⟩ := hall finished
  exact ⟨finished, returned, by decide, by decide, by decide, honce, (hempty []).2, haccounted returned⟩

end

end Shared

end MessageBroker.Selector
