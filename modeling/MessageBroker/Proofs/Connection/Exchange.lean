/-
  MessageBroker.Proofs.Connection.Exchange — the reads and writes of one unit of work.

  A script says what a socket has to give and to take. `reads` and `writes` are the calls
  that are made of it, one after the other, each with what it was answered.
  - `readInput_spec`: the decoder is fed what the reads brought, they are counted, and how
    the reading ended is what the last of them was answered, or that the budget is spent.
  - `readInput_feeds`: what this does to the unread bytes.
  - `weight_rest`: reading uses up its script.
  - `writeOutput_spec`: what the writes took is the front of what was to be written, and
    writing stops early only where the last of them was answered so.
  - `flows_rest` / `flows_writeOutput`: while the peer neither ends nor fails, reading and
    writing do not fail.
-/

import MessageBroker.Connection.Socket

namespace MessageBroker.Connection

open Wire

/-! ## Reads -/

def Arrival.data : Arrival → Bytes
  | .bytes data => data
  | _ => []

structure Read where
  asked : Nat
  answer : Arrival
  deriving DecidableEq, Repr

/-- The reads made along a script, first one first, while `left` bytes may be read. -/
def reads (left : Nat) (arrivals : List Arrival) : List Read :=
  if _ : left = 0 then []
  else
    let asked := min readSize left
    match arrivals with
    | [] => [⟨asked, .blocked⟩]
    | .blocked :: _ => [⟨asked, .blocked⟩]
    | .interrupted :: rest => ⟨asked, .interrupted⟩ :: reads left rest
    | .failed e :: _ => [⟨asked, .failed e⟩]
    | .bytes [] :: _ => [⟨asked, .bytes []⟩]
    | .bytes (b :: more) :: rest =>
      let taken := (b :: more).take asked
      let unread := (b :: more).drop asked
      ⟨asked, .bytes taken⟩ ::
        reads (left - taken.length) (if unread = [] then rest else .bytes unread :: rest)
termination_by weight arrivals
decreasing_by
  · simp [weight]
  · have hasked : 0 < min readSize left := by simp only [readSize]; omega
    split
    · simp only [weight]
      omega
    · simp only [weight, List.length_drop, List.length_cons]
      omega

def brought (log : List Read) : Bytes := log.flatMap (·.answer.data)

/-- How a reading ends whose reads were these. -/
def endOf (log : List Read) : ReadEnd :=
  match log.getLast? with
  | some ⟨_, .blocked⟩ => .blocked
  | some ⟨_, .failed e⟩ => .failed e
  | some ⟨_, .bytes []⟩ => .inputEnded
  | _ => .budgetSpent

structure ReadsAs (left : Nat) (arrivals : List Arrival) (log : List Read) (r : Reading) : Prop where
  count_eq : r.count = (brought log).length
  count_le : r.count ≤ left
  ending_eq : r.ending = endOf log
  /-- Every read asked for something, and got no more than that. -/
  asked : ∀ x ∈ log, 0 < x.asked ∧ x.answer.data.length ≤ x.asked
  /-- The script's bytes are those brought and those it still has. -/
  data_eq : arrivals.flatMap Arrival.data = brought log ++ r.rest.flatMap Arrival.data

theorem endOf_cons {x : Read} (h : endOf [x] = .budgetSpent) (log : List Read) : endOf (x :: log) = endOf log := by
  cases log with
  | nil => exact h
  | cons y log => simp [endOf, List.getLast?_cons_cons]

theorem last_of_blocked {log : List Read} (h : endOf log = .blocked) : ∃ n, log.getLast? = some ⟨n, .blocked⟩ := by
  unfold endOf at h
  split at h
  · exact ⟨_, ‹_›⟩
  all_goals cases h

theorem mem_of_failed {log : List Read} {e : IoError} (h : endOf log = .failed e) : ∃ x ∈ log, x.answer = .failed e := by
  unfold endOf at h
  split at h
  · cases h
  · injection h with h
    exact ⟨_, List.mem_of_getLast? ‹_›, by rw [h]⟩
  all_goals cases h

theorem readsAs_last {left : Nat} (hleft : left ≠ 0) (answer : Arrival) {arrivals : List Arrival} {r : Reading}
    (hcount : r.count = 0) (hending : r.ending = endOf [⟨min readSize left, answer⟩])
    (hdata : answer.data = [])
    (hrest : arrivals.flatMap Arrival.data = r.rest.flatMap Arrival.data) :
    ReadsAs left arrivals [⟨min readSize left, answer⟩] r where
  count_eq := by simp [hcount, brought, hdata]
  count_le := by omega
  ending_eq := hending
  asked x hx := by
    rw [List.mem_singleton.mp hx, hdata]
    simp only [readSize, List.length_nil]
    omega
  data_eq := by simp [hrest, brought, hdata]

theorem ReadsAs.cons {left : Nat} (hleft : left ≠ 0) (answer : Arrival) {arrivals later : List Arrival}
    {log : List Read} {r : Reading} (h : ReadsAs (left - answer.data.length) later log r)
    (hfits : answer.data.length ≤ min readSize left) (hgoes : endOf [⟨min readSize left, answer⟩] = .budgetSpent)
    (hdata : arrivals.flatMap Arrival.data = answer.data ++ later.flatMap Arrival.data) :
    ReadsAs left arrivals (⟨min readSize left, answer⟩ :: log) { r with count := r.count + answer.data.length } where
  count_eq := by simp only [brought, List.flatMap_cons, List.length_append, h.count_eq]; omega
  count_le := by have := h.count_le; simp only; omega
  ending_eq := (h.ending_eq).trans (endOf_cons hgoes log).symm
  asked x hx := by
    rcases List.mem_cons.mp hx with rfl | hx
    · refine ⟨?_, hfits⟩
      simp only [readSize]
      omega
    · exact h.asked x hx
  data_eq := by rw [hdata, h.data_eq, ← List.append_assoc]; rfl

theorem readInput_spec (d : Decoder) (left : Nat) (arrivals : List Arrival) :
    ReadsAs left arrivals (reads left arrivals) (readInput d left arrivals) := by
  fun_induction readInput d left arrivals with
  | case1 d arrivals =>
    rw [reads, dif_pos rfl]
    exact ⟨rfl, Nat.le_refl 0, rfl, nofun, rfl⟩
  | case2 d left hleft =>
    rw [reads, dif_neg hleft]
    exact readsAs_last hleft _ rfl rfl rfl rfl
  | case3 d left hleft rest =>
    rw [reads, dif_neg hleft]
    exact readsAs_last hleft _ rfl rfl rfl rfl
  | case4 d left hleft rest ih =>
    rw [reads, dif_neg hleft]
    exact ReadsAs.cons hleft .interrupted ih (Nat.zero_le _) rfl rfl
  | case5 d left hleft e rest =>
    rw [reads, dif_neg hleft]
    exact readsAs_last hleft _ rfl rfl rfl rfl
  | case6 d left hleft rest =>
    rw [reads, dif_neg hleft]
    exact readsAs_last hleft _ rfl rfl rfl rfl
  | case7 d left hleft b more rest asked taken unread reading ih =>
    rw [reads, dif_neg hleft]
    have htaken : taken.length ≤ min readSize left := by rw [List.length_take]; exact Nat.min_le_left _ _
    have hsome : taken ≠ [] := by simp only [taken, asked, readSize, ne_eq, List.take_eq_nil_iff]; simp; omega
    refine ReadsAs.cons hleft (.bytes taken) ih htaken ?_ ?_
    · cases htaken : taken with
      | nil => exact absurd htaken hsome
      | cons x xs => rfl
    · have hsplit : taken ++ unread = b :: more := List.take_append_drop _ _
      split
      · rename_i hnone
        rw [hnone, List.append_nil] at hsplit
        simp [Arrival.data, hsplit]
      · rw [List.flatMap_cons, List.flatMap_cons, ← List.append_assoc]
        exact congrArg (· ++ _) hsplit.symm

theorem readInput_feeds {d : Decoder} (hpos : d.pos ≤ d.buffer.length) (left : Nat) (arrivals : List Arrival) :
    (readInput d left arrivals).decoder.unread = d.unread ++ brought (reads left arrivals) ∧
    (readInput d left arrivals).decoder.pos ≤ (readInput d left arrivals).decoder.buffer.length := by
  fun_induction readInput d left arrivals with
  | case1 d arrivals =>
    rw [reads, dif_pos rfl]
    exact ⟨(List.append_nil _).symm, hpos⟩
  | case2 d left hleft | case3 d left hleft | case5 d left hleft | case6 d left hleft =>
    rw [reads, dif_neg hleft]
    exact ⟨(List.append_nil _).symm, hpos⟩
  | case4 d left hleft rest ih =>
    rw [reads, dif_neg hleft]
    exact ih hpos
  | case7 d left hleft b more rest asked taken unread reading ih =>
    rw [reads, dif_neg hleft]
    obtain ⟨hunread, hpos'⟩ := ih (Decoder.pos_le_feed hpos taken)
    refine ⟨?_, hpos'⟩
    rw [Decoder.unread_feed hpos, List.append_assoc] at hunread
    exact hunread

theorem readInput_keeps {α : Type} (f : Decoder → α) (feed : ∀ d data, f (d.feed data) = f d) (d : Decoder) (left : Nat)
    (arrivals : List Arrival) : f (readInput d left arrivals).decoder = f d := by
  fun_induction readInput d left arrivals with
  | case1 | case2 | case3 | case5 | case6 => rfl
  | case4 _ _ _ _ ih => exact ih
  | case7 d _ _ _ _ _ _ taken _ _ ih => exact ih.trans (feed d taken)

@[simp] theorem limit_readInput (d : Decoder) (left : Nat) (arrivals : List Arrival) :
    (readInput d left arrivals).decoder.limit = d.limit :=
  readInput_keeps Decoder.limit Decoder.limit_feed d left arrivals

theorem eq_nil_of_weight {arrivals : List Arrival} (h : weight arrivals = 0) : arrivals = [] := by
  cases arrivals with
  | nil => rfl
  | cons a rest => cases a <;> simp only [weight] at h <;> omega

/-- Reading uses up some of its script, unless there is none or nothing may be read. -/
theorem weight_rest (d : Decoder) (left : Nat) (arrivals : List Arrival) :
    weight (readInput d left arrivals).rest ≤ weight arrivals ∧
      (left ≠ 0 → arrivals ≠ [] → weight (readInput d left arrivals).rest < weight arrivals) := by
  fun_induction readInput d left arrivals with
  | case1 d arrivals => exact ⟨Nat.le_refl _, fun h => absurd rfl h⟩
  | case2 d left hleft => exact ⟨Nat.le_refl _, fun _ h => absurd rfl h⟩
  | case3 | case5 => simp only [weight]; omega
  | case4 d left hleft rest ih => simp only [weight] at ih ⊢; omega
  | case6 d left hleft rest => simp only [weight, List.length_nil]; omega
  | case7 d left hleft b more rest asked taken unread reading ih =>
    have hasked : 0 < asked := by simp only [asked, readSize]; omega
    have hunread : unread.length < (b :: more).length := by
      rw [List.length_drop, List.length_cons]
      omega
    have hless : weight (if unread = [] then rest else .bytes unread :: rest) < weight (.bytes (b :: more) :: rest) := by
      split <;> simp only [weight, List.length_cons] at hunread ⊢ <;> omega
    have hrest := Nat.lt_of_le_of_lt ih.1 hless
    exact ⟨Nat.le_of_lt hrest, fun _ _ => hrest⟩

theorem failed_mem {left : Nat} {arrivals : List Arrival} {x : Read} {e : IoError} (hx : x ∈ reads left arrivals)
    (he : x.answer = .failed e) : .failed e ∈ arrivals := by
  fun_induction reads left arrivals with
  | case1 => cases hx
  | case2 | case3 | case6 =>
    rw [List.mem_singleton.mp hx] at he
    cases he
  | case4 left hleft asked rest ih =>
    rcases List.mem_cons.mp hx with rfl | hx
    · cases he
    · exact List.mem_cons_of_mem _ (ih hx)
  | case5 left hleft asked e' rest =>
    rw [List.mem_singleton.mp hx] at he
    exact he ▸ List.mem_cons_self
  | case7 left hleft asked b more rest taken unread ih =>
    rcases List.mem_cons.mp hx with rfl | hx
    · cases he
    · have hin := ih hx
      split at hin
      · exact List.mem_cons_of_mem _ hin
      · rcases List.mem_cons.mp hin with hin | hin
        · cases hin
        · exact List.mem_cons_of_mem _ hin

def Arrival.Flows : Arrival → Prop
  | .bytes data => data ≠ []
  | .failed _ => False
  | _ => True

theorem flows_rest (d : Decoder) (left : Nat) {arrivals : List Arrival} (h : ∀ a ∈ arrivals, a.Flows) :
    (∀ a ∈ (readInput d left arrivals).rest, a.Flows) ∧
      ((readInput d left arrivals).ending = .blocked ∨ (readInput d left arrivals).ending = .budgetSpent) := by
  fun_induction readInput d left arrivals with
  | case1 => exact ⟨h, .inr rfl⟩
  | case2 => exact ⟨h, .inl rfl⟩
  | case3 d left hleft rest => exact ⟨fun a ha => h a (List.mem_cons_of_mem _ ha), .inl rfl⟩
  | case4 d left hleft rest ih => exact ih fun a ha => h a (List.mem_cons_of_mem _ ha)
  | case5 d left hleft e rest => exact (h _ List.mem_cons_self).elim
  | case6 d left hleft rest => exact absurd rfl (h _ List.mem_cons_self)
  | case7 d left hleft b more rest asked taken unread reading ih =>
    refine ih fun a ha => ?_
    split at ha
    · exact h a (List.mem_cons_of_mem _ ha)
    · rename_i hunread
      rcases List.mem_cons.mp ha with rfl | ha
      · exact hunread
      · exact h a (List.mem_cons_of_mem _ ha)

/-! ## Writes -/

/-- One write: the outbox it was made from, all of whose unwritten bytes it offered, and
    the answer. -/
structure Write where
  outbox : Outbox
  answer : Acceptance
  deriving DecidableEq, Repr

def Write.taken (w : Write) : Bytes :=
  match w.answer with
  | .bytes count => w.outbox.unwritten.take count
  | _ => []

def writes (outbox : Outbox) (acceptances : List Acceptance) : List Write :=
  if outbox.isEmpty then []
  else
    match acceptances with
    | [] => [⟨outbox, .blocked⟩]
    | .blocked :: _ => [⟨outbox, .blocked⟩]
    | .interrupted :: rest => ⟨outbox, .interrupted⟩ :: writes outbox rest
    | .failed e :: _ => [⟨outbox, .failed e⟩]
    | .bytes 0 :: _ => [⟨outbox, .bytes 0⟩]
    | .bytes (n + 1) :: rest =>
      let taken := outbox.unwritten.take (n + 1)
      ⟨outbox, .bytes taken.length⟩ :: writes (outbox.advance taken.length) rest

def sent (log : List Write) : Bytes := log.flatMap Write.taken

structure WritesAs (outbox : Outbox) (log : List Write) (w : Writing) : Prop where
  written_eq : w.written = sent log
  unwritten_eq : outbox.unwritten = w.written ++ w.outbox.unwritten
  queued_eq : w.outbox.queued = outbox.queued
  offset_le : outbox.offset ≤ outbox.buffer.length → w.outbox.offset ≤ w.outbox.buffer.length
  /-- No write takes the offset past the end. -/
  within : ∀ x ∈ log, x.outbox.offset < x.outbox.buffer.length ∧
    ∀ n, x.answer = .bytes n → x.outbox.offset + n ≤ x.outbox.buffer.length
  stopped : w.result = .ok () → w.outbox.isEmpty = true ∨ ∃ last, log.getLast? = some last ∧ last.answer = .blocked

theorem Outbox.offset_lt {o : Outbox} (h : o.isEmpty ≠ true) : o.offset < o.buffer.length := by
  have hpending : o.pending ≠ 0 := by simpa [Outbox.isEmpty] using h
  rw [Outbox.pending] at hpending
  omega

theorem writesAs_last {outbox : Outbox} (hsome : outbox.isEmpty ≠ true) (answer : Acceptance)
    (hnone : ∀ n, answer = .bytes n → n = 0) (result : Except IoError Unit)
    (hresult : result = .ok () → answer = .blocked) (rest : List Acceptance) :
    WritesAs outbox [⟨outbox, answer⟩] { outbox, result, rest } where
  written_eq := by
    cases answer with
    | bytes n => simp [sent, Write.taken, hnone n rfl]
    | blocked | interrupted | failed e => rfl
  unwritten_eq := rfl
  queued_eq := rfl
  offset_le := id
  within x hx := by
    rw [List.mem_singleton.mp hx]
    refine ⟨Outbox.offset_lt hsome, fun n hn => ?_⟩
    rw [hnone n hn]
    exact Nat.le_of_lt (Outbox.offset_lt hsome)
  stopped h := .inr ⟨_, rfl, hresult h⟩

theorem WritesAs.cons {outbox next : Outbox} (hsome : outbox.isEmpty ≠ true) (answer : Acceptance)
    {log : List Write} {w : Writing} (h : WritesAs next log w)
    (hnext : outbox.unwritten = Write.taken ⟨outbox, answer⟩ ++ next.unwritten) (hqueued : next.queued = outbox.queued)
    (hoffset : outbox.offset ≤ outbox.buffer.length → next.offset ≤ next.buffer.length)
    (hwithin : ∀ n, answer = .bytes n → n ≤ outbox.unwritten.length) :
    WritesAs outbox (⟨outbox, answer⟩ :: log) { w with written := Write.taken ⟨outbox, answer⟩ ++ w.written } where
  written_eq := by rw [h.written_eq]; rfl
  unwritten_eq := by rw [hnext, h.unwritten_eq, List.append_assoc]
  queued_eq := h.queued_eq.trans hqueued
  offset_le := h.offset_le ∘ hoffset
  within x hx := by
    rcases List.mem_cons.mp hx with rfl | hx
    · refine ⟨Outbox.offset_lt hsome, fun n hn => ?_⟩
      have hn := hwithin n hn
      have hlt := Outbox.offset_lt hsome
      rw [Outbox.length_unwritten, Outbox.pending] at hn
      simp only
      omega
    · exact h.within x hx
  stopped hok := by
    rcases h.stopped hok with hempty | ⟨last, hlast, hblocked⟩
    · exact .inl hempty
    · refine .inr ⟨last, ?_, hblocked⟩
      rw [List.getLast?_cons, hlast]
      rfl

theorem writeOutput_spec (outbox : Outbox) (acceptances : List Acceptance) :
    WritesAs outbox (writes outbox acceptances) (writeOutput outbox acceptances) := by
  fun_induction writeOutput outbox acceptances with
  | case1 acceptances outbox hempty =>
    have hlog : writes outbox acceptances = [] := by rw [writes.eq_def, if_pos hempty]
    rw [hlog]
    exact ⟨rfl, rfl, rfl, id, nofun, fun _ => .inl hempty⟩
  | case2 outbox hsome =>
    rw [writes, if_neg hsome]
    exact writesAs_last hsome .blocked (fun _ => nofun) (.ok ()) (fun _ => rfl) []
  | case3 outbox hsome rest =>
    rw [writes, if_neg hsome]
    exact writesAs_last hsome .blocked (fun _ => nofun) (.ok ()) (fun _ => rfl) rest
  | case4 outbox hsome rest ih =>
    rw [writes, if_neg hsome]
    exact WritesAs.cons hsome .interrupted ih rfl rfl id (fun _ => nofun)
  | case5 outbox hsome e rest =>
    rw [writes, if_neg hsome]
    exact writesAs_last hsome (.failed e) (fun _ => nofun) (.error e) nofun rest
  | case6 outbox hsome rest =>
    rw [writes, if_neg hsome]
    exact writesAs_last hsome (.bytes 0) (fun n h => by injection h with h; exact h.symm) (.error .wroteNothing) nofun
      rest
  | case7 outbox hsome n rest taken writing ih =>
    rw [writes, if_neg hsome]
    have htaken : Write.taken ⟨outbox, .bytes taken.length⟩ = taken :=
      (List.prefix_iff_eq_take.mp (List.take_prefix _ _)).symm
    have hadvance : outbox.unwritten = taken ++ (outbox.advance taken.length).unwritten := by
      rw [Outbox.unwritten_advance]
      exact (List.prefix_iff_eq_append.mp (List.take_prefix _ _)).symm
    have h := WritesAs.cons hsome (.bytes taken.length) ih (by rw [htaken]; exact hadvance) ?_
      (fun _ => Outbox.offset_le_advance _ _) ?_
    · rw [htaken] at h
      exact h
    · simp only [Outbox.advance]
      split <;> rfl
    · intro k hk
      injection hk with hk
      rw [← hk, List.length_take]
      exact Nat.min_le_right _ _

def Acceptance.Flows : Acceptance → Prop
  | .bytes count => count ≠ 0
  | .failed _ => False
  | _ => True

theorem flows_writeOutput (outbox : Outbox) {acceptances : List Acceptance} (h : ∀ a ∈ acceptances, a.Flows) :
    (writeOutput outbox acceptances).result = .ok () := by
  fun_induction writeOutput outbox acceptances with
  | case1 | case2 | case3 => rfl
  | case4 _ _ _ ih => exact ih fun a ha => h a (List.mem_cons_of_mem _ ha)
  | case5 _ _ e => exact (h _ List.mem_cons_self).elim
  | case6 => exact absurd rfl (h _ List.mem_cons_self)
  | case7 _ _ _ _ _ _ ih => exact ih fun a ha => h a (List.mem_cons_of_mem _ ha)

end MessageBroker.Connection
