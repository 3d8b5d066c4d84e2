/-
  MessageBroker.Proofs.Connection.Buffering — how much of its input a connection keeps.

  A unit of work is one round of its decoder: what its reads bring is fed, no more than the
  unit may read, and payloads are asked for until none is left. So what
  `Proofs.Wire.Buffering` says of rounds bounds what a connection holds of its input.
  - `readInput_fed` / `handleFrames_decodes`: what reading and handling do to the decoder.
  - `doesRound`: a unit of an open connection does a round, and completes it if it leaves
    the connection open.
  - `Goes`: the invariant, kept by every unit that raises no fault.
  - `buffer_bounded`: the bounds, and that they hold of connections.
-/

import MessageBroker.Proofs.Connection.Reception
import MessageBroker.Proofs.Wire.Buffering

namespace MessageBroker.Connection

open Wire
open Decoder (Round Rounds)

variable {σ : Type}

/-! ## What reading and handling do to a decoder -/

def piecesOf (log : List Read) : List Bytes := (log.map (·.answer.data)).filter (· ≠ [])

theorem piecesOf_cons_nil {x : Read} (h : x.answer.data = []) (log : List Read) : piecesOf (x :: log) = piecesOf log := by
  rw [piecesOf, List.map_cons, h]
  exact List.filter_cons_of_neg (by simp)

theorem piecesOf_cons {x : Read} (h : x.answer.data ≠ []) (log : List Read) :
    piecesOf (x :: log) = x.answer.data :: piecesOf log := by
  rw [piecesOf, List.map_cons]
  exact List.filter_cons_of_pos (by simpa using h)

theorem size_piecesOf (log : List Read) : ((piecesOf log).map List.length).sum = (brought log).length := by
  induction log with
  | nil => rfl
  | cons x log ih =>
    have hbrought : brought (x :: log) = x.answer.data ++ brought log := List.flatMap_cons
    by_cases hdata : x.answer.data = []
    · rw [piecesOf_cons_nil hdata, hbrought, hdata, ih]
      rfl
    · rw [piecesOf_cons hdata, hbrought, List.map_cons, List.sum_cons, ih, List.length_append]

theorem readInput_fed (d : Decoder) (left : Nat) (arrivals : List Arrival) :
    (readInput d left arrivals).decoder =
      History.final Decoder.next d ((piecesOf (reads left arrivals)).map .feed) := by
  fun_induction readInput d left arrivals with
  | case1 d arrivals =>
    rw [reads, dif_pos rfl]
    rfl
  | case2 d left hleft | case3 d left hleft | case5 d left hleft | case6 d left hleft =>
    rw [reads, dif_neg hleft]
    rfl
  | case4 d left hleft rest ih =>
    rw [reads, dif_neg hleft]
    exact ih
  | case7 d left hleft b more rest asked taken unread reading ih =>
    have hsome : taken ≠ [] := by
      simp only [taken, asked, readSize, ne_eq, List.take_eq_nil_iff]
      simp
      omega
    rw [reads, dif_neg hleft]
    simp only
    rw [piecesOf_cons (show (Arrival.bytes taken).data ≠ [] from hsome)]
    exact ih

/-- Handling frames asks for payloads; where it ends well, until none is left. -/
theorem handleFrames_decodes (h : Handler σ) (c : Connection σ) :
    ∃ n, (c.handleFrames h).2.decoder = History.final Decoder.next c.decoder (List.replicate n .decode) ∧
      ((c.handleFrames h).1 = .returned (.ok ()) → ∃ k, n = k + 1 ∧
        (History.final Decoder.next c.decoder (List.replicate k .decode)).decode.1 = .ok none) := by
  fun_induction handleFrames h c with
  | case1 c e decoder heq =>
    refine ⟨1, ?_, fun hok => ?_⟩
    · show decoder = c.decoder.decode.2
      rw [heq]
    · cases hok
  | case2 c decoder heq =>
    refine ⟨1, ?_, fun _ => ⟨0, rfl, ?_⟩⟩
    · show decoder = c.decoder.decode.2
      rw [heq]
    · show c.decoder.decode.1 = .ok none
      rw [heq]
  | case3 c payload decoder heq handled next _ ih =>
    obtain ⟨n, hdecoder, hnone⟩ := ih
    have hnext : next.decoder = c.decoder.next .decode := by
      show decoder = c.decoder.decode.2
      rw [heq]
    rw [hnext] at hdecoder hnone
    refine ⟨n + 1, hdecoder, fun hok => ?_⟩
    obtain ⟨k, rfl, hk⟩ := hnone hok
    exact ⟨k + 1, rfl, hk⟩
  | case4 c payload decoder heq handled next hrefused =>
    refine ⟨1, ?_, fun hok => absurd hok hrefused⟩
    show decoder = c.decoder.decode.2
    rw [heq]

/-! ## One unit of work -/

/-- A unit of work does the round `r` with its decoder. -/
structure DoesRound (h : Handler σ) (c : Connection σ) (socket : Socket) (r : Round) : Prop where
  pieces_eq : r.pieces = piecesOf (c.readsIn socket)
  size_le : r.size ≤ c.readBudget
  /-- When it has read, and when it has handled what it could decode. -/
  filled_eq : (c.filled socket).decoder = History.final Decoder.next c.decoder (r.pieces.map .feed)
  served_eq : (c.served h socket).decoder = History.final Decoder.next c.decoder r.events
  completes : (c.work h socket).outcome = .returned false →
    r.Completes c.decoder ∧ (c.work h socket).connection.decoder = (c.served h socket).decoder

section
variable {h : Handler σ} {c : Connection σ}

theorem doesRound (h : Handler σ) (hopen : c.closed = false) (socket : Socket) : ∃ r, DoesRound h c socket r := by
  have hread := readInput_spec c.decoder c.readBudget socket.arrivals
  have hfilled : (c.filled socket).decoder =
      History.final Decoder.next c.decoder ((piecesOf (reads c.readBudget socket.arrivals)).map .feed) := by
    rw [filled_eq]
    exact readInput_fed _ _ _
  obtain ⟨n, hserved, hnone⟩ := handleFrames_decodes h (c.filled socket)
  rw [hfilled, ← History.final_append] at hserved
  refine ⟨⟨piecesOf (reads c.readBudget socket.arrivals), n⟩, by rw [readsIn_open hopen], ?_, hfilled, hserved, fun hgoes => ?_⟩
  · rw [Round.size, size_piecesOf, ← hread.count_eq]
    exact hread.count_le
  · have hwell := work_goesOn_iff.mp hgoes
    obtain ⟨k, hk, hlast⟩ := hnone hwell.handled
    obtain ⟨more, -, hpolled⟩ := hwell.polled_eq
    refine ⟨⟨k, hk, ?_⟩, ?_⟩
    · rw [History.final_append, ← hfilled]
      exact hlast
    · rw [hwell.work.2.1, flush_eq, hpolled]

theorem readBudget_drive (h : Handler σ) (c : Connection σ) (socket : Socket) :
    (drive h c.begun socket).connection.readBudget = c.readBudget := by
  have hfilled : (c.filled socket).readBudget = c.readBudget := by rw [filled_eq]; rfl
  rw [← hfilled]
  refine drive_keeps Connection.readBudget (fun c => ?_) (readBudget_poll h) (fun c acceptances => ?_) c socket
  · rw [handleFrames_keeps]
  · rw [flush_eq]

/-! ## Every run -/

/-- What a connection holds after units of work none of which raised a fault: what some
    rounds leave, or nothing once it is closed. -/
structure Goes (limit budget : Nat) (c : Connection σ) : Prop where
  budget_eq : c.readBudget = budget
  rounds : c.closed = false → ∃ rounds, Rounds budget (.ofLimit limit) rounds ∧
    c.decoder = (Decoder.ofLimit limit).after rounds
  forgotten : c.closed = true → c.decoder.buffer = []

theorem goes_new (s : σ) (limit budget : Nat) : Goes limit (max budget 1) (new s limit budget) :=
  ⟨rfl, fun _ => ⟨[], trivial, rfl⟩, nofun⟩

theorem Goes.worked {limit budget : Nat} (hgoes : Goes limit budget c) {socket : Socket}
    (hfine : ∀ fault, (c.work h socket).outcome ≠ .raised fault) : Goes limit budget (worked h c socket) := by
  by_cases hclosed : c.closed = true
  · have hsame : Connection.worked h c socket = c := by simp [Connection.worked, work, hclosed]
    rw [hsame]
    exact hgoes
  · have hopen : c.closed = false := by simpa using hclosed
    obtain ⟨rounds, hrounds, hdecoder⟩ := hgoes.rounds hopen
    obtain ⟨r, hr⟩ := doesRound h hopen socket
    have hsize : r.size ≤ budget := hgoes.budget_eq ▸ hr.size_le
    have hbudget : (drive h c.begun socket).connection.readBudget = budget :=
      (readBudget_drive h c socket).trans hgoes.budget_eq
    have hdriven : (drive h c.begun socket).connection.closed = false :=
      (drive_path (c := c.begun) hopen socket).2
    have hcompletes := hr.completes
    rw [Connection.worked]
    rw [work_eq h hopen] at hfine hcompletes ⊢
    cases finishes h (drive h c.begun socket) with
    | goesOn _ _ result =>
      rw [result] at hcompletes ⊢
      obtain ⟨hcomplete, hlast⟩ := hcompletes rfl
      refine ⟨hbudget, fun _ => ⟨rounds ++ [r], ?_, ?_⟩, fun h => ?_⟩
      · exact Decoder.rounds_snoc hrounds hsize (hdecoder ▸ hcomplete)
      · rw [Decoder.after_snoc, ← hdecoder, ← hr.served_eq]
        exact hlast
      · rw [hdriven] at h
        cases h
    | faults fault _ result =>
      rw [result] at hfine
      exact absurd rfl (hfine fault)
    | closes _ _ _ _ connection =>
      rw [connection]
      simp only [close, hdriven, Bool.false_eq_true, if_false]
      refine ⟨hbudget, fun hopen => ?_, fun _ => rfl⟩
      cases hopen

end

theorem goes (h : Handler σ) (s : σ) (limit budget : Nat) {sockets : List Socket}
    (fine : ∀ m ∈ History.moments (worked h) (new s limit budget) sockets,
      ∀ fault, (m.before.work h m.event).outcome ≠ .raised fault) :
    Goes limit (max budget 1) (History.final (worked h) (new s limit budget) sockets) := by
  refine History.along (fun past c => (∀ m ∈ past, ∀ fault, (m.before.work h m.event).outcome ≠ .raised fault) →
    Goes limit (max budget 1) c) ?_ ?_ sockets fine
  · exact fun _ => goes_new s limit budget
  · intro past c socket ih hall
    have hbefore := ih fun m hm => hall m (List.mem_append_left _ hm)
    exact hbefore.worked (hall _ (List.mem_append_right _ List.mem_cons_self))

/-- A decoder with any limit after any rounds of at most `budget` bytes each, whatever bytes
    these are. After the rounds no more is unread than the start of one frame, `limit + 3`
    bytes; at every moment of a further round, which need not complete, no more than that
    and the budget; and its buffer, handed-out bytes included, never holds more than twice
    the former and the budget. The units of work of a connection are such rounds, with its
    read budget, as long as none of them raises a fault; a closed connection holds nothing. -/
theorem buffer_bounded :
    (∀ (limit budget : Nat) (rounds : List Round), Rounds budget (.ofLimit limit) rounds →
      let d := (Decoder.ofLimit limit).after rounds
      d.unread.length ≤ limit + 3 ∧
      ∀ (r : Round) (first : List Decoder.Event), r.size ≤ budget → first <+: r.events →
        let now := History.final Decoder.next d first
        now.unread.length ≤ limit + 3 + budget ∧ now.buffer.length ≤ 2 * (limit + 3) + budget) ∧
    ∀ {σ : Type} (h : Handler σ) (s : σ) (limit budget : Nat) (sockets : List Socket),
      (∀ m ∈ History.moments (worked h) (new s limit budget) sockets,
        ∀ fault, (m.before.work h m.event).outcome ≠ .raised fault) →
      let c := History.final (worked h) (new s limit budget) sockets
      (c.closed = true → c.decoder.buffer = []) ∧
      (c.closed = false → ∃ rounds, Rounds (max budget 1) (.ofLimit limit) rounds ∧
        c.decoder = (Decoder.ofLimit limit).after rounds ∧
        ∀ socket, ∃ r : Round, r.size ≤ max budget 1 ∧ DoesRound h c socket r) := by
  refine ⟨fun limit budget rounds hrounds => ?_, fun h s limit budget sockets fine => ?_⟩
  · obtain ⟨hstart, hempty⟩ := Decoder.settled_of_empty (d := .ofLimit limit) rfl rfl budget
    obtain ⟨hsettled, hbounded, hlimit⟩ := hstart.rounds hempty hrounds
    have hlimit' : ((Decoder.ofLimit limit).after rounds).limit = limit := hlimit
    have hunread := hsettled.unread_le
    rw [hlimit'] at hunread
    refine ⟨hunread, fun r first hsize hfirst => ?_⟩
    obtain ⟨hnow, hlimitNow⟩ := hsettled.bounded hbounded hsize hfirst
    have hunreadNow := hnow.unread_le
    have hbufferNow := hnow.buffer_le
    rw [hlimitNow, hlimit'] at hunreadNow hbufferNow
    exact ⟨hunreadNow, hbufferNow⟩
  · have hgoes := goes h s limit budget fine
    refine ⟨hgoes.forgotten, fun hopen => ?_⟩
    obtain ⟨rounds, hrounds, hdecoder⟩ := hgoes.rounds hopen
    refine ⟨rounds, hrounds, hdecoder, fun socket => ?_⟩
    obtain ⟨r, hr⟩ := doesRound h hopen socket
    exact ⟨r, hgoes.budget_eq ▸ hr.size_le, hr⟩

/-- Payloads of at most two bytes, six bytes in a round. The start of a frame is left after
    the first round, and five bytes of another after the second, behind as many that are
    handed out; a third round of six bytes fills the buffer. -/
def filling : List Round := [⟨[[0, 0, 0, 1]], 1⟩, ⟨[[9, 0, 0, 0, 2], [7]], 2⟩]

/-- The bounds are reached. -/
theorem filling_reaches :
    let d := (Decoder.ofLimit 2).after filling
    let now := History.final Decoder.next d [.feed [8, 0, 0, 0, 1, 9]]
    Rounds 6 (.ofLimit 2) filling ∧ d.unread.length = 5 ∧ now.unread.length = 11 ∧ now.buffer.length = 16 ∧
    d.unread.length ≤ 5 ∧ now.unread.length ≤ 11 ∧ now.buffer.length ≤ 16 ∧
    let h : Handler Unit := { onFrame := fun _ s outbox => ⟨.returned (.ok ()), s, outbox⟩ }
    let c := worked h (new () 2 6) { arrivals := [.bytes [0, 0, 0, 1]] }
    c.decoder.buffer = [0, 0, 0, 1] ∧
    ∃ rounds, Rounds 6 (.ofLimit 2) rounds ∧ c.decoder = (Decoder.ofLimit 2).after rounds := by
  intro d now
  have hrounds : Rounds 6 (.ofLimit 2) filling :=
    ⟨by decide, ⟨0, rfl, by decide⟩, by decide, ⟨1, rfl, by decide⟩, trivial⟩
  obtain ⟨hunread, hmoments⟩ := buffer_bounded.1 2 6 filling hrounds
  obtain ⟨hnow, hbuffer⟩ := hmoments ⟨[[8, 0, 0, 0, 1, 9]], 0⟩ [.feed [8, 0, 0, 0, 1, 9]] (by decide) List.prefix_rfl
  refine ⟨hrounds, by decide, by decide, by decide, hunread, hnow, hbuffer, ?_⟩
  intro h
  have hfine : ((new () 2 6).work h { arrivals := [.bytes [0, 0, 0, 1]] }).outcome = .returned false := by cbv
  have hclosed : (worked h (new () 2 6) { arrivals := [.bytes [0, 0, 0, 1]] }).closed = false := by cbv
  have hbuffered : (worked h (new () 2 6) { arrivals := [.bytes [0, 0, 0, 1]] }).decoder.buffer = [0, 0, 0, 1] := by cbv
  obtain ⟨-, hopen⟩ := buffer_bounded.2 h () 2 6 [{ arrivals := [.bytes [0, 0, 0, 1]] }] (by
    intro m hm fault
    obtain rfl := List.mem_singleton.mp hm
    rw [hfine]
    intro hraised
    cases hraised)
  obtain ⟨rounds, hrounds', hdecoder, -⟩ := hopen hclosed
  exact ⟨hbuffered, rounds, hrounds', hdecoder⟩

end MessageBroker.Connection
