/-
  MessageBroker.Proofs.Loopback.RoundTrip — what a client publishes comes back.

  A client has sent its bodies and sends nothing more: its bytes are on their way, cut and
  delayed in any way, and the socket takes what it likes of the output. The connection goes
  through units of work.
  - `Carries`: the invariant. The bodies are those delivered, those that wait in the engine
    and those whose frames are still to be decoded, in this order; and what the client has
    and what the outbox holds are the frames of those delivered. One lemma per stage of a
    unit keeps it (`Carries.served`, `Carries.polled`, `Carries.flushed`), so a whole unit
    does (`Between.next`).
  - `remaining`: what is left to read and to deliver, which every unit makes less of until
    nothing can be done without the client (`Advances.progress`, `Between.settles`).
  - `bodies_come_back`: where every run ends.
-/

import MessageBroker.Loopback.Handler
import MessageBroker.Proofs.Connection.Parking
import MessageBroker.Proofs.History
import MessageBroker.Proofs.Loopback.Polling

namespace MessageBroker.Loopback

open Wire Connection
open Framing (parse)

structure Line where
  connection : Connection Client
  /-- What is still to arrive. -/
  coming : List Arrival
  /-- What the client has received. -/
  received : Bytes := []

namespace Line

def start (limit : Option Nat) (batch maxMessageSize readBudget : Nat) (coming : List Arrival) : Line :=
  { connection := .new ⟨.new limit batch, {}⟩ maxMessageSize readBudget, coming }

def unit (l : Line) (acceptances : List Acceptance) : Worked Bool Client :=
  l.connection.work handler ⟨l.coming, acceptances⟩

def next (l : Line) (acceptances : List Acceptance) : Line where
  connection := (l.unit acceptances).connection
  coming := (l.unit acceptances).socket.arrivals
  received := l.received ++ (l.unit acceptances).written

/-- All input is read, and neither signal asks for another unit. -/
def Settled (l : Line) : Prop :=
  l.coming = [] ∧ l.connection.stateChanged = false ∧ l.connection.partialRead = false

end Line

def publishes (bodies : List Bytes) : List Bytes := bodies.map fun body => (Command.publish body).encode

def deliveries (bodies : List Bytes) : List Bytes := bodies.mapIdx fun i body => delivery (UInt64.ofNat (i + 1)) body

/-- How many of so many bodies are delivered when none is acknowledged. -/
def share (limit : Option Nat) (count : Nat) : Nat := limit.elim count (min count)

theorem le_share {limit : Option Nat} {n count : Nat} (hcount : n ≤ count)
    (hlimit : ∀ most, limit = some most → n ≤ most) : n ≤ share limit count := by
  cases limit with
  | none => exact hcount
  | some most => exact Nat.le_min.mpr ⟨hcount, hlimit most rfl⟩

theorem length_publish_le (tag : Tag) (body : Bytes) :
    (Command.publish body).encode.length ≤ (delivery tag body).length := by
  simp [Command.encode, delivery]

theorem share_le (limit : Option Nat) (count : Nat) : share limit count ≤ count := by
  cases limit with
  | none => exact Nat.le_refl _
  | some most => exact Nat.min_le_left _ _

theorem deliveries_append (first second : List Bytes) :
    deliveries (first ++ second) = deliveries first ++ (numbered first.length second).map frameOf := by
  rw [deliveries, ← map_frameOf_numbered, numbered_append, List.map_append, map_frameOf_numbered, Nat.zero_add]
  rfl

/-! ## Handling what is published -/

theorem onFrame_publish (body : Bytes) (c : Client) (outbox : Outbox) :
    (handler.onFrame (Command.publish body).encode c outbox).outcome = .returned (.ok ()) := rfl

theorem foldl_give_publishes (bodies : List Bytes) (x : Client × Outbox) :
    ((publishes bodies).foldl (give handler) x).1.engine = { x.1.engine with pending := x.1.engine.pending ++ bodies } ∧
    ((publishes bodies).foldl (give handler) x).2 = x.2 := by
  induction bodies generalizing x with
  | nil => simp [publishes]
  | cons body rest ih =>
    obtain ⟨hengine, houtbox⟩ := ih (give handler x (Command.publish body).encode)
    refine ⟨hengine.trans ?_, houtbox⟩
    show { x.1.engine with pending := (x.1.engine.pending ++ [body]) ++ rest } = _
    rw [List.append_assoc, List.singleton_append]

/-! ## One unit of work -/

/-- The bodies are those delivered, those that wait, and those not decoded yet. -/
structure Carries (bodies : List Bytes) (limit : Option Nat) (maxMessageSize : Nat) (delivered undecoded : List Bytes)
    (l : Line) : Prop where
  isOpen : l.connection.closed = false
  going : l.connection.peerClosed = false
  budget_pos : 0 < l.connection.readBudget
  batch_pos : 0 < l.connection.handler.engine.batch
  limit_eq : l.connection.decoder.limit = maxMessageSize
  credit_eq : l.connection.handler.engine.session.limit = limit
  split : bodies = delivered ++ l.connection.handler.engine.pending ++ undecoded
  flows : ∀ a ∈ l.coming, a.Flows
  pos_le : l.connection.decoder.pos ≤ l.connection.decoder.buffer.length
  input_eq : l.connection.decoder.unread ++ l.coming.flatMap Arrival.data = Frame.encodeAll (publishes undecoded)
  /-- What is read and not decoded begins with no whole frame. -/
  waits : parse maxMessageSize l.connection.decoder.unread =
    { rest := l.connection.decoder.unread, ending := .unfinished }
  numbers : Numbers delivered.length l.connection.handler.engine.session
  /-- All that is delivered is still in flight. -/
  size_eq : l.connection.handler.engine.session.tracker.size = delivered.length
  within : Within l.connection.handler.engine.session
  offset_le : l.connection.outbox.offset ≤ l.connection.outbox.buffer.length
  output_eq : l.received ++ l.connection.outbox.unwritten = Frame.encodeAll (deliveries delivered)

section
variable {bodies : List Bytes} {limit : Option Nat} {maxMessageSize : Nat} {delivered undecoded : List Bytes} {l : Line}

theorem Carries.admits (h : Carries bodies limit maxMessageSize delivered undecoded l)
    (admitted : ∀ p ∈ publishes bodies, Framing.Admitted maxMessageSize p) :
    ∀ p ∈ publishes undecoded, Framing.Admitted maxMessageSize p := by
  intro p hp
  refine admitted p ?_
  rw [h.split, publishes, List.map_append]
  exact List.mem_append_right _ hp

/-- What is read so far begins the frames that are not decoded: it holds the first of them,
    and its rest and what is still to arrive are the others. -/
theorem Carries.found (h : Carries bodies limit maxMessageSize delivered undecoded l)
    (admitted : ∀ p ∈ publishes bodies, Framing.Admitted maxMessageSize p) :
    let found := parse maxMessageSize (l.connection.decoder.unread ++ brought (reads l.connection.readBudget l.coming))
    let rest := (readInput l.connection.decoder l.connection.readBudget l.coming).rest
    found.ending = .unfinished ∧
    ∃ handled undecoded', undecoded = handled ++ undecoded' ∧ found.payloads = publishes handled ∧
      found.rest ++ rest.flatMap Arrival.data = Frame.encodeAll (publishes undecoded') := by
  have hread := readInput_spec l.connection.decoder l.connection.readBudget l.coming
  have hstream := h.input_eq
  rw [hread.data_eq, ← List.append_assoc] at hstream
  obtain ⟨hending, later, hpayloads, hlater⟩ := Framing.parse_of_cut (h.admits admitted) hstream
  obtain ⟨handled, undecoded', hundecoded, hhandled, rfl⟩ := List.map_eq_append_iff.mp hpayloads
  exact ⟨hending, handled, undecoded', hundecoded, hhandled.symm, hlater⟩

/-- Reading and handling end well, and take some bodies from those not decoded to those
    that wait. -/
theorem Carries.served (h : Carries bodies limit maxMessageSize delivered undecoded l)
    (admitted : ∀ p ∈ publishes bodies, Framing.Admitted maxMessageSize p) (acceptances : List Acceptance) :
    let socket : Socket := ⟨l.coming, acceptances⟩
    (endOf (reads l.connection.readBudget l.coming)).toEnding = .returned (.ok ()) ∧
    ((l.connection.filled socket).handleFrames handler).1 = .returned (.ok ()) ∧
    ∃ undecoded', Carries bodies limit maxMessageSize delivered undecoded'
      ⟨l.connection.served handler socket,
        (readInput l.connection.decoder l.connection.readBudget l.coming).rest, l.received⟩ := by
  intro socket
  obtain ⟨hflows, hending⟩ := flows_rest l.connection.decoder l.connection.readBudget h.flows
  rw [(readInput_spec _ _ _).ending_eq] at hending
  obtain ⟨hunread, hlimit, hpos⟩ := filled_feeds h.pos_le socket
  rw [h.limit_eq] at hlimit
  obtain ⟨hend, handled, undecoded', hundecoded, hhandled, hrest⟩ := h.found admitted
  have haccepts : ∀ p ∈ publishes handled, ∀ s outbox, (handler.onFrame p s outbox).outcome = .returned (.ok ()) := by
    intro p hp s outbox
    obtain ⟨body, -, rfl⟩ := List.mem_map.mp hp
    exact onFrame_publish body s outbox
  have hspec : Serves handler (l.connection.filled socket) _ _ := handleFrames_spec (by
    rw [hlimit, hunread]
    exact hhandled ▸ haccepts)
  rw [hlimit, hunread] at hspec
  obtain ⟨hgiven, hkept⟩ := foldl_give_publishes handled
    ((l.connection.filled socket).handler, (l.connection.filled socket).outbox)
  rw [← hhandled] at hgiven hkept
  have hengine : (l.connection.served handler socket).handler.engine =
      { l.connection.handler.engine with pending := l.connection.handler.engine.pending ++ handled } := by
    rw [Connection.served, hspec.connection_eq]
    exact hgiven.trans (by rw [filled_eq]; rfl)
  have houtbox : (l.connection.served handler socket).outbox = l.connection.outbox := by
    rw [Connection.served, hspec.connection_eq]
    exact hkept.trans (by rw [filled_eq]; rfl)
  have hwell : (endOf (reads l.connection.readBudget l.coming)).toEnding = .returned (.ok ()) := by
    rcases hending with hending | hending <;> rw [hending] <;> rfl
  refine ⟨hwell, by rw [hspec.ending_eq, hend]; rfl, undecoded', ?_⟩
  refine
    { isOpen := ?isOpen
      going := ?going
      budget_pos := ?budget_pos
      batch_pos := by rw [hengine]; exact h.batch_pos
      limit_eq := hspec.limit_eq.trans hlimit
      credit_eq := by rw [hengine]; exact h.credit_eq
      split := ?split
      flows := hflows
      pos_le := hspec.pos_le hpos
      input_eq := ?input_eq
      waits := ?waits
      numbers := by rw [hengine]; exact h.numbers
      size_eq := by rw [hengine]; exact h.size_eq
      within := by rw [hengine]; exact h.within
      offset_le := by rw [houtbox]; exact h.offset_le
      output_eq := by rw [houtbox]; exact h.output_eq }
  case isOpen =>
    rw [Connection.served, handleFrames_keeps, filled_eq]
    exact h.isOpen
  case going =>
    have hgoing := (served_frame handler l.connection socket).2.2
    rw [h.going] at hgoing
    refine hgoing.trans ?_
    rcases hending with hending | hending <;> simp [socket, hending]
  case budget_pos =>
    rw [Connection.served, handleFrames_keeps, filled_eq]
    exact h.budget_pos
  case split =>
    rw [hengine, h.split, hundecoded]
    simp
  case input_eq => rw [Connection.served, hspec.unread_eq, hrest]
  case waits => rw [Connection.served, hspec.unread_eq, (Framing.accounts_parse _ _).rest_eq, hend]

theorem poll_loopback {c : Connection Client} (hgoing : c.peerClosed = false) :
    c.poll handler = (.returned (.ok ()), { c with
      handler := (handler.pollPending c.handler c.outbox).state
      outbox := (c.handler.engine.pass c.outbox).outbox
      stateChanged := c.stateChanged || (handler.pollPending c.handler c.outbox).state.engine.ready }) := by
  rw [poll_eq hgoing, ready_of_poll]
  simp only [Outcome.returned.injEq, Bool.decide_eq_true]
  rfl

/-- With what a poll would deliver, no more are delivered than there are and than may be in
    flight. -/
theorem Carries.pass_le (h : Carries bodies limit maxMessageSize delivered undecoded l) :
    delivered.length + (l.connection.handler.engine.pass l.connection.outbox).sent ≤ share limit bodies.length := by
  have hspends : Spends _ _ _ (l.connection.handler.engine.pass l.connection.outbox) := deliverPending_spends ..
  refine le_share ?_ fun most hmost => ?_
  · rw [h.split, List.length_append, List.length_append]
    have hsent := hspends.sent_le
    omega
  · rw [← h.size_eq, ← hspends.size_eq]
    exact hspends.within h.within most (hspends.limit_eq.trans (h.credit_eq.trans hmost))

/-- Polling ends well and takes some bodies from those that wait to those delivered; if it
    answers that it could go on, there are any. -/
theorem Carries.polled (h : Carries bodies limit maxMessageSize delivered undecoded l)
    (hfew : share limit bodies.length < 2 ^ 64) :
    let polled := l.connection.poll handler
    polled.1 = .returned (.ok ()) ∧
    ∃ more, Carries bodies limit maxMessageSize (delivered ++ more) undecoded ⟨polled.2, l.coming, l.received⟩ ∧
      polled.2.stateChanged = (l.connection.stateChanged || polled.2.handler.engine.ready) ∧
      (polled.2.handler.engine.ready = true → more ≠ []) := by
  intro polled
  let e := l.connection.handler.engine
  have hsplit : bodies = delivered ++ e.pending ++ undecoded := h.split
  have hpolled : polled = _ := poll_loopback h.going
  have hengine : polled.2.handler.engine =
      { e with session := (e.pass l.connection.outbox).session, pending := (e.pass l.connection.outbox).pending } := by
    rw [hpolled]
    rfl
  have houtbox : polled.2.outbox = (e.pass l.connection.outbox).outbox := by rw [hpolled]
  have hspends : Spends e.pending e.batch e.session (e.pass l.connection.outbox) := deliverPending_spends ..
  have hdelivers : Delivers delivered.length e.pending e.session l.connection.outbox (e.pass l.connection.outbox) :=
    deliverPending_spec _ _ _ h.numbers (Nat.lt_of_le_of_lt h.pass_le hfew)
  have hbatch : polled.2.handler.engine.ready = true → 0 < (e.pass l.connection.outbox).sent := by
    intro hready
    rw [hengine] at hready
    exact Nat.lt_of_lt_of_le h.batch_pos (batch_le_of_ready hdelivers.unrefused hready)
  generalize e.pass l.connection.outbox = p at hspends hdelivers hbatch hengine houtbox
  have hlen : (e.pending.take p.sent).length = p.sent := List.length_take_of_le hspends.sent_le
  obtain ⟨hunwritten, hoffset⟩ :=
    unwritten_pushAll h.offset_le ((numbered delivered.length (e.pending.take p.sent)).map frameOf)
  rw [← hdelivers.outbox_eq] at hunwritten hoffset
  refine ⟨by rw [hpolled], e.pending.take p.sent, ?_, by rw [hpolled], fun hready => ?_⟩
  · refine
      { isOpen := by rw [hpolled]; exact h.isOpen
        going := by rw [hpolled]; exact h.going
        budget_pos := by rw [hpolled]; exact h.budget_pos
        batch_pos := by rw [hengine]; exact h.batch_pos
        limit_eq := by rw [hpolled]; exact h.limit_eq
        credit_eq := by rw [hengine]; exact hspends.limit_eq.trans h.credit_eq
        split := ?split
        flows := h.flows
        pos_le := by rw [hpolled]; exact h.pos_le
        input_eq := by rw [hpolled]; exact h.input_eq
        waits := by rw [hpolled]; exact h.waits
        numbers := by rw [hengine, List.length_append, hlen]; exact hdelivers.numbers
        size_eq := by rw [hengine, List.length_append, hlen, ← h.size_eq]; exact hspends.size_eq
        within := by rw [hengine]; exact hspends.within h.within
        offset_le := by rw [houtbox]; exact hoffset
        output_eq := ?output_eq }
    case split =>
      rw [hengine, hdelivers.pending_eq, List.append_assoc delivered, List.take_append_drop]
      exact hsplit
    case output_eq =>
      rw [houtbox, hunwritten, ← List.append_assoc, deliveries_append, Frame.encodeAll_append]
      exact congrArg (· ++ _) h.output_eq
  · rw [← List.length_pos_iff, hlen]
    exact hbatch hready

/-- Writing ends well, and what it takes from the outbox the client has. -/
theorem Carries.flushed (h : Carries bodies limit maxMessageSize delivered undecoded l) {acceptances : List Acceptance}
    (htakes : ∀ a ∈ acceptances, a.Flows) :
    let flushed := l.connection.flush acceptances
    flushed.1 = .returned (.ok ()) ∧
    Carries bodies limit maxMessageSize delivered undecoded ⟨flushed.2.1, l.coming, l.received ++ flushed.2.2.1⟩ := by
  intro flushed
  have hwrites := writeOutput_spec l.connection.outbox acceptances
  have hok := flows_writeOutput l.connection.outbox htakes
  simp only [flushed, flush_eq, hok]
  refine ⟨trivial, { h with offset_le := hwrites.offset_le h.offset_le, output_eq := ?_ }⟩
  rw [List.append_assoc, ← hwrites.unwritten_eq]
  exact h.output_eq

structure Between (bodies : List Bytes) (limit : Option Nat) (maxMessageSize : Nat) (delivered undecoded : List Bytes)
    (l : Line) : Prop extends Carries bodies limit maxMessageSize delivered undecoded l where
  signal : l.connection.stateChanged = l.connection.handler.engine.ready

/-- What one unit of work makes of a line. It uses up input while there is any, and a signal
    that is up afterwards has its reason: a delivery, or input. -/
structure Advances (bodies : List Bytes) (limit : Option Nat) (maxMessageSize : Nat) (delivered : List Bytes)
    (l : Line) (unit : Worked Bool Client) (l' : Line) : Prop where
  goesOn : unit.outcome = .returned false
  between : ∃ more undecoded', Between bodies limit maxMessageSize (delivered ++ more) undecoded' l' ∧
    (l'.connection.stateChanged = true → more ≠ [])
  weight_le : weight l'.coming ≤ weight l.coming
  weight_lt : l.coming ≠ [] → weight l'.coming < weight l.coming
  cut : l'.connection.partialRead = true → l.coming ≠ []

theorem Between.next (h : Between bodies limit maxMessageSize delivered undecoded l)
    (admitted : ∀ p ∈ publishes bodies, Framing.Admitted maxMessageSize p) (hfew : share limit bodies.length < 2 ^ 64)
    {acceptances : List Acceptance} (htakes : ∀ a ∈ acceptances, a.Flows) :
    Advances bodies limit maxMessageSize delivered l (l.unit acceptances) (l.next acceptances) := by
  obtain ⟨hread, hhandled, undecoded', hserved⟩ := h.toCarries.served admitted acceptances
  obtain ⟨hpolled, more, hmore, hsignal, hgrows⟩ := hserved.polled hfew
  obtain ⟨hflushed, hlast⟩ := hmore.flushed htakes
  have hwell : EndsWell handler l.connection ⟨l.coming, acceptances⟩ :=
    ⟨h.isOpen, hread, hhandled, hpolled, hflushed, hlast.going⟩
  obtain ⟨hgoesOn, hconnection, hwritten, harrivals⟩ := hwell.work
  obtain ⟨hdown, hcut, -⟩ := served_frame handler l.connection ⟨l.coming, acceptances⟩
  have hnext : l.next acceptances =
      ⟨((l.connection.polled handler ⟨l.coming, acceptances⟩).flush acceptances).2.1,
        (readInput l.connection.decoder l.connection.readBudget l.coming).rest,
        l.received ++ ((l.connection.polled handler ⟨l.coming, acceptances⟩).flush acceptances).2.2.1⟩ := by
    rw [Line.next, Line.unit, hconnection, harrivals, hwritten]
  have hready :
      (l.next acceptances).connection.stateChanged = (l.next acceptances).connection.handler.engine.ready := by
    rw [hnext, flush_eq]
    refine hsignal.trans ?_
    rw [hdown, Bool.false_or]
    rfl
  have hweight := weight_rest l.connection.decoder l.connection.readBudget l.coming
  refine ⟨hgoesOn, ⟨more, undecoded', ⟨?_, hready⟩, fun hup => hgrows ?_⟩, ?_, fun hsome => ?_, fun hup hnone => ?_⟩
  · rw [hnext]
    exact hlast
  · rw [hready, hnext, flush_eq] at hup
    exact hup
  · rw [hnext]
    exact hweight.1
  · rw [hnext]
    exact hweight.2 (Nat.pos_iff_ne_zero.mp h.budget_pos) hsome
  · have hend : endOf (reads l.connection.readBudget l.coming) = .blocked := by
      rw [hnone, reads, dif_neg (Nat.pos_iff_ne_zero.mp h.budget_pos)]
      rfl
    obtain ⟨again, -, hkept⟩ := hwell.polled_eq
    rw [hnext, flush_eq, hkept] at hup
    have hspent := hcut.symm.trans hup
    simp [hend] at hspent

/-! ## Every run -/

def remaining (bodies : List Bytes) (limit : Option Nat) (l : Line) : Nat :=
  weight l.coming + (share limit bodies.length - l.connection.handler.engine.session.tracker.size)

theorem Carries.delivered_le (h : Carries bodies limit maxMessageSize delivered undecoded l) :
    delivered.length ≤ share limit bodies.length := by
  refine le_share ?_ fun most hmost => ?_
  · rw [h.split, List.append_assoc, List.length_append]
    exact Nat.le_add_right _ _
  · rw [← h.size_eq]
    exact h.within most (h.credit_eq.trans hmost)

/-- A line on which nothing can be done without the client has delivered all that credit
    allows. -/
theorem Between.delivered_eq (h : Between bodies limit maxMessageSize delivered undecoded l)
    (admitted : ∀ p ∈ publishes bodies, Framing.Admitted maxMessageSize p) (hsettled : l.Settled) :
    delivered = bodies.take (share limit bodies.length) := by
  obtain ⟨hnone, hdown, -⟩ := hsettled
  have hundecoded : undecoded = [] := by
    have hinput := h.input_eq
    rw [hnone, List.flatMap_nil, List.append_nil] at hinput
    have hparse := Framing.parse_encodeAll (h.admits admitted)
    rw [← hinput, h.waits] at hparse
    exact List.map_eq_nil_iff.mp (congrArg Framing.payloads hparse).symm
  have hsplit : bodies = delivered ++ l.connection.handler.engine.pending := by
    conv => lhs; rw [h.split, hundecoded, List.append_nil]
  have hall : share limit bodies.length ≤ delivered.length := by
    rcases Engine.waits_of_not_ready (h.signal.symm.trans hdown) with hpending | hcredit
    · rw [hpending, List.append_nil] at hsplit
      rw [← hsplit]
      exact share_le _ _
    · rw [Delivery.Session.hasCredit, h.numbers.isOpen, h.size_eq, h.credit_eq] at hcredit
      cases limit with
      | none => cases hcredit
      | some most =>
        simp only [Bool.not_false, Option.all_some, Bool.true_and, decide_eq_false_iff_not, Nat.not_lt] at hcredit
        exact Nat.le_trans (Nat.min_le_right _ _) hcredit
  rw [Nat.le_antisymm hall h.delivered_le]
  exact List.prefix_iff_eq_take.mp ⟨_, hsplit.symm⟩

section
variable {unit : Worked Bool Client} {l' : Line}

theorem Advances.read (h : Advances bodies limit maxMessageSize delivered l unit l') (hnone : l.coming = []) :
    l'.coming = [] ∧ l'.connection.partialRead = false := by
  constructor
  · have hweight := h.weight_le
    rw [hnone] at hweight
    exact eq_nil_of_weight (Nat.le_zero.mp hweight)
  · exact Bool.eq_false_iff.mpr fun hup => h.cut hup hnone

/-- A unit of work after which something can still be done leaves less to do. -/
theorem Advances.progress (hadvances : Advances bodies limit maxMessageSize delivered l unit l')
    (h : Between bodies limit maxMessageSize delivered undecoded l) (hmore : ¬ l'.Settled) :
    remaining bodies limit l' < remaining bodies limit l := by
  obtain ⟨more, undecoded', hnext, hgrows⟩ := hadvances.between
  have hle := hnext.delivered_le
  have hweight := hadvances.weight_le
  rw [remaining, remaining, hnext.size_eq, h.size_eq]
  rw [List.length_append] at hle ⊢
  by_cases hnone : l.coming = []
  · -- nothing to read, so a signal is up because of a delivery
    obtain ⟨hcoming, hwhole⟩ := hadvances.read hnone
    have hup : l'.connection.stateChanged = true := by
      by_contra hdown
      exact hmore ⟨hcoming, by simpa using hdown, hwhole⟩
    have hpos := List.length_pos_iff.mpr (hgrows hup)
    omega
  · have hless := hadvances.weight_lt hnone
    omega

/-- Where nothing can be done without the client, nothing will be. -/
theorem Advances.settled (hadvances : Advances bodies limit maxMessageSize delivered l unit l')
    (h : Between bodies limit maxMessageSize delivered undecoded l)
    (admitted : ∀ p ∈ publishes bodies, Framing.Admitted maxMessageSize p) (hsettled : l.Settled) : l'.Settled := by
  obtain ⟨hcoming, hwhole⟩ := hadvances.read hsettled.1
  obtain ⟨more, undecoded', hnext, hgrows⟩ := hadvances.between
  refine ⟨hcoming, ?_, hwhole⟩
  by_contra hup
  have hpos := List.length_pos_iff.mpr (hgrows (by simpa using hup))
  -- all that credit allows is delivered already
  have hle := hnext.delivered_le
  rw [List.length_append, h.delivered_eq admitted hsettled, List.length_take_of_le (share_le _ _)] at hle
  omega

end

/-- A long enough run comes to where nothing can be done without the client. -/
theorem Between.settles (admitted : ∀ p ∈ publishes bodies, Framing.Admitted maxMessageSize p)
    (hfew : share limit bodies.length < 2 ^ 64) {units : List (List Acceptance)}
    (htakes : ∀ acceptances ∈ units, ∀ a ∈ acceptances, a.Flows)
    (h : Between bodies limit maxMessageSize delivered undecoded l)
    (hlong : l.Settled ∨ remaining bodies limit l < units.length) :
    (History.final Line.next l units).Settled := by
  induction units generalizing l delivered undecoded with
  | nil => exact hlong.resolve_right (Nat.not_lt_zero _)
  | cons acceptances rest ih =>
    have hadvances := h.next admitted hfew (htakes acceptances List.mem_cons_self)
    obtain ⟨more, undecoded', hnext, -⟩ := hadvances.between
    refine ih (fun a ha => htakes a (List.mem_cons_of_mem _ ha)) hnext ?_
    by_cases hsettled : (l.next acceptances).Settled
    · exact .inl hsettled
    · have hless := hadvances.progress h hsettled
      refine .inr ?_
      rcases hlong with hbefore | hlong
      · exact absurd (hadvances.settled h admitted hbefore) hsettled
      · rw [List.length_cons] at hlong
        omega

theorem between_start (limit : Option Nat) (batch maxMessageSize readBudget : Nat) {coming : List Arrival}
    (sends : coming.flatMap Arrival.data = Frame.encodeAll (publishes bodies)) (flows : ∀ a ∈ coming, a.Flows) :
    Between bodies limit maxMessageSize [] bodies (.start limit batch maxMessageSize readBudget coming) where
  isOpen := rfl
  going := rfl
  budget_pos := Nat.le_max_right _ _
  batch_pos := Nat.le_max_right _ _
  limit_eq := rfl
  credit_eq := rfl
  split := rfl
  flows := flows
  pos_le := Nat.le_refl 0
  input_eq := sends
  waits := Framing.parse_short (Nat.zero_lt_succ 3)
  numbers := ⟨rfl, rfl, fun _ => nofun, fun _ => nofun⟩
  size_eq := rfl
  within _ _ := Nat.zero_le _
  offset_le := Nat.le_refl 0
  output_eq := rfl
  signal := rfl

structure Runs (bodies : List Bytes) (limit : Option Nat) (maxMessageSize : Nat)
    (past : List (Moment Line (List Acceptance))) (l : Line) : Prop where
  between : ∃ delivered undecoded, Between bodies limit maxMessageSize delivered undecoded l
  goesOn : ∀ m ∈ past, (m.before.unit m.event).outcome = .returned false

theorem Runs.next {past : List (Moment Line (List Acceptance))} (h : Runs bodies limit maxMessageSize past l)
    (admitted : ∀ p ∈ publishes bodies, Framing.Admitted maxMessageSize p) (hfew : share limit bodies.length < 2 ^ 64)
    {acceptances : List Acceptance} (htakes : ∀ a ∈ acceptances, a.Flows) :
    Runs bodies limit maxMessageSize (past ++ [⟨l, acceptances⟩]) (l.next acceptances) := by
  obtain ⟨delivered, undecoded, hbetween⟩ := h.between
  have hadvances := hbetween.next admitted hfew htakes
  obtain ⟨more, undecoded', hnext, -⟩ := hadvances.between
  refine ⟨⟨_, _, hnext⟩, fun m hm => ?_⟩
  rcases List.mem_append.mp hm with hm | hm
  · exact h.goesOn m hm
  · rw [List.mem_singleton.mp hm]
    exact hadvances.goesOn

theorem Between.runs (admitted : ∀ p ∈ publishes bodies, Framing.Admitted maxMessageSize p)
    (hfew : share limit bodies.length < 2 ^ 64) {units : List (List Acceptance)}
    (htakes : ∀ acceptances ∈ units, ∀ a ∈ acceptances, a.Flows)
    (h : Between bodies limit maxMessageSize delivered undecoded l) :
    Runs bodies limit maxMessageSize (History.moments Line.next l units) (History.final Line.next l units) :=
  History.along_allowed (Runs bodies limit maxMessageSize) ⟨⟨_, _, h⟩, fun _ hm => (List.not_mem_nil hm).elim⟩
    (fun _ _ _ hflows hruns => hruns.next admitted hfew hflows) htakes

end

/-- A client whose bodies are on their way, in frames that the connection admits, cut and
    delayed in any way; no other input, and nothing fails. Whatever its limit of deliveries
    in flight, the batch, the limit of payloads, the read budget, and what the socket takes
    of the output, as long as there is a tag for each delivery: no unit of work closes the
    connection; after so many units all input is read and no signal is up; and when that is
    so and the outbox is empty, the client has received exactly the deliveries of the first
    bodies, one under each tag from 1 on: of all of them, or of as many as may be in
    flight. -/
theorem bodies_come_back (limit : Option Nat) (batch maxMessageSize readBudget : Nat) (bodies : List Bytes)
    (coming : List Arrival) (sends : coming.flatMap Arrival.data = Frame.encodeAll (publishes bodies))
    (flows : ∀ a ∈ coming, a.Flows)
    (fits : ∀ body ∈ bodies, (Command.publish body).encode.length ≤ maxMessageSize ∧
      ∀ tag, (delivery tag body).length < 2 ^ 32)
    (tags : share limit bodies.length < 2 ^ 64) (units : List (List Acceptance))
    (takes : ∀ acceptances ∈ units, ∀ a ∈ acceptances, a.Flows) :
    let start := Line.start limit batch maxMessageSize readBudget coming
    let l := History.final Line.next start units
    let expected := deliveries (bodies.take (share limit bodies.length))
    (∀ m ∈ History.moments Line.next start units, (m.before.unit m.event).outcome = .returned false) ∧
    (weight coming + share limit bodies.length < units.length → l.Settled) ∧
    (l.Settled → l.connection.outbox.isEmpty = true →
      l.received = Frame.encodeAll expected ∧
      ∀ clientLimit, (∀ p ∈ expected, p.length ≤ clientLimit) →
        parse clientLimit l.received = { payloads := expected, rest := [], ending := .unfinished }) := by
  intro start l expected
  have admitted : ∀ p ∈ publishes bodies, Framing.Admitted maxMessageSize p := by
    intro p hp
    obtain ⟨body, hbody, rfl⟩ := List.mem_map.mp hp
    exact ⟨(fits body hbody).1, Nat.lt_of_le_of_lt (length_publish_le 0 body) ((fits body hbody).2 0)⟩
  have hstart : Between bodies limit maxMessageSize [] bodies start := between_start _ _ _ _ sends flows
  obtain ⟨⟨delivered, undecoded, hlast⟩, hopen⟩ := hstart.runs admitted tags takes
  refine ⟨hopen, fun hlong => hstart.settles admitted tags takes (.inr hlong), fun hsettled hempty => ?_⟩
  have hreceived : l.received = Frame.encodeAll expected := by
    have houtput := hlast.output_eq
    rw [(Outbox.isEmpty_iff _).mp hempty, List.append_nil, hlast.delivered_eq admitted hsettled] at houtput
    exact houtput
  refine ⟨hreceived, fun clientLimit hclient => ?_⟩
  rw [hreceived]
  refine Framing.parse_encodeAll fun p hp => ⟨hclient p hp, ?_⟩
  obtain ⟨i, hi, rfl⟩ := List.mem_mapIdx.mp hp
  exact (fits _ (List.mem_of_mem_take (List.getElem_mem hi))).2 _

/-- Three bodies, cut within a header and within a payload, of which two may be delivered. -/
def pieces : List Arrival :=
  [.bytes [0, 0, 0, 2, 1], .blocked, .interrupted, .bytes [65, 0, 0], .bytes [0, 2, 1, 66, 0, 0, 0, 2, 1, 67]]

theorem pieces_come_back :
    let start := Line.start (some 2) 1 2 4 pieces
    let l := History.final Line.next start (List.replicate 26 [.bytes 3, .interrupted])
    l.Settled ∧ l.connection.outbox.isEmpty = true ∧
    l.received = [0, 0, 0, 10, 0x81, 0, 0, 0, 0, 0, 0, 0, 1, 65, 0, 0, 0, 10, 0x81, 0, 0, 0, 0, 0, 0, 0, 2, 66] ∧
    parse 10 l.received = { payloads := [delivery 1 [65], delivery 2 [66]], rest := [], ending := .unfinished } := by
  intro start l
  have hflows : ∀ a ∈ pieces, a.Flows := by simp [pieces, Arrival.Flows]
  have hfits : ∀ body ∈ ([[65], [66], [67]] : List Bytes), (Command.publish body).encode.length ≤ 2 ∧
      ∀ tag, (delivery tag body).length < 2 ^ 32 := by
    simp [Command.encode, delivery, writeTag, tagSize]
  have htakes : ∀ acceptances ∈ List.replicate 26 [Acceptance.bytes 3, .interrupted], ∀ a ∈ acceptances, a.Flows := by
    intro acceptances hin
    rw [List.eq_of_mem_replicate hin]
    simp [Acceptance.Flows]
  obtain ⟨-, hsettles, hreceives⟩ := bodies_come_back (some 2) 1 2 4 [[65], [66], [67]] pieces (by decide) hflows hfits
    (by decide) (List.replicate 26 [.bytes 3, .interrupted]) htakes
  have hempty : (History.final Line.next (Line.start (some 2) 1 2 4 pieces)
    (List.replicate 26 [.bytes 3, .interrupted])).connection.outbox.isEmpty = true := by cbv
  have hsettled : l.Settled := hsettles (by decide)
  obtain ⟨hbytes, hparse⟩ := hreceives hsettled hempty
  exact ⟨hsettled, hempty, hbytes, hparse 10 (by decide)⟩

end MessageBroker.Loopback
