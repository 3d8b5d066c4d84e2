/-
  MessageBroker.Proofs.Loopback.Lengths — whether the length of a delivery fits its header.

  A message goes back behind a tag: what delivers it is eight bytes longer than what published it.
  The settings bound what is published by what the four bytes of a header can tell, and the header
  keeps the low 32 bits of what is delivered.
  - `limit_of_accepted`: settings that are accepted bound what is published so.
  - `exists_filed`: what a pass delivers, how it is filed and how it is queued.
  - `delivery_read_alone_iff`: which deliveries a client reads back, under any settings accepted.
-/

import MessageBroker.Proofs.Loopback.Polling
import MessageBroker.Proofs.Loopback.Reading
import MessageBroker.Proofs.Wire.Decoding
import MessageBroker.Settings.Basic

namespace MessageBroker.Loopback

open Wire Delivery

/-! ## What is published -/

/-- A connection may hand the payload out under these settings. -/
def Admits (s : Settings) (payload : Bytes) : Prop :=
  ∃ d d' : Decoder, d.limit = s.maxMessageSize.toNat ∧ d.decode = (.ok (some payload), d')

theorem range_header : BigEndian.range Frame.headerSize = UInt32.size := rfl

/-- Settings are accepted only if a header can tell their longest payload. -/
theorem limit_of_accepted {s : Settings} (accepted : s.validate = .ok ()) : s.maxMessageSize.toNat < UInt32.size := by
  by_contra hlong
  have htransport : ∃ fault, s.transport.validate = .error fault := by
    unfold Transport.Config.validate
    split
    · exact ⟨_, rfl⟩
    · split
      · exact ⟨_, rfl⟩
      · exact ⟨_, if_pos (Nat.not_lt.mp hlong)⟩
  obtain ⟨fault, hfault⟩ := htransport
  unfold Settings.validate at accepted
  rw [hfault] at accepted
  split at accepted
  · cases accepted
  · split at accepted <;> cases accepted

theorem eq_of_parse_publish {payload body : Bytes} (h : Command.parse payload = .ok (.publish body)) :
    payload = Command.publishOpcode :: body := by
  cases Command.parse_eq_ok_iff.mp h with
  | publish => rfl

/-! ## What is delivered -/

/-- What a pass delivers: the first of the waiting messages, each filed under the tag that its
    frame carries, and the frames queued in order behind what was queued. -/
structure Filed (pending : List Bytes) (session : Session Bytes) (outbox : Outbox) (p : Pass)
    (delivered : List (Entry Bytes)) : Prop where
  messages_eq : delivered.map (·.message) = pending.take p.sent
  filed : p.session.tracker.outstanding.entries.Perm (session.tracker.outstanding.entries ++ delivered)
  buffer_eq : p.outbox.buffer = outbox.buffer ++ Frame.encodeAll (delivered.map frameOf)

theorem filed_none (pending : List Bytes) (session : Session Bytes) (outbox : Outbox) (refusal : Option Error) :
    Filed pending session outbox ⟨session, pending, outbox, 0, refusal⟩ [] where
  messages_eq := rfl
  filed := by rw [List.append_nil]
  buffer_eq := (List.append_nil _).symm

theorem exists_filed (pending : List Bytes) (left : Nat) (session : Session Bytes) (outbox : Outbox) :
    ∃ delivered, Filed pending session outbox (Engine.deliverPending pending left session outbox) delivered := by
  induction pending generalizing left session outbox with
  | nil => exact ⟨[], filed_none [] session outbox none⟩
  | cons message rest ih =>
    by_cases hstop : left = 0 ∨ session.hasCredit = false
    · simp only [Engine.deliverPending, if_pos hstop]
      exact ⟨[], filed_none _ session outbox none⟩
    rcases session.deliver_cases message with ⟨-, herror⟩ | ⟨-, -, herror⟩ | ⟨-, -, -, herror⟩ | ⟨-, -, hfree, hok⟩
    case inl | inr.inl | inr.inr.inl =>
      simp only [Engine.deliverPending, if_neg hstop, herror]
      exact ⟨[], filed_none _ session outbox _⟩
    simp only [Engine.deliverPending, if_neg hstop, hok]
    obtain ⟨delivered, hmessages, hfiled, hbuffer⟩ :=
      ih (left - 1) (session.track message) (outbox.push (delivery session.nextTag message))
    have hnew : ∀ y ∈ session.tracker.outstanding.entries, y.tag ≠ session.nextTag := by
      intro y hy htag
      exact hfree (htag ▸ TagMap.mem_tags_of_mem hy)
    have htrack : (session.track message).tracker.outstanding.entries.Perm
        (⟨session.nextTag, message⟩ :: session.tracker.outstanding.entries) :=
      TagMap.place_perm (e := ⟨session.nextTag, message⟩) hnew
    refine ⟨⟨session.nextTag, message⟩ :: delivered, ?_, ?_, ?_⟩
    · rw [List.map_cons, hmessages, List.take_succ_cons]
    · exact (hfiled.trans (htrack.append_right delivered)).trans List.perm_middle.symm
    · rw [hbuffer, List.map_cons, Frame.encodeAll_cons]
      exact List.append_assoc _ _ _

theorem length_frameOf (x : Entry Bytes) {payload : Bytes} (h : Command.parse payload = .ok (.publish x.message)) :
    (frameOf x).length = payload.length + 8 := by
  rw [eq_of_parse_publish h]
  show (Command.deliverOpcode :: writeTag x.tag ++ x.message).length = _
  rw [List.length_append, List.length_cons, List.length_cons, writeTag, BigEndian.length_encode, tagSize]
  omega

/-- Under any settings that are accepted, whatever an engine delivers with a poll. What it delivers
    is filed under tags, and for each a frame is queued that carries the opcode, the tag and the
    body. Of what an admitted payload published, a client reads that frame back and nothing else
    just if the header can tell eight bytes more than the payload has. So all admitted payloads
    come back, unless the limit is one of the eight longest that are accepted. -/
theorem delivery_read_alone_iff (s : Settings) (accepted : s.validate = .ok ()) (e : Engine) (outbox : Outbox) :
    let frame (x : Entry Bytes) : Bytes := 0x81 :: BigEndian.encode 8 x.tag.toNat ++ x.message
    ∃ delivered : List (Entry Bytes),
      delivered.map (·.message) = e.pending.take (e.poll outbox).2.2.2.delivered ∧
      (e.poll outbox).2.1.session.tracker.outstanding.entries.Perm
        (e.session.tracker.outstanding.entries ++ delivered) ∧
      (e.poll outbox).2.2.1.buffer = outbox.buffer ++ delivered.flatMap (fun x => Frame.encode (frame x)) ∧
      ∀ x ∈ delivered, ∀ payload, Admits s payload → Command.parse payload = .ok (.publish x.message) →
        (Decoder.ReadAlone (Frame.encode (frame x)) (frame x) ↔ payload.length + 8 < UInt32.size) ∧
        (¬Decoder.ReadAlone (Frame.encode (frame x)) (frame x) →
          UInt32.size - 8 ≤ s.maxMessageSize.toNat ∧ s.maxMessageSize.toNat < UInt32.size) := by
  intro frame
  obtain ⟨delivered, hmessages, hfiled, hbuffer⟩ := exists_filed e.pending e.batch e.session outbox
  refine ⟨delivered, hmessages, hfiled, ?_, ?_⟩
  · refine hbuffer.trans ?_
    rw [Frame.encodeAll, List.flatMap_map]
    rfl
  · intro x _ payload hadmits hpublish
    have hframe : frame x = frameOf x := rfl
    have hiff : Decoder.ReadAlone (Frame.encode (frame x)) (frame x) ↔ payload.length + 8 < UInt32.size := by
      rw [Decoder.readAlone_iff, range_header, hframe, length_frameOf x hpublish]
    have hlimit := ((Decoder.exists_decode_iff _ _).mp hadmits).1
    refine ⟨hiff, fun hmisread => ⟨?_, limit_of_accepted accepted⟩⟩
    have hlong : ¬payload.length + 8 < UInt32.size := fun hshort => hmisread (hiff.mpr hshort)
    omega

/-- One client publishes a body, and the broker's engine delivers it. -/
theorem published_comes_back :
    let s := Settings.defaults 4
    let payload : Bytes := (Command.publish [72, 105]).encode
    let e : Engine := { Engine.new none 1 with pending := [[72, 105]] }
    s.validate = .ok () ∧ Admits s payload ∧ payload.length + 8 < UInt32.size ∧
    ∃ x : Entry Bytes, x.message = [72, 105] ∧
      (e.poll {}).2.2.1.buffer = Frame.encode (0x81 :: BigEndian.encode 8 x.tag.toNat ++ x.message) ∧
      Decoder.ReadAlone (Frame.encode (0x81 :: BigEndian.encode 8 x.tag.toNat ++ x.message))
        (0x81 :: BigEndian.encode 8 x.tag.toNat ++ x.message) := by
  intro s payload e
  have accepted : s.validate = .ok () := by decide
  have hadmits : Admits s payload := (Decoder.exists_decode_iff _ _).mpr ⟨by decide, by decide⟩
  have hshort : payload.length + 8 < UInt32.size := by decide
  obtain ⟨delivered, hmessages, -, hbuffer, hread⟩ := delivery_read_alone_iff s accepted e {}
  have hone : delivered.map (·.message) = [[72, 105]] := hmessages.trans (by decide)
  obtain ⟨x, rfl, hx⟩ := List.map_eq_singleton_iff.mp hone
  have hpublish : Command.parse payload = .ok (.publish x.message) := by rw [hx]; decide
  refine ⟨accepted, hadmits, hshort, x, hx, hbuffer.trans (List.append_nil _), ?_⟩
  exact (hread x (List.mem_singleton_self x) payload hadmits hpublish).1.mpr hshort

/-- A body of such a length that eight bytes more are as many as a header counts as none. It is
    admitted under the longest limit, its delivery is queued behind a header of zero, and a reader
    finds an empty frame first. -/
theorem misread_of_length {s : Settings} (hlimit : s.maxMessageSize.toNat = UInt32.size - 1) {body : Bytes}
    (hlength : body.length + 9 = UInt32.size) :
    let e : Engine := { Engine.new none 1 with pending := [body] }
    let frame : Bytes := 0x81 :: BigEndian.encode 8 1 ++ body
    Admits s (Command.publish body).encode ∧ (e.poll {}).2.2.1.buffer = Frame.encode frame ∧
    (∀ limit, frame.length ≤ limit → (((Decoder.ofLimit limit).feed (Frame.encode frame)).drain.1).head? = some []) ∧
    ¬Decoder.ReadAlone (Frame.encode frame) frame := by
  intro e frame
  have hframe : frame.length = UInt32.size := by
    show (0x81 :: BigEndian.encode 8 1 ++ body).length = UInt32.size
    rw [List.length_append, List.length_cons, BigEndian.length_encode]
    omega
  have hpayload : (Command.publish body).encode.length = body.length + 1 := List.length_cons
  refine ⟨(Decoder.exists_decode_iff _ _).mpr ⟨?_, ?_⟩, rfl, ?_, ?_⟩
  · omega
  · rw [hpayload, range_header]
    omega
  · intro limit _
    have hnone : frame.length % BigEndian.range Frame.headerSize = 0 := by rw [range_header, hframe, Nat.mod_self]
    have hadmits : frame.length % BigEndian.range Frame.headerSize ≤ limit := hnone ▸ Nat.zero_le limit
    have hfirst := Framing.parse_encode_of_any_length hadmits []
    rw [List.append_nil, hnone, List.take_zero] at hfirst
    rw [(Decoder.drain_fed limit (Frame.encode frame)).1, hfirst]
    rfl
  · rw [Decoder.readAlone_iff, range_header, hframe]
    exact Nat.lt_irrefl _

/-- The longest limit that is accepted, and a body of 4294967287 zeros: published, it is admitted;
    delivered, no reader finds it. -/
theorem longest_delivery_misread :
    let s : Settings := { Settings.defaults 1 with maxMessageSize := 4294967295 }
    let body : Bytes := List.replicate 4294967287 0
    let e : Engine := { Engine.new none 1 with pending := [body] }
    let frame : Bytes := 0x81 :: BigEndian.encode 8 1 ++ body
    s.validate = .ok () ∧ Admits s (Command.publish body).encode ∧ (e.poll {}).2.2.1.buffer = Frame.encode frame ∧
    (∀ limit, frame.length ≤ limit → (((Decoder.ofLimit limit).feed (Frame.encode frame)).drain.1).head? = some []) ∧
    ¬Decoder.ReadAlone (Frame.encode frame) frame := by
  intro s body e frame
  have hlimit : s.maxMessageSize.toNat = UInt32.size - 1 := by decide
  have hlength : body.length + 9 = UInt32.size := by
    have hzeros : body.length = 4294967287 := List.length_replicate
    rw [hzeros]
  exact ⟨by decide, misread_of_length hlimit hlength⟩

end MessageBroker.Loopback
