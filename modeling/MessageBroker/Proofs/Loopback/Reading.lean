/-
  MessageBroker.Proofs.Loopback.Reading — which frames are commands, and what is done with each.

  A frame is read before anything is done: its first byte says how much must follow, a tag is the
  eight bytes behind that byte, and bytes behind the last one that is asked for do not matter. So a
  frame spells one command or has one thing wrong with it.
  - `parse_eq_ok_iff` / `parse_eq_error_iff`: which frames spell which command, and what is wrong
    with the others.
  - `frames_taken_or_refused`: a frame that spells a command is carried out on the session, and any
    other leaves client and outbox as they were.
-/

import MessageBroker.Loopback.Handler

namespace MessageBroker.Loopback

open Wire

structure Names (name : Bytes) (tag : Tag) : Prop where
  eight : name.length = tagSize
  toNat_eq : tag.toNat = BigEndian.decode name

theorem decode_lt_word {name : Bytes} (h : name.length = tagSize) : BigEndian.decode name < UInt64.size := by
  have hlt := BigEndian.decode_lt name
  rw [h] at hlt
  exact hlt

theorem names_ofNat {name : Bytes} (h : name.length = tagSize) : Names name (UInt64.ofNat (BigEndian.decode name)) := by
  refine ⟨h, ?_⟩
  rw [UInt64.toNat_ofNat']
  exact Nat.mod_eq_of_lt (decode_lt_word h)

theorem Names.eq {name : Bytes} {tag : Tag} (h : Names name tag) : tag = UInt64.ofNat (BigEndian.decode name) := by
  rw [← h.toNat_eq, UInt64.ofNat_toNat]

theorem names_writeTag (tag : Tag) : Names (writeTag tag) tag := by
  refine ⟨BigEndian.length_encode _ _, ?_⟩
  unfold writeTag
  rw [BigEndian.decode_encode_of_lt tag.toNat_lt]

/-- The tag is read off its bytes, whatever follows them. -/
theorem readTag_name {name : Bytes} {tag : Tag} (h : Names name tag) (rest : Bytes) :
    readTag (name ++ rest) = .ok tag ∧ (name ++ rest).drop tagSize = rest := by
  have hfirst : (name ++ rest).take tagSize = name := List.take_left' h.eight
  have hlong : ¬(name ++ rest).length < tagSize := by
    rw [List.length_append, h.eight]
    omega
  constructor
  · unfold readTag
    rw [if_neg hlong, hfirst, h.eq]
  · exact List.drop_left' h.eight

theorem exists_name {body : Bytes} (h : tagSize ≤ body.length) :
    ∃ name rest tag, body = name ++ rest ∧ Names name tag :=
  ⟨body.take tagSize, body.drop tagSize, _, (List.take_append_drop _ _).symm, names_ofNat (List.length_take_of_le h)⟩

namespace Command

/-- The frames that spell a command: a tag has eight bytes, and what follows a command is ignored. -/
inductive Spells : Command → Bytes → Prop
  | publish (body : Bytes) : Spells (.publish body) (publishOpcode :: body)
  | acknowledge {name : Bytes} {tag : Tag} (h : Names name tag) (flag : UInt8) (rest : Bytes) :
      Spells (.acknowledge tag (flag != 0)) (acknowledgeOpcode :: (name ++ flag :: rest))
  | reject {name : Bytes} {tag : Tag} (h : Names name tag) (rest : Bytes) :
      Spells (.reject tag) (rejectOpcode :: (name ++ rest))

inductive Spoils : Malformed → Bytes → Prop
  | empty : Spoils .emptyFrame []
  | opcode {opcode : UInt8} (body : Bytes) (publish : opcode ≠ publishOpcode)
      (acknowledge : opcode ≠ acknowledgeOpcode) (reject : opcode ≠ rejectOpcode) :
      Spoils (.unknownOpcode opcode) (opcode :: body)
  | tag {opcode : UInt8} {body : Bytes} (tagged : opcode = acknowledgeOpcode ∨ opcode = rejectOpcode)
      (short : body.length < tagSize) : Spoils (.truncatedTag body.length) (opcode :: body)
  | flag {name : Bytes} (eight : name.length = tagSize) : Spoils .missingFlag (acknowledgeOpcode :: name)

/-- The frames that are taken: 1 and anything, 2 and nine bytes or more, 3 and eight or more. -/
def WellFormed (frame : Bytes) : Prop :=
  ∃ opcode body, frame = opcode :: body ∧
    (opcode = 0x01 ∨ (opcode = 0x02 ∧ 9 ≤ body.length) ∨ (opcode = 0x03 ∧ 8 ≤ body.length))

/-! ## Reading a frame -/

theorem parse_acknowledge (body : Bytes) :
    parse (acknowledgeOpcode :: body) = (readTag body).bind fun tag =>
      match body.drop tagSize with
      | [] => .error .missingFlag
      | flag :: _ => .ok (.acknowledge tag (flag != 0)) := rfl

theorem parse_reject (body : Bytes) :
    parse (rejectOpcode :: body) = (readTag body).bind fun tag => .ok (.reject tag) := rfl

theorem parse_of_spells {c : Command} {frame : Bytes} (h : Spells c frame) : parse frame = .ok c := by
  cases h with
  | publish body => rfl
  | acknowledge hname flag rest =>
    obtain ⟨htag, hrest⟩ := readTag_name hname (flag :: rest)
    rw [parse_acknowledge, htag, hrest]
    rfl
  | reject hname rest =>
    rw [parse_reject, (readTag_name hname rest).1]
    rfl

theorem parse_of_spoils {m : Malformed} {frame : Bytes} (h : Spoils m frame) : parse frame = .error m := by
  cases h with
  | empty => rfl
  | opcode body publish acknowledge reject =>
    show (if _ then _ else _) = _
    rw [if_neg publish, if_neg acknowledge, if_neg reject]
  | @tag opcode body tagged short =>
    have hread : readTag body = .error (.truncatedTag body.length) := if_pos short
    rcases tagged with rfl | rfl
    · rw [parse_acknowledge, hread]
      rfl
    · rw [parse_reject, hread]
      rfl
  | @flag name eight =>
    obtain ⟨htag, hrest⟩ := readTag_name (names_ofNat eight) []
    rw [List.append_nil] at htag hrest
    rw [parse_acknowledge, htag, hrest]
    rfl

/-- A frame spells a command or has something wrong with it. -/
theorem spells_or_spoils (frame : Bytes) : (∃ c, Spells c frame) ∨ ∃ m, Spoils m frame := by
  rcases frame with - | ⟨opcode, body⟩
  · exact .inr ⟨_, .empty⟩
  by_cases hpublish : opcode = publishOpcode
  · subst hpublish
    exact .inl ⟨_, .publish body⟩
  by_cases htagged : opcode = acknowledgeOpcode ∨ opcode = rejectOpcode
  · by_cases hshort : body.length < tagSize
    · exact .inr ⟨_, .tag htagged hshort⟩
    obtain ⟨name, rest, tag, rfl, hname⟩ := exists_name (Nat.not_lt.mp hshort)
    rcases htagged with rfl | rfl
    · cases rest with
      | nil =>
        rw [List.append_nil]
        exact .inr ⟨_, .flag hname.eight⟩
      | cons flag rest => exact .inl ⟨_, .acknowledge hname flag rest⟩
    · exact .inl ⟨_, .reject hname rest⟩
  · rw [not_or] at htagged
    exact .inr ⟨_, .opcode body hpublish htagged.1 htagged.2⟩

theorem parse_eq_ok_iff {c : Command} {frame : Bytes} : parse frame = .ok c ↔ Spells c frame := by
  refine ⟨fun h => ?_, parse_of_spells⟩
  rcases spells_or_spoils frame with ⟨c', hspells⟩ | ⟨m, hspoils⟩
  · rw [parse_of_spells hspells] at h
    cases h
    exact hspells
  · rw [parse_of_spoils hspoils] at h
    cases h

theorem parse_eq_error_iff {m : Malformed} {frame : Bytes} : parse frame = .error m ↔ Spoils m frame := by
  refine ⟨fun h => ?_, parse_of_spoils⟩
  rcases spells_or_spoils frame with ⟨c, hspells⟩ | ⟨m', hspoils⟩
  · rw [parse_of_spells hspells] at h
    cases h
  · rw [parse_of_spoils hspoils] at h
    cases h
    exact hspoils

/-! ## Which frames are taken -/

theorem Spells.wellFormed {c : Command} {frame : Bytes} (h : Spells c frame) : WellFormed frame := by
  cases h with
  | publish body => exact ⟨_, body, rfl, .inl rfl⟩
  | acknowledge hname flag rest =>
    refine ⟨_, _, rfl, .inr (.inl ⟨rfl, ?_⟩)⟩
    rw [List.length_append, hname.eight, List.length_cons, tagSize]
    omega
  | reject hname rest =>
    refine ⟨_, _, rfl, .inr (.inr ⟨rfl, ?_⟩)⟩
    rw [List.length_append, hname.eight, tagSize]
    omega

theorem Spoils.not_wellFormed {m : Malformed} {frame : Bytes} (h : Spoils m frame) : ¬WellFormed frame := by
  rintro ⟨first, rest, hframe, hkind⟩
  cases h with
  | empty => cases hframe
  | opcode body publish acknowledge reject =>
    cases hframe
    rcases hkind with hkind | ⟨hkind, -⟩ | ⟨hkind, -⟩
    · exact publish hkind
    · exact acknowledge hkind
    · exact reject hkind
  | tag tagged short =>
    cases hframe
    rw [tagSize] at short
    rcases hkind with rfl | ⟨-, hlong⟩ | ⟨-, hlong⟩
    · rcases tagged with htagged | htagged <;> cases htagged
    · omega
    · omega
  | flag eight =>
    cases hframe
    rw [tagSize] at eight
    rcases hkind with hkind | ⟨-, hlong⟩ | ⟨hkind, -⟩
    · cases hkind
    · omega
    · cases hkind

/-- The bytes that a command is written as spell it, and so do they with others behind them. -/
theorem spells_encode_acknowledge (tag : Tag) (multiple : Bool) (rest : Bytes) :
    Spells (.acknowledge tag multiple) ((acknowledge tag multiple).encode ++ rest) := by
  have hspells (flag : UInt8) :
      Spells (.acknowledge tag (flag != 0)) (acknowledgeOpcode :: (writeTag tag ++ flag :: rest)) :=
    .acknowledge (names_writeTag tag) flag rest
  have hencode : (acknowledge tag multiple).encode ++ rest =
      acknowledgeOpcode :: (writeTag tag ++ (if multiple then 1 else 0) :: rest) := by simp [encode]
  rw [hencode]
  cases multiple with
  | true => exact hspells 1
  | false => exact hspells 0

theorem spells_encode_reject (tag : Tag) (rest : Bytes) : Spells (.reject tag) ((reject tag).encode ++ rest) :=
  .reject (names_writeTag tag) rest

end Command

/-! ## What is done with a frame -/

open Command Connection

namespace Client

def publish (c : Client) (body : Bytes) : Client :=
  ⟨{ c.engine with pending := c.engine.pending ++ [body] }, c.done + { published := 1 }⟩

/-- The client after its session has acknowledged, and counted what that took out. -/
def acknowledge (c : Client) (tag : Tag) (multiple : Bool) : Client :=
  let (answer, session) := c.engine.session.acknowledge tag multiple
  let removed := answer.getD (c.engine.session.tracker.selected tag multiple)
  ⟨{ c.engine with session }, c.done + { acknowledged := removed.length }⟩

def reject (c : Client) (tag : Tag) : Client :=
  let (message, session) := c.engine.session.reject tag
  ⟨{ c.engine with session, pending := c.engine.pending ++ message.toList },
    c.done + { requeued := message.toList.length }⟩

end Client

/-- The frame is taken: the client goes on to `c'`, and nothing is queued. -/
def Takes (c : Client) (outbox : Outbox) (frame : Bytes) (c' : Client) : Prop :=
  handler.onFrame frame c outbox = ⟨.returned (.ok ()), c', outbox⟩

section
variable (c : Client) (outbox : Outbox) {frame : Bytes}

theorem takes_of_spells {command : Command} (h : Spells command frame) :
    Takes c outbox frame ⟨(c.engine.perform command).1, c.done + (c.engine.perform command).2⟩ := by
  unfold Takes handler Engine.handle
  simp only [parse_of_spells h, Except.map]

theorem takes_acknowledge {tag : Tag} {multiple : Bool} (h : Spells (.acknowledge tag multiple) frame) :
    Takes c outbox frame (c.acknowledge tag multiple) :=
  takes_of_spells c outbox h

theorem takes_reject {tag : Tag} (h : Spells (.reject tag) frame) : Takes c outbox frame (c.reject tag) := by
  have hperform : (⟨(c.engine.perform (.reject tag)).1, c.done + (c.engine.perform (.reject tag)).2⟩ : Client) =
      c.reject tag := by
    unfold Engine.perform Client.reject
    rcases hanswer : c.engine.session.reject tag with ⟨- | message, session⟩
    · simp only [hanswer, Option.toList_none, List.append_nil, List.length_nil]
    · simp only [hanswer, Option.toList_some, List.length_singleton]
  exact hperform ▸ takes_of_spells c outbox h

theorem refused_of_spoils {m : Malformed} (h : Spoils m frame) :
    handler.onFrame frame c outbox = ⟨.returned (.error m.toError), c, outbox⟩ := by
  unfold handler Engine.handle
  simp only [parse_of_spoils h, Except.map]

theorem taken_iff : (handler.onFrame frame c outbox).outcome = .returned (.ok ()) ↔ WellFormed frame := by
  rcases spells_or_spoils frame with ⟨command, hspells⟩ | ⟨m, hspoils⟩
  · rw [takes_of_spells c outbox hspells]
    exact ⟨fun _ => hspells.wellFormed, fun _ => rfl⟩
  · rw [refused_of_spoils c outbox hspoils]
    constructor
    · intro hok
      cases hok
    · intro hwell
      exact absurd hwell hspoils.not_wellFormed

end

/-- Any client and any frame, with any outbox. The frame is taken exactly if it is well formed; if
    it is not, the client is told what is wrong with it and keeps its engine, what waits in it, its
    session and its counters as they were. A frame that is taken publishes what is behind its first
    byte, or the session acknowledges or rejects the tag that the eight bytes there spell, all up to
    it if the ninth is not zero, whatever stands behind them. So what an acknowledgement or a
    rejection is written as does that. No frame queues anything. -/
theorem frames_taken_or_refused (c : Client) (outbox : Outbox) (frame : Bytes) :
    ((handler.onFrame frame c outbox).outcome = .returned (.ok ()) ↔ WellFormed frame) ∧
    (¬WellFormed frame → ∃ m, Spoils m frame ∧
      handler.onFrame frame c outbox = ⟨.returned (.error m.toError), c, outbox⟩) ∧
    (∀ body, frame = 0x01 :: body → Takes c outbox frame (c.publish body)) ∧
    (∀ name flag rest, name.length = 8 → frame = 0x02 :: (name ++ flag :: rest) →
      ∃ tag : Tag, tag.toNat = BigEndian.decode name ∧ Takes c outbox frame (c.acknowledge tag (flag != 0))) ∧
    (∀ name rest, name.length = 8 → frame = 0x03 :: (name ++ rest) →
      ∃ tag : Tag, tag.toNat = BigEndian.decode name ∧ Takes c outbox frame (c.reject tag)) ∧
    (∀ tag multiple rest, frame = (Command.acknowledge tag multiple).encode ++ rest →
      Takes c outbox frame (c.acknowledge tag multiple)) ∧
    ∀ tag rest, frame = (Command.reject tag).encode ++ rest → Takes c outbox frame (c.reject tag) := by
  refine ⟨taken_iff c outbox, ?_, ?_, ?_, ?_, ?_, ?_⟩
  · intro hill
    rcases spells_or_spoils frame with ⟨command, hspells⟩ | ⟨m, hspoils⟩
    · exact absurd hspells.wellFormed hill
    · exact ⟨m, hspoils, refused_of_spoils c outbox hspoils⟩
  · rintro body rfl
    exact takes_of_spells c outbox (.publish body)
  · rintro name flag rest hname rfl
    have htag := names_ofNat hname
    exact ⟨_, htag.toNat_eq, takes_acknowledge c outbox (.acknowledge htag flag rest)⟩
  · rintro name rest hname rfl
    have htag := names_ofNat hname
    exact ⟨_, htag.toNat_eq, takes_reject c outbox (.reject htag rest)⟩
  · rintro tag multiple rest rfl
    exact takes_acknowledge c outbox (spells_encode_acknowledge tag multiple rest)
  · rintro tag rest rfl
    exact takes_reject c outbox (spells_encode_reject tag rest)

/-- One message is in flight under tag 1. An acknowledgement that lacks its last byte is refused,
    and the message stays; with a flag of 7 and two bytes too many it is taken. -/
theorem truncated_receipt_refused :
    let c : Client := ⟨(((Engine.new none 1).perform (.publish [65])).1.poll {}).2.1, {}⟩
    let short : Bytes := [2, 0, 0, 0, 0, 0, 0, 0, 1]
    ¬WellFormed short ∧ handler.onFrame short c {} = ⟨.returned (.error Malformed.missingFlag.toError), c, {}⟩ ∧
      c.engine.session.tracker.tags = [1] ∧ Takes c {} (short ++ [7, 9, 9]) (c.acknowledge 1 true) ∧
      (c.acknowledge 1 true).engine.session.tracker.tags = [] ∧ (c.acknowledge 1 true).done.acknowledged = 1 := by
  intro c short
  have hflag : Spoils .missingFlag short := .flag rfl
  have hill : ¬WellFormed short := hflag.not_wellFormed
  obtain ⟨-, hrefused, -⟩ := frames_taken_or_refused c {} short
  obtain ⟨-, -, -, htaken, -⟩ := frames_taken_or_refused c {} (short ++ [7, 9, 9])
  obtain ⟨m, hspoils, hanswer⟩ := hrefused hill
  have hm : .missingFlag = m := Except.error.inj ((parse_of_spoils hflag).symm.trans (parse_of_spoils hspoils))
  obtain ⟨tag, htag, htakes⟩ := htaken [0, 0, 0, 0, 0, 0, 0, 1] 7 [9, 9] rfl rfl
  have hone : tag = 1 := UInt64.toNat_inj.mp (htag.trans (by decide))
  subst hm hone
  exact ⟨hill, hanswer, by decide, htakes, by decide, by decide +kernel⟩

end MessageBroker.Loopback
