/-
  MessageBroker.Proofs.Wire.Framing — the frames of a stream of bytes, read in one go.

  `Framing.parse` is what a reader of a whole stream finds in it: frame after frame, until
  bytes are missing or a length above the limit is announced. It keeps no buffer and
  knows nothing of pieces.
  - `accounts_parse`: the frames found and the rest are the stream.
  - `parse_encode_of_any_length`: what is found of a frame whose header may tell too small a length.
  - `parse_encodeAll_append`: frames within the limit, in front of any stream, are found first.
  - `parse_append` / `parse_append_of_oversized`: what was found stays found when more arrives.
  - `parse_of_cut`: the first bytes of some frames hold the first of them.
  - `parse_incomplete` / `parse_tooLarge` / `parse_complete`: what is found, by what
    `Frame.peek` says about the start of the stream.
-/

import MessageBroker.Wire.Frame

namespace MessageBroker.Wire

inductive FramingEnd where
  /-- Bytes are missing. -/
  | unfinished
  /-- A length above the limit is announced. -/
  | oversized (len : Nat)
  deriving DecidableEq, Repr

structure Framing where
  payloads : List Bytes := []
  /-- The bytes behind the last frame. -/
  rest : Bytes
  ending : FramingEnd
  deriving DecidableEq, Repr

namespace Framing

def cons (payload : Bytes) (s : Framing) : Framing := { s with payloads := payload :: s.payloads }

def parse (limit : Nat) : Bytes → Framing
  | a :: b :: c :: d :: body =>
    let len := ((a.toNat * 256 + b.toNat) * 256 + c.toNat) * 256 + d.toNat
    if limit < len then { rest := a :: b :: c :: d :: body, ending := .oversized len }
    else if body.length < len then { rest := a :: b :: c :: d :: body, ending := .unfinished }
    else (parse limit (body.drop len)).cons (body.take len)
  | short => { rest := short, ending := .unfinished }
termination_by bs => bs.length
decreasing_by simp only [List.length_drop, List.length_cons]; omega

variable {limit : Nat}

/-! ## The start of a stream -/

theorem decode_header (a b c d : UInt8) :
    BigEndian.decode [a, b, c, d] = ((a.toNat * 256 + b.toNat) * 256 + c.toNat) * 256 + d.toNat := by
  simp [BigEndian.decode]

theorem parse_short {bs : Bytes} (h : bs.length < Frame.headerSize) :
    parse limit bs = { rest := bs, ending := .unfinished } := by
  unfold parse
  split
  · simp only [List.length_cons, Frame.headerSize] at h
    omega
  · rfl

theorem parse_incomplete {bs : Bytes} {k : Nat} (h : Frame.peek limit bs = .incomplete k) :
    parse limit bs = { rest := bs, ending := .unfinished } := by
  unfold Frame.peek at h
  split at h
  · rename_i a b c d body
    simp only [decode_header, List.length_take] at h
    unfold parse
    split at h
    · cases h
    · rename_i hlimit
      split at h
      · simp only [if_neg hlimit]
        rw [if_pos (by omega)]
      · cases h
  · rename_i hshort
    unfold parse
    split
    · exact absurd rfl (hshort _ _ _ _ _)
    · rfl

theorem parse_tooLarge {bs : Bytes} {len : Nat} (h : Frame.peek limit bs = .tooLarge len) :
    parse limit bs = { rest := bs, ending := .oversized len } := by
  unfold Frame.peek at h
  split at h
  · simp only [decode_header] at h
    unfold parse
    split at h
    · rename_i hlimit
      injection h with hlen
      subst hlen
      simp only [if_pos hlimit]
    · split at h <;> cases h
  · cases h

/-- A frame of any length in front of a stream. Its payload is found up to where the header says,
    which is the remainder of its length, and what is left of it counts as stream. -/
theorem parse_encode_of_any_length {payload : Bytes}
    (hlimit : payload.length % BigEndian.range Frame.headerSize ≤ limit) (bs : Bytes) :
    parse limit (Frame.encode payload ++ bs) =
      (parse limit (payload.drop (payload.length % BigEndian.range Frame.headerSize) ++ bs)).cons
        (payload.take (payload.length % BigEndian.range Frame.headerSize)) := by
  obtain ⟨a, b, c, d, hheader⟩ : ∃ a b c d, BigEndian.encode Frame.headerSize payload.length = [a, b, c, d] :=
    ⟨_, _, _, _, rfl⟩
  have hdecode := BigEndian.decode_encode Frame.headerSize payload.length
  rw [hheader, decode_header] at hdecode
  have hle : payload.length % BigEndian.range Frame.headerSize ≤ payload.length := Nat.mod_le _ _
  rw [Frame.encode, hheader]
  show parse limit (a :: b :: c :: d :: (payload ++ bs)) = _
  rw [parse]
  simp only [hdecode, List.length_append]
  rw [if_neg (by omega), if_neg (by omega), List.drop_append_of_le_length hle, List.take_append_of_le_length hle]

theorem parse_encode_append {payload : Bytes} (hlimit : payload.length ≤ limit)
    (hlen : payload.length < BigEndian.range Frame.headerSize) (bs : Bytes) :
    parse limit (Frame.encode payload ++ bs) = (parse limit bs).cons payload := by
  have hmod : payload.length % BigEndian.range Frame.headerSize = payload.length := Nat.mod_eq_of_lt hlen
  rw [parse_encode_of_any_length (hmod.symm ▸ hlimit), hmod, List.drop_length, List.take_length, List.nil_append]

/-- A complete frame is the written form of its payload, and the stream goes on behind it. -/
theorem encode_of_complete {bs : Bytes} {len total : Nat} (h : Frame.peek limit bs = .complete len total) :
    Frame.encode ((bs.drop Frame.headerSize).take len) ++ bs.drop total = bs ∧
    ((bs.drop Frame.headerSize).take len).length = len ∧ len ≤ limit ∧ len < BigEndian.range Frame.headerSize := by
  obtain ⟨htotal, hle, hlimit⟩ := Frame.peek_complete h
  have htake : ((bs.drop Frame.headerSize).take len).length = len := by
    rw [List.length_take, List.length_drop]
    omega
  unfold Frame.peek at h
  split at h
  · rename_i a b c d body
    simp only at h
    split at h
    · cases h
    · split at h
      · cases h
      · injection h with hlen
        have hheader : BigEndian.encode Frame.headerSize len = [a, b, c, d] := by
          rw [← hlen]
          exact BigEndian.encode_decode [a, b, c, d]
        refine ⟨?_, htake, hlimit, hlen ▸ BigEndian.decode_lt [a, b, c, d]⟩
        rw [Frame.encode, htake, hheader, htotal, Nat.add_comm Frame.headerSize, ← List.drop_drop]
        simp [Frame.headerSize]
  · cases h

theorem parse_complete {bs : Bytes} {len total : Nat} (h : Frame.peek limit bs = .complete len total) :
    parse limit bs = (parse limit (bs.drop total)).cons ((bs.drop Frame.headerSize).take len) := by
  obtain ⟨hsplit, htake, hlimit, hlen⟩ := encode_of_complete h
  conv => lhs; rw [← hsplit]
  exact parse_encode_append (htake.symm ▸ hlimit) (htake.symm ▸ hlen) _

/-! ## Whole streams -/

/-- A payload that a reader with this limit accepts, and whose length its header can hold. -/
def Admitted (limit : Nat) (payload : Bytes) : Prop :=
  payload.length ≤ limit ∧ payload.length < BigEndian.range Frame.headerSize

theorem parse_encodeAll_append {payloads : List Bytes} (h : ∀ p ∈ payloads, Admitted limit p) (bs : Bytes) :
    parse limit (Frame.encodeAll payloads ++ bs) =
      { parse limit bs with payloads := payloads ++ (parse limit bs).payloads } := by
  induction payloads with
  | nil => rfl
  | cons p payloads ih =>
    obtain ⟨hlimit, hlen⟩ := h p List.mem_cons_self
    have hrest := ih fun q hq => h q (List.mem_cons_of_mem p hq)
    rw [Frame.encodeAll_cons, List.append_assoc, parse_encode_append hlimit hlen]
    exact congrArg (cons p) hrest

/-- A whole stream of frames within the limit. -/
theorem parse_encodeAll {payloads : List Bytes} (h : ∀ p ∈ payloads, Admitted limit p) :
    parse limit (Frame.encodeAll payloads) = { payloads, rest := [], ending := .unfinished } := by
  have hnil : parse limit [] = { rest := [], ending := .unfinished } := parse_short (by decide)
  have hall := parse_encodeAll_append h []
  rwa [List.append_nil, hnil, List.append_nil] at hall

/-- What is found in a stream accounts for all of its bytes. -/
structure Accounts (limit : Nat) (bs : Bytes) (s : Framing) : Prop where
  /-- The frames found and the rest are the stream. -/
  bytes_eq : Frame.encodeAll s.payloads ++ s.rest = bs
  admitted : ∀ p ∈ s.payloads, Admitted limit p
  /-- The rest begins with no frame. -/
  rest_eq : parse limit s.rest = { rest := s.rest, ending := s.ending }

theorem accounts_parse (limit : Nat) (bs : Bytes) : Accounts limit bs (parse limit bs) := by
  induction hn : bs.length using Nat.strongRecOn generalizing bs with
  | ind n ih =>
    cases h : Frame.peek limit bs with
    | incomplete k =>
      have hp := parse_incomplete h
      rw [hp]
      exact ⟨rfl, fun _ hq => (List.not_mem_nil hq).elim, hp⟩
    | tooLarge len =>
      have hp := parse_tooLarge h
      rw [hp]
      exact ⟨rfl, fun _ hq => (List.not_mem_nil hq).elim, hp⟩
    | complete len total =>
      obtain ⟨hsplit, htake, hlimit, hlen⟩ := encode_of_complete h
      obtain ⟨htotal, hle, -⟩ := Frame.peek_complete h
      have hmore := ih (bs.drop total).length
        (by rw [List.length_drop, ← hn]; simp only [Frame.headerSize] at htotal; omega) _ rfl
      rw [parse_complete h]
      refine ⟨?_, ?_, hmore.rest_eq⟩
      · rw [cons, Frame.encodeAll_cons, List.append_assoc]
        exact (congrArg _ hmore.bytes_eq).trans hsplit
      · intro q hq
        rcases List.mem_cons.mp hq with rfl | hq
        · exact ⟨htake.symm ▸ hlimit, htake.symm ▸ hlen⟩
        · exact hmore.admitted q hq

/-- What follows the frames of a stream decides what a longer stream holds. -/
theorem parse_append (limit : Nat) (bs more : Bytes) :
    parse limit (bs ++ more) =
      { parse limit ((parse limit bs).rest ++ more) with
        payloads := (parse limit bs).payloads ++ (parse limit ((parse limit bs).rest ++ more)).payloads } := by
  have h := accounts_parse limit bs
  conv => lhs; rw [← h.bytes_eq, List.append_assoc]
  exact parse_encodeAll_append h.admitted _

theorem peek_of_oversized {bs : Bytes} {len : Nat} (h : parse limit bs = { rest := bs, ending := .oversized len }) :
    Frame.peek limit bs = .tooLarge len := by
  cases hpeek : Frame.peek limit bs with
  | incomplete k =>
    rw [parse_incomplete hpeek] at h
    cases h
  | tooLarge other =>
    rw [parse_tooLarge hpeek] at h
    injection h with _ _ hlen
    injection hlen with hlen
    rw [hlen]
  | complete other total =>
    rw [parse_complete hpeek] at h
    cases h

/-- Behind a length above the limit nothing more is found, whatever arrives. -/
theorem parse_append_of_oversized {bs : Bytes} {len : Nat}
    (h : parse limit bs = { rest := bs, ending := .oversized len }) (more : Bytes) :
    parse limit (bs ++ more) = { rest := bs ++ more, ending := .oversized len } :=
  parse_tooLarge (Frame.peek_append_of_tooLarge (peek_of_oversized h) more)

theorem ending_append_of_oversized {bs : Bytes} {len : Nat} (h : (parse limit bs).ending = .oversized len)
    (more : Bytes) : (parse limit (bs ++ more)).ending = .oversized len := by
  have hrest := (accounts_parse limit bs).rest_eq
  rw [h] at hrest
  rw [parse_append, parse_append_of_oversized hrest]

/-- A stream that ends before the last of some frames does: it holds the first of them, and
    what is left of it begins the others. -/
theorem parse_of_cut {payloads : List Bytes} (h : ∀ p ∈ payloads, Admitted limit p) {bs more : Bytes}
    (hall : bs ++ more = Frame.encodeAll payloads) :
    (parse limit bs).ending = .unfinished ∧
    ∃ later, payloads = (parse limit bs).payloads ++ later ∧ (parse limit bs).rest ++ more = Frame.encodeAll later := by
  have hparse := parse_encodeAll h
  rw [← hall] at hparse
  have hending : (parse limit bs).ending = .unfinished := by
    cases hending : (parse limit bs).ending with
    | unfinished => rfl
    | oversized len =>
      have hmore := ending_append_of_oversized hending more
      rw [hparse] at hmore
      cases hmore
  rw [parse_append] at hparse
  have hpayloads : (parse limit bs).payloads ++ (parse limit ((parse limit bs).rest ++ more)).payloads = payloads :=
    congrArg Framing.payloads hparse
  refine ⟨hending, _, hpayloads.symm, ?_⟩
  rw [← (accounts_parse limit bs).bytes_eq, List.append_assoc, ← hpayloads, Frame.encodeAll_append] at hall
  exact List.append_cancel_left hall

end Framing

end MessageBroker.Wire
