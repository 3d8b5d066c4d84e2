/-
  MessageBroker.Proofs.Wire.Verdicts — a verdict about a frame stands, whatever arrives.

  A buffer is inspected again each time more bytes have come. Two things are waited for: the
  header, and then as many bytes as it announces. What is missing is counted exactly, so
  nobody has to look again before that many bytes are there.
  - `peek_short` / `peek_whole`: the verdict, by whether the header is there.
  - `peek_eq_complete_iff` / `peek_eq_incomplete_iff`: which buffers hold a whole frame, and
    how much is missing in the others.
  - `peek_as_bytes_arrive`: every verdict, and what becomes of it when more arrives.
-/

import MessageBroker.Wire.Frame

namespace MessageBroker.Wire.Frame

def announced (bs : Bytes) : Nat := BigEndian.decode (bs.take headerSize)

variable {limit : Nat} {bs : Bytes}

theorem announced_append (h : headerSize ≤ bs.length) (more : Bytes) : announced (bs ++ more) = announced bs := by
  rw [announced, List.take_append_of_le_length h, announced]

/-! ## One buffer -/

theorem peek_short (h : bs.length < headerSize) : peek limit bs = .incomplete (headerSize - bs.length) := by
  unfold peek
  split
  · simp only [List.length_cons, headerSize] at h
    omega
  · rfl

theorem peek_whole (h : headerSize ≤ bs.length) :
    peek limit bs =
      if limit < announced bs then .tooLarge (announced bs)
      else if bs.length < headerSize + announced bs then .incomplete (headerSize + announced bs - bs.length)
      else .complete (announced bs) (headerSize + announced bs) := by
  obtain ⟨a, b, c, d, body, rfl⟩ : ∃ a b c d body, bs = a :: b :: c :: d :: body := by
    match bs, h with
    | a :: b :: c :: d :: body, _ => exact ⟨a, b, c, d, body, rfl⟩
  have hlen : announced (a :: b :: c :: d :: body) = BigEndian.decode [a, b, c, d] := rfl
  simp only [peek, hlen, List.length_take, List.length_cons, headerSize]
  generalize BigEndian.decode [a, b, c, d] = len
  by_cases hlimit : limit < len
  · rw [if_pos hlimit, if_pos hlimit]
  · rw [if_neg hlimit, if_neg hlimit]
    -- of the body no more is looked at than what is announced
    by_cases hmissing : body.length < len
    · rw [if_pos (by omega), if_pos (by omega)]
      congr 1
      omega
    · rw [if_neg (by omega), if_neg (by omega)]

theorem peek_eq_complete_iff {len total : Nat} :
    peek limit bs = .complete len total ↔
      len = announced bs ∧ len ≤ limit ∧ total = headerSize + len ∧ total ≤ bs.length := by
  by_cases hheader : bs.length < headerSize
  · rw [peek_short hheader]
    refine ⟨nofun, ?_⟩
    rintro ⟨-, -, rfl, hle⟩
    omega
  · rw [peek_whole (Nat.not_lt.mp hheader)]
    split
    · refine ⟨nofun, ?_⟩
      rintro ⟨rfl, hle, -, -⟩
      omega
    · split
      · refine ⟨nofun, ?_⟩
        rintro ⟨rfl, -, rfl, hle⟩
        omega
      · rw [Verdict.complete.injEq]
        constructor
        · rintro ⟨rfl, rfl⟩
          exact ⟨rfl, by omega, rfl, by omega⟩
        · rintro ⟨rfl, -, rfl, -⟩
          exact ⟨rfl, rfl⟩

/-- Missing is the rest of the header, or the rest of what it announces within the limit. -/
theorem peek_eq_incomplete_iff {k : Nat} :
    peek limit bs = .incomplete k ↔
      (bs.length < headerSize ∧ bs.length + k = headerSize) ∨
      (headerSize ≤ bs.length ∧ announced bs ≤ limit ∧ 0 < k ∧ bs.length + k = headerSize + announced bs) := by
  by_cases hheader : bs.length < headerSize
  · rw [peek_short hheader, Verdict.incomplete.injEq]
    omega
  · rw [peek_whole (Nat.not_lt.mp hheader)]
    split
    · refine ⟨nofun, ?_⟩
      rintro (⟨hshort, -⟩ | ⟨-, hle, -⟩) <;> omega
    · split
      · rw [Verdict.incomplete.injEq]
        omega
      · refine ⟨nofun, ?_⟩
        rintro (⟨hshort, -⟩ | ⟨-, -, hpos, hsum⟩) <;> omega

/-- The last byte of a header brings the verdict on the length, and nothing of a body yet. -/
theorem peek_of_length (h : bs.length = headerSize) :
    peek limit bs =
      if limit < announced bs then .tooLarge (announced bs)
      else if announced bs = 0 then .complete 0 headerSize
      else .incomplete (announced bs) := by
  rw [peek_whole (Nat.le_of_eq h.symm), h]
  by_cases hlimit : limit < announced bs
  · rw [if_pos hlimit, if_pos hlimit]
  · rw [if_neg hlimit, if_neg hlimit]
    by_cases hnone : announced bs = 0
    · rw [if_neg (by omega), if_pos hnone, hnone, Nat.add_zero]
    · rw [if_pos (by omega), if_neg hnone, Nat.add_sub_cancel_left]

/-! ## More of it -/

theorem peek_append_of_complete {len total : Nat} (h : peek limit bs = .complete len total) (more : Bytes) :
    peek limit (bs ++ more) = .complete len total := by
  obtain ⟨hlen, hlimit, htotal, hle⟩ := peek_eq_complete_iff.mp h
  refine peek_eq_complete_iff.mpr ⟨?_, hlimit, htotal, ?_⟩
  · rw [hlen, announced_append (by omega)]
  · rw [List.length_append]
    omega

/-- Before all that is missing has come, the count goes down by what has. -/
theorem peek_append_of_missing {k : Nat} (h : peek limit bs = .incomplete k) {more : Bytes} (hmore : more.length < k) :
    peek limit (bs ++ more) = .incomplete (k - more.length) := by
  rw [peek_eq_incomplete_iff, List.length_append]
  rcases peek_eq_incomplete_iff.mp h with ⟨-, hsum⟩ | ⟨hheader, hlimit, -, hsum⟩
  · left
    omega
  · right
    rw [announced_append hheader]
    omega

/-- Any buffer, any limit, and whatever arrives behind it. A whole frame stays the same whole
    frame, and a length above the limit is refused as the same. Where bytes are missing, some
    are: fewer of them leave just the others missing. Exactly so many complete the header, if
    it was not there, and the verdict is then on the length it announces: it is refused, or
    there is no body and the frame is whole, or the body is missing, all of it. If the header
    was there, they complete the frame, which ends with the last of them. -/
theorem peek_as_bytes_arrive (limit : Nat) (bs more : Bytes) :
    (∀ len total, peek limit bs = .complete len total → peek limit (bs ++ more) = .complete len total) ∧
    (∀ len, peek limit bs = .tooLarge len → peek limit (bs ++ more) = .tooLarge len) ∧
    ∀ k, peek limit bs = .incomplete k →
      0 < k ∧
      (more.length < k → peek limit (bs ++ more) = .incomplete (k - more.length)) ∧
      (more.length = k →
        let len := BigEndian.decode ((bs ++ more).take headerSize)
        (bs.length < headerSize →
          peek limit (bs ++ more) =
            if limit < len then .tooLarge len else if len = 0 then .complete 0 headerSize else .incomplete len) ∧
        (headerSize ≤ bs.length →
          peek limit (bs ++ more) = .complete len (headerSize + len) ∧ (bs ++ more).length = headerSize + len)) := by
  refine ⟨fun _ _ h => peek_append_of_complete h more, fun _ h => peek_append_of_tooLarge h more, ?_⟩
  intro k hk
  have hcases := peek_eq_incomplete_iff.mp hk
  refine ⟨by omega, peek_append_of_missing hk, ?_⟩
  intro hmore len
  have hlength : (bs ++ more).length = bs.length + k := by rw [List.length_append, hmore]
  refine ⟨fun hshort => ?_, fun hheader => ?_⟩
  · exact peek_of_length (by omega)
  · have hsame : len = announced bs := announced_append hheader more
    have hwhole : (bs ++ more).length = headerSize + len := by omega
    exact ⟨peek_eq_complete_iff.mpr ⟨rfl, by omega, rfl, Nat.le_of_eq hwhole.symm⟩, hwhole⟩

/-- A payload of three bytes, in four pieces: part of the header, its rest, part of the body, and
    the rest of that with the start of another frame. -/
theorem three_bytes_as_they_arrive :
    peek 3 [0, 0] = .incomplete 2 ∧ peek 3 [0, 0, 0, 3] = .incomplete 3 ∧ peek 3 [0, 0, 0, 3, 7] = .incomplete 2 ∧
    peek 3 [0, 0, 0, 3, 7, 8, 9] = .complete 3 7 ∧ peek 3 [0, 0, 0, 3, 7, 8, 9, 0, 0] = .complete 3 7 := by
  have hstart : peek 3 [0, 0] = .incomplete 2 := rfl
  obtain ⟨-, -, hlast⟩ := (peek_as_bytes_arrive 3 [0, 0] [0, 3]).2.2 2 hstart
  have hheader : peek 3 ([0, 0] ++ [0, 3]) = .incomplete 3 := ((hlast rfl).1 (by decide)).trans (by decide)
  obtain ⟨-, hpart, -⟩ := (peek_as_bytes_arrive 3 [0, 0, 0, 3] [7]).2.2 3 hheader
  have hbody : peek 3 ([0, 0, 0, 3] ++ [7]) = .incomplete 2 := hpart (by decide)
  obtain ⟨-, -, hrest⟩ := (peek_as_bytes_arrive 3 [0, 0, 0, 3, 7] [8, 9]).2.2 2 hbody
  have hwhole : peek 3 ([0, 0, 0, 3, 7] ++ [8, 9]) = .complete 3 7 := ((hrest rfl).2 (by decide)).1
  exact ⟨hstart, hheader, hbody, hwhole, (peek_as_bytes_arrive 3 [0, 0, 0, 3, 7, 8, 9] [0, 0]).1 3 7 hwhole⟩

end MessageBroker.Wire.Frame
