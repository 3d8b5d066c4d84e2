/-
  MessageBroker.Wire.BigEndian — whole numbers as big-endian byte strings.

  `encode w n` writes the `w` low bytes of `n`, most significant first; `decode` reads
  a byte string of any length back. A number too large for its width loses its high
  bytes: `decode_encode` says exactly what comes back, `decode_encode_of_lt` that
  nothing is lost below `range w`.
-/

namespace MessageBroker.Wire

abbrev Bytes := List UInt8

namespace BigEndian

/-- The `w` low bytes of `n`, most significant first. -/
def encode : Nat → Nat → Bytes
  | 0, _ => []
  | w + 1, n => encode w (n / 256) ++ [UInt8.ofNat n]

def decode (bs : Bytes) : Nat := bs.foldl (fun n b => n * 256 + b.toNat) 0

def range : Nat → Nat
  | 0 => 1
  | w + 1 => 256 * range w

@[simp] theorem decode_nil : decode [] = 0 := rfl

@[simp] theorem decode_snoc (bs : Bytes) (b : UInt8) :
    decode (bs ++ [b]) = decode bs * 256 + b.toNat := by
  simp [decode, List.foldl_append]

@[simp] theorem length_encode (w n : Nat) : (encode w n).length = w := by
  induction w generalizing n with
  | zero => rfl
  | succ w ih => simp [encode, ih]

/-- Reading a written number gives its remainder at the width. -/
theorem decode_encode (w n : Nat) : decode (encode w n) = n % range w := by
  induction w generalizing n with
  | zero => simp [encode, range, Nat.mod_one]
  | succ w ih =>
    rw [encode, decode_snoc, ih, UInt8.toNat_ofNat', range, Nat.mod_mul]
    omega

theorem decode_encode_of_lt {w n : Nat} (h : n < range w) : decode (encode w n) = n := by
  rw [decode_encode, Nat.mod_eq_of_lt h]

/-- Every string of bytes is a written number, of its own width. -/
theorem encode_decode (bs : Bytes) : encode bs.length (decode bs) = bs := by
  -- the last byte is the least significant one, so the induction runs from the back
  suffices h : ∀ rs : Bytes, encode rs.length (decode rs.reverse) = rs.reverse by simpa using h bs.reverse
  intro rs
  induction rs with
  | nil => rfl
  | cons b rs ih =>
    have hlast : UInt8.ofNat (decode rs.reverse * 256 + b.toNat) = b := by
      rw [UInt8.ofNat_add, UInt8.ofNat_mul]
      simp
    have hfirst : (decode rs.reverse * 256 + b.toNat) / 256 = decode rs.reverse := by
      have := b.toNat_lt
      omega
    rw [List.reverse_cons, decode_snoc, List.length_cons, encode, hfirst, hlast, ih]

theorem range_pos (w : Nat) : 0 < range w := by
  induction w with
  | zero => exact Nat.one_pos
  | succ w ih => exact Nat.mul_pos (by decide) ih

theorem decode_lt (bs : Bytes) : decode bs < range bs.length := by
  rw [← encode_decode bs, decode_encode, length_encode]
  exact Nat.mod_lt _ (range_pos _)

end BigEndian

end MessageBroker.Wire
