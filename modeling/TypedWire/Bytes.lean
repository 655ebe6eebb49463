/-!
# Byte strings and big-endian words

Every number on the wire is a fixed count of bytes, most significant byte first.

- `Bytes`: a byte string.
- `BigEndian.capacity width`: how many numbers `width` bytes can spell.
- `BigEndian.encode width n`: the `width` bytes that spell `n` modulo their capacity.
- `BigEndian.decode bs`: the number that `bs` spells.
- `BigEndian.decode_encode`, `BigEndian.encode_decode`: the two undo each other, up to the width.
-/

namespace TypedWire

/-- A byte string. -/
abbrev Bytes := List UInt8

namespace BigEndian

/-- How many numbers `width` bytes can spell. -/
def capacity : Nat → Nat
  | 0 => 1
  | width + 1 => 256 * capacity width

theorem capacity_pos (width : Nat) : 0 < capacity width := by
  induction width with
  | zero => decide
  | succ width ih => exact Nat.mul_pos (by decide) ih

theorem capacity_add (m n : Nat) : capacity (m + n) = capacity m * capacity n := by
  induction m with
  | zero => rw [Nat.zero_add, capacity, Nat.one_mul]
  | succ m ih => rw [Nat.succ_add, capacity, ih, capacity, Nat.mul_assoc]

/-- The `width` bytes that spell `n` modulo their capacity, most significant first. -/
def encode : Nat → Nat → Bytes
  | 0, _ => []
  | width + 1, n => UInt8.ofNat (n / capacity width) :: encode width n

/-- The number that a byte string spells, most significant byte first. -/
def decode : Bytes → Nat
  | [] => 0
  | b :: bs => b.toNat * capacity bs.length + decode bs

@[simp] theorem length_encode (width n : Nat) : (encode width n).length = width := by
  induction width with
  | zero => rfl
  | succ width ih => simp [encode, ih]

/-- A byte string spells a number below the capacity of its length. -/
theorem decode_lt (bs : Bytes) : decode bs < capacity bs.length := by
  induction bs with
  | nil => simp [decode, capacity]
  | cons b bs ih =>
    have hb : b.toNat + 1 ≤ 256 := b.toNat_lt
    calc decode (b :: bs) < b.toNat * capacity bs.length + capacity bs.length :=
          Nat.add_lt_add_left ih _
      _ = (b.toNat + 1) * capacity bs.length := by rw [Nat.succ_mul]
      _ ≤ 256 * capacity bs.length := Nat.mul_le_mul_right _ hb

/-- Reading back a spelled number gives it modulo the capacity. -/
theorem decode_encode (width n : Nat) : decode (encode width n) = n % capacity width := by
  induction width with
  | zero => simp [encode, decode, capacity, Nat.mod_one]
  | succ width ih =>
    rw [encode, decode, length_encode, ih, capacity, Nat.mul_comm 256, Nat.mod_mul,
      UInt8.toNat_ofNat', Nat.mul_comm, Nat.add_comm]

/-- Only the number modulo the capacity of at least as many bytes counts. -/
theorem encode_mod (width n k : Nat) (h : width ≤ k) :
    encode width (n % capacity k) = encode width n := by
  induction width with
  | zero => rfl
  | succ width ih =>
    have hk : width < k := h
    rw [encode, encode, ih (Nat.le_of_lt hk)]
    congr 1
    apply UInt8.toNat_inj.mp
    obtain ⟨d, rfl⟩ : ∃ d, k = width + (d + 1) := ⟨k - width - 1, by omega⟩
    rw [UInt8.toNat_ofNat', UInt8.toNat_ofNat', capacity_add, Nat.mod_mul_right_div_self, capacity,
      Nat.mod_mul_right_mod]

/-- Spelling the number that a byte string spells gives the byte string back. -/
theorem encode_decode (bs : Bytes) : encode bs.length (decode bs) = bs := by
  induction bs with
  | nil => rfl
  | cons b bs ih =>
    have hlt := decode_lt bs
    have hpos := capacity_pos bs.length
    have hhead : (b.toNat * capacity bs.length + decode bs) / capacity bs.length = b.toNat := by
      rw [Nat.mul_comm, Nat.mul_add_div hpos, Nat.div_eq_of_lt hlt, Nat.add_zero]
    have htail : (b.toNat * capacity bs.length + decode bs) % capacity bs.length = decode bs := by
      rw [Nat.mul_comm, Nat.mul_add_mod, Nat.mod_eq_of_lt hlt]
    rw [List.length_cons, encode, decode, hhead, UInt8.ofNat_toNat,
      ← encode_mod _ _ _ (Nat.le_refl _), htail, ih]

end BigEndian

end TypedWire
