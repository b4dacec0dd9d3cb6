import Mathlib.Algebra.Group.Nat.Defs

/-!
# Byte strings: little-endian numbers, checked reads and a byte-wise stream cipher

`toLE w n` writes the low `w` bytes of `n`, least significant first, and
`ofLE` reads them back. `readAt` reads from a buffer and fails where the buffer
ends. `xorStream ks p` combines a byte string with the keystream `ks` from
position `p` on; it is its own inverse and works in any number of consecutive
parts, which is all a streaming cipher relies on.
-/

namespace ByteStream

/-! ## Little-endian numbers -/

/-- The low `w` bytes of a number, least significant first. -/
def toLE : Nat → Nat → List UInt8
  | 0, _ => []
  | w + 1, n => UInt8.ofNat n :: toLE w (n / 256)

/-- The number written in little-endian bytes. -/
def ofLE : List UInt8 → Nat
  | [] => 0
  | b :: bs => b.toNat + 256 * ofLE bs

@[simp] theorem length_toLE (w n : Nat) : (toLE w n).length = w := by
  induction w generalizing n with
  | zero => rfl
  | succ w ih => simp only [toLE, List.length_cons, ih]

theorem ofLE_toLE (w n : Nat) : ofLE (toLE w n) = n % 256 ^ w := by
  induction w generalizing n with
  | zero => simp only [toLE, ofLE, Nat.pow_zero, Nat.mod_one]
  | succ w ih =>
      have low : (UInt8.ofNat n).toNat = n % 256 := UInt8.toNat_ofNat'
      rw [toLE, ofLE, ih, low, Nat.pow_succ', Nat.mod_mul]

theorem ofLE_lt (bs : List UInt8) : ofLE bs < 256 ^ bs.length := by
  induction bs with
  | nil => exact Nat.one_pos
  | cons b bs ih =>
      have low := b.toNat_lt
      rw [ofLE, List.length_cons, Nat.pow_succ']
      omega

/-- The bytes of a number that was read from them. -/
theorem toLE_ofLE (bs : List UInt8) : toLE bs.length (ofLE bs) = bs := by
  induction bs with
  | nil => rfl
  | cons b bs ih =>
      have low := b.toNat_lt
      have head : UInt8.ofNat (b.toNat + 256 * ofLE bs) = b := by
        apply UInt8.toNat_inj.mp
        rw [UInt8.toNat_ofNat']
        omega
      have tail : (b.toNat + 256 * ofLE bs) / 256 = ofLE bs := by omega
      rw [List.length_cons, toLE, ofLE, head, tail, ih]

/-- A word is read back from the eight bytes it is stored in. -/
theorem ofNat_ofLE_toLE (w : UInt64) : UInt64.ofNat (ofLE (toLE 8 w.toNat)) = w := by
  have lt := w.toNat_lt
  rw [ofLE_toLE, Nat.mod_eq_of_lt (by omega), UInt64.ofNat_toNat]

/-- Eight bytes are those of the word read from them. -/
theorem toLE_ofNat_ofLE {bytes : List UInt8} (eight : bytes.length = 8) :
    toLE 8 (UInt64.ofNat (ofLE bytes)).toNat = bytes := by
  have lt := ofLE_lt bytes
  rw [eight] at lt
  rw [UInt64.toNat_ofNat', Nat.mod_eq_of_lt (by omega), ← eight, toLE_ofLE]

/-- A string followed by a number of fixed width is read in one way only. -/
theorem append_toLE_inj {as bs : List UInt8} {w m n : Nat} (mLt : m < 256 ^ w)
    (nLt : n < 256 ^ w) (eq : as ++ toLE w m = bs ++ toLE w n) : as = bs ∧ m = n := by
  obtain ⟨front, number⟩ := List.append_inj' eq (by rw [length_toLE, length_toLE])
  have read := congrArg ofLE number
  rw [ofLE_toLE, ofLE_toLE, Nat.mod_eq_of_lt mLt, Nat.mod_eq_of_lt nLt] at read
  exact ⟨front, read⟩

/-! ## Checked reads -/

/-- The `n` bytes at position `pos` of a buffer, if they all lie in it. -/
def readAt (buffer : List UInt8) (pos n : Nat) : Option (List UInt8) :=
  if pos + n ≤ buffer.length then some ((buffer.drop pos).take n) else none

theorem readAt_of_le {buffer : List UInt8} {pos n : Nat} (inside : pos + n ≤ buffer.length) :
    readAt buffer pos n = some ((buffer.drop pos).take n) :=
  if_pos inside

/-! ## A byte-wise stream cipher -/

/-- Combine a byte string with the keystream from position `p` on. -/
def xorStream (ks : Nat → UInt8) : Nat → List UInt8 → List UInt8
  | _, [] => []
  | p, b :: bs => (b ^^^ ks p) :: xorStream ks (p + 1) bs

@[simp] theorem length_xorStream (ks : Nat → UInt8) (p : Nat) (bs : List UInt8) :
    (xorStream ks p bs).length = bs.length := by
  induction bs generalizing p with
  | nil => rfl
  | cons b bs ih => simp only [xorStream, List.length_cons, ih]

/-- Two consecutive parts are transformed as one. -/
theorem xorStream_append (ks : Nat → UInt8) (p : Nat) (as bs : List UInt8) :
    xorStream ks p (as ++ bs) = xorStream ks p as ++ xorStream ks (p + as.length) bs := by
  induction as generalizing p with
  | nil => rfl
  | cons a as ih =>
      simp only [List.cons_append, xorStream, ih, List.length_cons]
      rw [Nat.add_right_comm, Nat.add_assoc p]

theorem take_xorStream (ks : Nat → UInt8) (p n : Nat) (bs : List UInt8) :
    (xorStream ks p bs).take n = xorStream ks p (bs.take n) := by
  induction bs generalizing p n with
  | nil => rw [List.take_nil, xorStream, List.take_nil]
  | cons b bs ih =>
      cases n with
      | zero => rfl
      | succ n => simp only [xorStream, List.take_succ_cons, ih]

/-- Dropping a part of the output is skipping it in the input and the keystream. -/
theorem drop_xorStream (ks : Nat → UInt8) (p n : Nat) (bs : List UInt8) :
    (xorStream ks p bs).drop n = xorStream ks (p + n) (bs.drop n) := by
  induction bs generalizing p n with
  | nil => rw [List.drop_nil, xorStream, List.drop_nil, xorStream]
  | cons b bs ih =>
      cases n with
      | zero => rfl
      | succ n =>
          simp only [xorStream, List.drop_succ_cons, ih]
          rw [Nat.add_right_comm, Nat.add_assoc p]

/-- The cipher is its own inverse. -/
@[simp] theorem xorStream_xorStream (ks : Nat → UInt8) (p : Nat) (bs : List UInt8) :
    xorStream ks p (xorStream ks p bs) = bs := by
  induction bs generalizing p with
  | nil => rfl
  | cons b bs ih => simp only [xorStream, ih, UInt8.xor_assoc, UInt8.xor_self, UInt8.xor_zero]

end ByteStream
