import Mathlib.Data.Fintype.EquivFin
import Mathlib.Data.List.GetD

/-!
# A flat byte memory

A memory is a function from addresses to bytes. `read m a n` is the window of
`n` bytes at `a` and `write m a src` the memory after a byte string was stored
there. The rules say what a window shows after a write: the string itself, the
string in front of what is left, or the old bytes where the two do not meet.
Windows of one size that fill a range (`Packed`) are its slots in some order.
-/

namespace FlatMemory

abbrev Memory := Nat → UInt8

/-- The `n` bytes at `a`. -/
def read (m : Memory) (a n : Nat) : List UInt8 :=
  (List.range n).map fun i => m (a + i)

/-- The memory after a byte string was stored at `a`. -/
def write (m : Memory) (a : Nat) (src : List UInt8) : Memory :=
  fun x => if a ≤ x ∧ x < a + src.length then src.getD (x - a) 0 else m x

@[simp] theorem length_read (m : Memory) (a n : Nat) : (read m a n).length = n := by
  simp [read]

@[simp] theorem write_nil (m : Memory) (a : Nat) : write m a [] = m := by
  funext x
  rw [write, if_neg (by simp)]

/-- A window is read in two parts. -/
theorem read_add (m : Memory) (a k n : Nat) :
    read m a (k + n) = read m a k ++ read m (a + k) n := by
  simp only [read, List.range_add, List.map_append, List.map_map]
  congr 1
  apply List.map_congr_left
  intro i _
  simp only [Function.comp_apply, Nat.add_assoc]

theorem take_read (m : Memory) (a : Nat) {n k : Nat} (le : k ≤ n) :
    (read m a n).take k = read m a k := by
  obtain ⟨rest, rfl⟩ := Nat.exists_eq_add_of_le le
  rw [read_add, List.take_left' (length_read ..)]

theorem drop_read (m : Memory) (a : Nat) {n k : Nat} (le : k ≤ n) :
    (read m a n).drop k = read m (a + k) (n - k) := by
  rcases Nat.exists_eq_add_of_le le with ⟨rest, rfl⟩
  rw [read_add, List.drop_left' (length_read ..), Nat.add_sub_cancel_left]

/-- Two memories that agree on a window show the same bytes in it. -/
theorem read_congr {m m' : Memory} {a n : Nat} (agree : ∀ i, i < n → m (a + i) = m' (a + i)) :
    read m a n = read m' a n := by
  apply List.map_congr_left
  intro i member
  exact agree i (List.mem_range.mp member)

/-- Reading from a pointer is reading at the address it holds. -/
theorem read_shift (m : Memory) (b n : Nat) : read (fun x => m (b + x)) 0 n = read m b n := by
  apply List.map_congr_left
  intro i _
  rw [Nat.zero_add]

/-- What was stored is read back. -/
@[simp] theorem read_write_self (m : Memory) (a : Nat) (src : List UInt8) :
    read (write m a src) a src.length = src := by
  apply List.ext_getElem
  · exact length_read ..
  · intro i _ lt
    simp only [read, write, List.getElem_map, List.getElem_range]
    rw [if_pos (by omega), Nat.add_sub_cancel_left, List.getD_eq_getElem _ _ lt]

/-- The first bytes of what was stored. -/
theorem read_write_take (m : Memory) (a : Nat) {src : List UInt8} {n : Nat}
    (le : n ≤ src.length) : read (write m a src) a n = src.take n := by
  rw [← take_read _ _ le, read_write_self]

/-- A window that a write does not meet keeps its bytes. -/
theorem read_write_disjoint (m : Memory) (a : Nat) (src : List UInt8) {b n : Nat}
    (disjoint : b + n ≤ a ∨ a + src.length ≤ b) : read (write m a src) b n = read m b n := by
  apply read_congr
  intro i lt
  rw [write, if_neg (by omega)]

/-- Two strings stored one after the other are stored as one. -/
theorem write_append (m : Memory) (a : Nat) (left right : List UInt8) :
    write m a (left ++ right) = write (write m a left) (a + left.length) right := by
  funext x
  simp only [write, List.length_append]
  by_cases second : a + left.length ≤ x ∧ x < a + left.length + right.length
  · rw [if_pos (by omega), if_pos second, List.getD_append_right _ _ _ _ (by omega), Nat.sub_sub]
  · rw [if_neg second]
    by_cases first : a ≤ x ∧ x < a + left.length
    · rw [if_pos (by omega), if_pos first, List.getD_append _ _ _ _ (by omega)]
    · rw [if_neg (by omega), if_neg first]

/-! ## Packed windows -/

/-- `num` windows of `size` bytes that do not meet, inside `num * size` bytes. -/
structure Packed (size num : Nat) (offset : Nat → Nat) : Prop where
  apart : ∀ i, i < num → ∀ j, j < num → i ≠ j →
    offset i + size ≤ offset j ∨ offset j + size ≤ offset i
  inside : ∀ i, i < num → offset i + size ≤ num * size

section Packed

variable {size num : Nat} {offset : Nat → Nat}

theorem Packed.div_lt (packed : Packed size num offset) (pos : 0 < size) {i : Nat}
    (lt : i < num) : offset i / size < num := by
  have inside := packed.inside i lt
  rw [Nat.div_lt_iff_lt_mul pos]
  omega

/-- Two windows do not start in the same slot of `size` bytes. -/
theorem Packed.div_inj (packed : Packed size num offset) (pos : 0 < size) {i j : Nat}
    (lt : i < num) (lt' : j < num) (eq : offset i / size = offset j / size) : i = j := by
  by_contra ne
  have left := Nat.div_add_mod (offset i) size
  have right := Nat.div_add_mod (offset j) size
  have short := Nat.mod_lt (offset i) pos
  have short' := Nat.mod_lt (offset j) pos
  have apart := packed.apart i lt j lt' ne
  rw [eq] at left
  omega

/-- So each slot has a window that starts in it. -/
theorem Packed.exists_div (packed : Packed size num offset) (pos : 0 < size) {k : Nat}
    (lt : k < num) : ∃ i, i < num ∧ offset i / size = k := by
  let slot : Fin num → Fin num := fun i => ⟨offset i / size, packed.div_lt pos i.isLt⟩
  have injective : Function.Injective slot := by
    intro i j eq
    exact Fin.ext (packed.div_inj pos i.isLt j.isLt (Fin.mk.inj eq))
  obtain ⟨i, eq⟩ := Finite.surjective_of_injective injective ⟨k, lt⟩
  exact ⟨i, i.isLt, Fin.mk.inj eq⟩

/-- There is no room to spare: the window that starts in a slot fills it. -/
theorem Packed.offset_eq (packed : Packed size num offset) (pos : 0 < size) {i : Nat}
    (lt : i < num) : offset i = offset i / size * size := by
  -- from the last slot down: a window ends where the one in the next slot starts
  induction rest : num - offset i / size generalizing i with
  | zero =>
      have below := packed.div_lt pos lt
      omega
  | succ rest ih =>
      have start : offset i / size * size ≤ offset i := Nat.div_mul_le_self ..
      by_cases last : offset i / size + 1 = num
      · have inside := packed.inside i lt
        rw [← last, Nat.succ_mul] at inside
        omega
      · obtain ⟨j, lt', next⟩ := packed.exists_div pos
          (show offset i / size + 1 < num by have := packed.div_lt pos lt; omega)
        have exact_ := ih lt' (by omega)
        rw [next, Nat.succ_mul] at exact_
        have end_ : offset i < offset i / size * size + size := Nat.lt_div_mul_add pos
        have apart := packed.apart i lt j lt' (by rintro rfl; omega)
        omega

/-- Every window is a slot. -/
theorem Packed.exists_slot (packed : Packed size num offset) (pos : 0 < size) {i : Nat}
    (lt : i < num) : ∃ k, k < num ∧ offset i = k * size :=
  ⟨offset i / size, packed.div_lt pos lt, packed.offset_eq pos lt⟩

/-- Every slot is a window. -/
theorem Packed.exists_window (packed : Packed size num offset) (pos : 0 < size) {k : Nat}
    (lt : k < num) : ∃ i, i < num ∧ offset i = k * size := by
  obtain ⟨i, lt', rfl⟩ := packed.exists_div pos lt
  exact ⟨i, lt', packed.offset_eq pos lt'⟩

end Packed
end FlatMemory
