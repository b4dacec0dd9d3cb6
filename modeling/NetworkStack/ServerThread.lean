import NetworkStack.SeqOp

/-!
# The server thread

The sequence state of a `ServerThread`: the word it expects next (0 until the
first accepted request), the ID of its client, and whether it goes on serving.
`isSeqValid_iff` says exactly which words `is_seq_valid` accepts and
`isSeqValid_fst` what it leaves behind.
-/

namespace NetworkStack

def seqThreshold : Nat := 64

structure ServerThread : Type where
  nextSeq : UInt64
  clientId : UInt8
  stayConnected : Bool
deriving DecidableEq

/-- The constructor. -/
def ServerThread.init (erpcId : UInt8) : ServerThread := ⟨0, erpcId, true⟩

/-- The distance `is_seq_valid` computes: the wrapping difference of the two sequence
numbers, read as a signed word. -/
def seqDiff (sequenceNumber expected : UInt64) : Nat :=
  (seqFromSeqOp (sequenceNumber &&& seqMask) - seqFromSeqOp expected).toInt64.toInt.natAbs

/-- `is_seq_valid` -/
def ServerThread.isSeqValid (st : ServerThread) (sequenceNumber : UInt64) : ServerThread × Bool :=
  if (idFromSeqOp sequenceNumber).toUInt8 ≠ st.clientId then (st, false)
  else if st.nextSeq = 0 then ({ st with nextSeq := sequenceNumber &&& seqMask }, true)
  else if seqDiff sequenceNumber st.nextSeq ≤ seqThreshold * 2 then
    (if seqDiff sequenceNumber st.nextSeq > 0 then
        { st with nextSeq := sequenceNumber &&& seqMask }
      else st, true)
  else (st, false)

/-- `get_next_seq` -/
def ServerThread.getNextSeq (st : ServerThread) (sequenceNumber : UInt64) (operation : UInt8) :
    ServerThread × UInt64 :=
  let ret := NetworkStack.nextSeq sequenceNumber
  ({ st with nextSeq := NetworkStack.nextSeq (ret &&& seqMask) }, setOp ret operation)

/-- `terminate` -/
def ServerThread.terminate (st : ServerThread) : ServerThread := { st with stayConnected := false }

/-! ## The acceptance window -/

/-- Two 54-bit numbers differ by less than half the range of a signed word, so the
signed reading of their wrapping difference is their difference. -/
theorem seqDiff_eq (s expected : UInt64) :
    seqDiff s expected = ((seqOf s : Int) - (seqOf expected : Int)).natAbs := by
  have hs := seqOf_lt s
  have he := seqOf_lt expected
  unfold seqModulus at hs he
  unfold seqDiff
  congr 1
  have sub : (seqFromSeqOp (s &&& seqMask) - seqFromSeqOp expected).toNat =
      (2 ^ 64 - seqOf expected + seqOf s) % 2 ^ 64 := by
    rw [UInt64.toNat_sub, toNat_seqFromSeqOp, toNat_seqFromSeqOp, seqOf_and_seqMask]
  have signed : ∀ w : UInt64, w.toInt64.toInt = if 2 * w.toNat < 2 ^ 64 then (w.toNat : Int)
      else (w.toNat : Int) - 2 ^ 64 := by
    intro w
    exact BitVec.toInt_eq_toNat_cond w.toBitVec
  rw [signed, sub]
  split <;> omega

/-- The words a thread accepts: right ID, and no expectation yet or a sequence number
within the tolerance of the expected one. -/
def ServerThread.Accepts (st : ServerThread) (s : UInt64) : Prop :=
  idOf s = st.clientId.toNat ∧
    (st.nextSeq = 0 ∨ ((seqOf s : Int) - (seqOf st.nextSeq : Int)).natAbs ≤ seqThreshold * 2)

instance (st : ServerThread) (s : UInt64) : Decidable (st.Accepts s) :=
  inferInstanceAs (Decidable (_ ∧ _))

theorem toUInt8_idFromSeqOp_eq_iff (s : UInt64) (i : UInt8) :
    (idFromSeqOp s).toUInt8 = i ↔ idOf s = i.toNat := by
  have lt := idOf_lt s
  have cast : (idFromSeqOp s).toUInt8.toNat = idOf s := by
    rw [UInt64.toNat_toUInt8, toNat_idFromSeqOp]
    omega
  rw [← UInt8.toNat_inj, cast]

theorem ServerThread.isSeqValid_iff (st : ServerThread) (s : UInt64) :
    (st.isSeqValid s).2 = true ↔ st.Accepts s := by
  unfold ServerThread.isSeqValid ServerThread.Accepts
  rw [← seqDiff_eq]
  by_cases id : (idFromSeqOp s).toUInt8 = st.clientId
  · have id' := (toUInt8_idFromSeqOp_eq_iff s st.clientId).mp id
    simp only [id, ne_eq, not_true_eq_false, if_false, id', true_and]
    by_cases fresh : st.nextSeq = 0
    · simp [fresh]
    · by_cases near : seqDiff s st.nextSeq ≤ seqThreshold * 2
      · simp [fresh, near]
      · simp [fresh, near]
  · have id' : ¬ idOf s = st.clientId.toNat :=
      fun h => id ((toUInt8_idFromSeqOp_eq_iff s st.clientId).mpr h)
    simp [id, id']

/-- A rejected word changes nothing. -/
theorem ServerThread.isSeqValid_of_not_accepts {st : ServerThread} {s : UInt64}
    (rejected : ¬ st.Accepts s) : st.isSeqValid s = (st, false) := by
  have answer : (st.isSeqValid s).2 = false := by
    rw [← Bool.not_eq_true, ServerThread.isSeqValid_iff]
    exact rejected
  unfold ServerThread.isSeqValid at answer ⊢
  split
  · rfl
  · split
    · rename_i id fresh
      simp [id, fresh] at answer
    · split
      · rename_i id fresh near
        simp [id, fresh, near] at answer
      · rfl

/-- An accepted word only moves the expectation. -/
theorem ServerThread.isSeqValid_fst (st : ServerThread) (s : UInt64) :
    ∃ n, (st.isSeqValid s).1 = { st with nextSeq := n } := by
  unfold ServerThread.isSeqValid
  split
  · exact ⟨st.nextSeq, rfl⟩
  · split
    · exact ⟨_, rfl⟩
    · split
      · dsimp only
        split
        · exact ⟨_, rfl⟩
        · exact ⟨st.nextSeq, rfl⟩
      · exact ⟨st.nextSeq, rfl⟩

theorem seqOf_expected (s : UInt64) :
    seqOf (nextSeq (nextSeq s &&& seqMask)) = (seqOf s + 2) % seqModulus := by
  rw [seqOf_nextSeq, seqOf_and_seqMask, seqOf_nextSeq]
  unfold seqModulus
  omega

theorem expected_eq_zero_iff (s : UInt64) :
    nextSeq (nextSeq s &&& seqMask) = 0 ↔ (seqOf s + 2) % seqModulus = 0 := by
  have low : idOf (nextSeq (nextSeq s &&& seqMask)) = 0 ∧
      opOf (nextSeq (nextSeq s &&& seqMask)) = 0 := by
    rw [idOf_nextSeq, opOf_nextSeq]
    unfold idOf opOf
    rw [toNat_and_seqMask]
    omega
  rw [← seqOf_expected]
  constructor
  · intro zero
    rw [zero]
    rfl
  · intro zero
    exact eq_of_fields zero low.1 low.2

end NetworkStack
