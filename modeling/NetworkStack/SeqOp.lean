import NetworkStack.Lib.PackedWord

/-!
# The packed sequence word

The 64-bit `seq_op` word of a message header carries a 54-bit sequence number,
an 8-bit client ID and a 2-bit operation. The definitions are the macros of
`client_server_common.h` and of `PendingRequestQueue.cpp` on `UInt64`; the
lemmas read them as arithmetic on the three fields `seqOf`, `idOf` and `opOf`,
so that no proof above this module looks at a bit mask.
-/

namespace NetworkStack

/-! ## The macros of the source -/

/-- `SEQ_MASK` -/
def seqMask : UInt64 := ~~~0x3ff

/-- `ID_MASK` -/
def idMask : UInt64 := 0x3fc

/-- `OP_MASK` -/
def opMask : UInt64 := 0x3

/-- `NEXT_SEQ` -/
def nextSeq (seqNumber : UInt64) : UInt64 := seqNumber + ((1 : UInt64) <<< 10)

/-- `PREV_SEQ` -/
def prevSeq (seqNumber : UInt64) : UInt64 := seqNumber - ((1 : UInt64) <<< 10)

/-- `SEQ_FROM_SEQ_OP` -/
def seqFromSeqOp (seqNumber : UInt64) : UInt64 := seqNumber >>> 10

/-- `ID_FROM_SEQ_OP` -/
def idFromSeqOp (seqNumber : UInt64) : UInt64 := (seqNumber &&& idMask) >>> 2

/-- `OP_FROM_SEQ_OP` -/
def opFromSeqOp (seqNumber : UInt64) : UInt64 := seqNumber &&& opMask

/-- `SET_OP` -/
def setOp (seqNumber : UInt64) (op : UInt8) : UInt64 :=
  (seqNumber &&& ~~~opMask) ||| op.toUInt64

/-- `SET_ID` -/
def setId (seqNumber : UInt64) (id : UInt8) : UInt64 :=
  (seqNumber &&& seqMask) ||| (id.toUInt64 <<< 2)

/-- `MAX_PENDING_REQUESTS` -/
def maxPendingRequests : Nat := 1024

/-- `MAX_ACCEPTED_RESPONSES` -/
def maxAcceptedResponses : Nat := maxPendingRequests

/-- `ACCEPTED_INDEX` -/
def acceptedIndex (seqOp : UInt64) : Fin maxAcceptedResponses :=
  ⟨(seqFromSeqOp seqOp >>> 1).toNat % maxAcceptedResponses, Nat.mod_lt _ (by decide)⟩

/-- `RDMA_GET` -/
def rdmaGet : UInt8 := 0b00

/-- `RDMA_PUT` -/
def rdmaPut : UInt8 := 0b01

/-- `RDMA_DELETE` -/
def rdmaDelete : UInt8 := 0b10

/-- `RDMA_ERR` -/
def rdmaErr : UInt8 := 0b11

/-! ## The fields -/

/-- The sequence number of a word. -/
def seqOf (w : UInt64) : Nat := w.toNat / 1024

/-- The client ID of a word. -/
def idOf (w : UInt64) : Nat := w.toNat / 4 % 256

/-- The operation of a word. -/
def opOf (w : UInt64) : Nat := w.toNat % 4

/-- Sequence numbers are counted modulo `2 ^ 54`. -/
def seqModulus : Nat := 2 ^ 54

theorem toNat_eq_fields (w : UInt64) :
    w.toNat = seqOf w * 1024 + idOf w * 4 + opOf w := by
  unfold seqOf idOf opOf
  omega

theorem seqOf_lt (w : UInt64) : seqOf w < seqModulus := by
  have lt := w.toNat_lt
  unfold seqOf seqModulus
  omega

theorem idOf_lt (w : UInt64) : idOf w < 256 := Nat.mod_lt _ (by decide)

theorem opOf_lt (w : UInt64) : opOf w < 4 := Nat.mod_lt _ (by decide)

/-- A word is determined by its three fields. -/
theorem eq_of_fields {v w : UInt64} (hseq : seqOf v = seqOf w) (hid : idOf v = idOf w)
    (hop : opOf v = opOf w) : v = w := by
  apply UInt64.toNat_inj.mp
  rw [toNat_eq_fields v, toNat_eq_fields w, hseq, hid, hop]

/-- The fields of a number in field form. -/
theorem fields_of_toNat {w : UInt64} {s i o : Nat} (hw : w.toNat = s * 1024 + i * 4 + o)
    (hi : i < 256) (ho : o < 4) : seqOf w = s ∧ idOf w = i ∧ opOf w = o := by
  unfold seqOf idOf opOf
  rw [hw]
  omega

/-! ## What the macros do to the fields -/

theorem toNat_seqMask : seqMask.toNat = PackedWord.highMask 64 10 := by decide

theorem toNat_and_seqMask (w : UInt64) : (w &&& seqMask).toNat = seqOf w * 1024 := by
  rw [UInt64.toNat_and, toNat_seqMask, PackedWord.and_highMask (by decide) w.toNat_lt]
  rfl

theorem toNat_and_seqMask_or_idMask (w : UInt64) :
    (w &&& (seqMask ||| idMask)).toNat = seqOf w * 1024 + idOf w * 4 := by
  have mask : (seqMask ||| idMask).toNat = PackedWord.highMask 64 2 := by decide
  rw [UInt64.toNat_and, mask, PackedWord.and_highMask (by decide) w.toNat_lt]
  unfold seqOf idOf
  omega

@[simp] theorem toNat_seqFromSeqOp (w : UInt64) : (seqFromSeqOp w).toNat = seqOf w := by
  unfold seqFromSeqOp seqOf
  rw [UInt64.toNat_shiftRight]
  exact Nat.shiftRight_eq_div_pow _ _

@[simp] theorem toNat_idFromSeqOp (w : UInt64) : (idFromSeqOp w).toNat = idOf w := by
  have mask : idMask.toNat = PackedWord.highMask 10 2 := by decide
  unfold idFromSeqOp idOf
  rw [UInt64.toNat_shiftRight, UInt64.toNat_and, mask]
  exact PackedWord.and_highMask_shiftRight _ (by decide)

@[simp] theorem toNat_opFromSeqOp (w : UInt64) : (opFromSeqOp w).toNat = opOf w := by
  unfold opFromSeqOp opOf
  rw [UInt64.toNat_and]
  exact Nat.and_two_pow_sub_one_eq_mod _ 2

/-- The header comparison of the client: sequence number and ID agree. -/
theorem and_mask_eq_iff {v w : UInt64} :
    v &&& (seqMask ||| idMask) = w &&& (idMask ||| seqMask) ↔
      seqOf v = seqOf w ∧ idOf v = idOf w := by
  have comm : idMask ||| seqMask = seqMask ||| idMask := by decide
  rw [comm, ← UInt64.toNat_inj, toNat_and_seqMask_or_idMask, toNat_and_seqMask_or_idMask]
  have hv := idOf_lt v
  have hw := idOf_lt w
  omega

theorem opFromSeqOp_eq_iff {v w : UInt64} : opFromSeqOp v = opFromSeqOp w ↔ opOf v = opOf w := by
  rw [← UInt64.toNat_inj, toNat_opFromSeqOp, toNat_opFromSeqOp]

theorem nextSeq_fields (w : UInt64) :
    seqOf (nextSeq w) = (seqOf w + 1) % seqModulus ∧ idOf (nextSeq w) = idOf w ∧
      opOf (nextSeq w) = opOf w := by
  have one : ((1 : UInt64) <<< 10).toNat = 1024 := by decide
  have lt := w.toNat_lt
  have sum : (nextSeq w).toNat = (w.toNat + 1024) % 2 ^ 64 := by
    unfold nextSeq
    rw [UInt64.toNat_add, one]
  unfold seqOf idOf opOf seqModulus
  rw [sum]
  omega

@[simp] theorem seqOf_nextSeq (w : UInt64) : seqOf (nextSeq w) = (seqOf w + 1) % seqModulus :=
  (nextSeq_fields w).1

@[simp] theorem idOf_nextSeq (w : UInt64) : idOf (nextSeq w) = idOf w := (nextSeq_fields w).2.1

@[simp] theorem opOf_nextSeq (w : UInt64) : opOf (nextSeq w) = opOf w := (nextSeq_fields w).2.2

@[simp] theorem prevSeq_nextSeq (w : UInt64) : prevSeq (nextSeq w) = w := by
  unfold prevSeq nextSeq
  exact UInt64.add_sub_cancel w _

theorem seqOf_prevSeq (w : UInt64) :
    seqOf (prevSeq w) = (seqOf w + (seqModulus - 1)) % seqModulus := by
  have one : ((1 : UInt64) <<< 10).toNat = 1024 := by decide
  have lt := w.toNat_lt
  have diff : (prevSeq w).toNat = (2 ^ 64 - 1024 + w.toNat) % 2 ^ 64 := by
    unfold prevSeq
    rw [UInt64.toNat_sub, one]
  unfold seqOf seqModulus
  rw [diff]
  omega

theorem setOp_fields (w : UInt64) {o : UInt8} (ho : o.toNat < 4) :
    seqOf (setOp w o) = seqOf w ∧ idOf (setOp w o) = idOf w ∧ opOf (setOp w o) = o.toNat := by
  have mask : (~~~opMask).toNat = PackedWord.highMask 64 2 := by decide
  apply fields_of_toNat _ (idOf_lt w) ho
  unfold setOp
  rw [UInt64.toNat_or, UInt64.toNat_and, mask, PackedWord.and_highMask (by decide) w.toNat_lt,
    UInt8.toNat_toUInt64, PackedWord.or_low _ ho]
  unfold seqOf idOf
  omega

theorem toNat_toUInt64_shiftLeft (i : UInt8) : (i.toUInt64 <<< 2).toNat = i.toNat * 4 := by
  have hi := i.toNat_lt
  rw [UInt64.toNat_shiftLeft, UInt8.toNat_toUInt64]
  change i.toNat <<< 2 % 2 ^ 64 = i.toNat * 4
  rw [Nat.shiftLeft_eq]
  omega

/-- The low 10 bits are the ID and the operation. -/
theorem and_low_eq_iff (w : UInt64) (i : UInt8) :
    w &&& (0x3ff : UInt64) = i.toUInt64 <<< 2 ↔ idOf w = i.toNat ∧ opOf w = 0 := by
  have low : (w &&& (0x3ff : UInt64)).toNat = w.toNat % 2 ^ 10 := by
    rw [UInt64.toNat_and]
    exact Nat.and_two_pow_sub_one_eq_mod _ 10
  have hi := i.toNat_lt
  rw [← UInt64.toNat_inj, low, toNat_toUInt64_shiftLeft]
  unfold idOf opOf
  omega

theorem setId_fields (w : UInt64) (i : UInt8) :
    seqOf (setId w i) = seqOf w ∧ idOf (setId w i) = i.toNat ∧ opOf (setId w i) = 0 := by
  have hi := i.toNat_lt
  apply fields_of_toNat _ hi (by decide)
  unfold setId
  rw [UInt64.toNat_or, toNat_and_seqMask, toNat_toUInt64_shiftLeft, Nat.add_zero]
  have low : i.toNat * 4 < 2 ^ 10 := by omega
  have put := PackedWord.or_low (seqOf w) low
  rwa [show (2 : Nat) ^ 10 = 1024 from by decide] at put

@[simp] theorem seqOf_and_seqMask (w : UInt64) : seqOf (w &&& seqMask) = seqOf w := by
  unfold seqOf
  rw [toNat_and_seqMask]
  unfold seqOf
  omega

theorem val_acceptedIndex (w : UInt64) :
    (acceptedIndex w).val = seqOf w / 2 % maxAcceptedResponses := by
  unfold acceptedIndex
  dsimp only
  rw [UInt64.toNat_shiftRight, toNat_seqFromSeqOp]
  rfl

/-- The slot depends on the sequence number alone. -/
theorem acceptedIndex_congr {v w : UInt64} (h : seqOf v = seqOf w) :
    acceptedIndex v = acceptedIndex w := by
  apply Fin.ext
  rw [val_acceptedIndex, val_acceptedIndex, h]

end NetworkStack
