import NetworkStack.OneSided.Store

/-!
# What a client read returns

The completions of a connection come in the order the transfers were posted. A
call that gives up after posting leaves its completion behind, and the next call
fetches it in place of its own. `rdma_read_from_server` goes on when `rpma_read`
fails, takes the first completion for its own, and returns the buffer after a
failed read unless the connection is closed or lost: `reads_own_block_iff` says
exactly when a buffer it returns was filled by this call.
-/

namespace NetworkStack.OneSided

open FlatMemory

/-- An endpoint with the number of completions of earlier transfers that were not fetched. -/
structure Connection : Type where
  endpoint : Endpoint
  left : Nat

namespace Connection

/-- The completion the call fetches is that of its own transfer, which was posted. -/
def own (c : Connection) (t : TransferEnv) : Bool := t.post && c.left = 0

/-- A posted transfer takes effect when its own success is reported, and maybe without. -/
def takesEffect (c : Connection) (t : TransferEnv) (op : RpmaOp) : Bool :=
  c.own t && t.completes op || t.post && t.landed

/-- The completions left after a call: one more for a posted transfer, one less for a
completion that was fetched. -/
def leftAfter (c : Connection) (t : TransferEnv) : Nat :=
  c.left + (if t.post then 1 else 0) - (if t.wait && t.completionGet then 1 else 0)

/-- `rdma_read_from_server` -/
def rdmaReadFromServer (t : TransferEnv) (c : Connection) (srcOffset : UInt64) :
    Connection × Option Bytes :=
  let s := c.endpoint
  let s := if c.takesEffect t .read then
      { s with localBuf :=
          write s.localBuf 0 (read s.store srcOffset.toNat s.ep.blockSize.toNat) }
    else s
  let c : Connection := ⟨s, c.leftAfter t⟩
  let localBuf := read s.localBuf 0 s.ep.blockSize.toNat
  if !t.wait then (c, none)
  else if !t.completionGet then (c, none)
  else if t.op ≠ .read then (c, none)
  else if t.opStatus ≠ ibvWcSuccess then
    match t.nextEvent with
    | none => (c, none)
    | some event =>
        if event = .closed ∨ event = .lost then (c, none) else (c, some localBuf)
  else (c, some localBuf)

/-- `rdma_write_to_server` -/
def rdmaWriteToServer (t : TransferEnv) (c : Connection) (offset : UInt64) : Connection × Int :=
  let s := c.endpoint
  let s := if c.takesEffect t .write then
      { s with store := write s.store offset.toNat (read s.localBuf 0 s.ep.blockSize.toNat) }
    else s
  if !t.post then (⟨s, c.left⟩, -1)
  else
    let c : Connection := ⟨s, c.leftAfter t⟩
    if !t.wait then (c, -1)
    else if !t.completionGet then (c, -1)
    else if t.op ≠ .write then (c, -1)
    else if t.opStatus ≠ ibvWcSuccess then (c, -1)
    else (c, 0)

/-- `rdma_get` -/
def rdmaGet (gcm : AesGcm) (t : TransferEnv) (e : DecryptEnv) (c : Connection)
    (info : LocalKeyInfo) (value : Ptr) (mem : Mem) : GetOut Connection :=
  onesidedGet gcm c.endpoint.ep (rdmaReadFromServer t) e c info value mem

/-- Where no completion is left, this is the read of the endpoint. -/
theorem rdmaReadFromServer_of_left_zero {c : Connection} (none_ : c.left = 0) (t : TransferEnv)
    (srcOffset : UInt64) :
    (c.rdmaReadFromServer t srcOffset).1.endpoint =
        (c.endpoint.rdmaReadFromServer t srcOffset).1 ∧
      (c.rdmaReadFromServer t srcOffset).2 = (c.endpoint.rdmaReadFromServer t srcOffset).2 := by
  have effect : c.takesEffect t .read = t.takesEffect .read := by
    unfold takesEffect own TransferEnv.takesEffect
    rw [none_]
    cases t.post <;> simp
  unfold rdmaReadFromServer Endpoint.rdmaReadFromServer
  rw [effect]
  dsimp only
  split
  · exact ⟨rfl, rfl⟩
  · split
    · exact ⟨rfl, rfl⟩
    · split
      · exact ⟨rfl, rfl⟩
      · split
        · cases t.nextEvent with
          | none => exact ⟨rfl, rfl⟩
          | some event =>
              dsimp only
              split
              · exact ⟨rfl, rfl⟩
              · exact ⟨rfl, rfl⟩
        · exact ⟨rfl, rfl⟩

/-! ## When the buffer is the block -/

/-- A read of this call completed with `IBV_WC_SUCCESS`. -/
def Completed (c : Connection) (t : TransferEnv) : Prop :=
  c.own t = true ∧ t.completes .read = true

/-- The block at an offset of the server's region. -/
def block (c : Connection) (offset : UInt64) : Bytes :=
  read c.endpoint.store offset.toNat c.endpoint.ep.blockSize.toNat

/-- A read that returns a buffer completed and the buffer holds the block; and a get in plain
mode that returns a value returns the bytes of its block. -/
structure ReadsOwnBlock (gcm : AesGcm) (c : Connection) (t : TransferEnv) (offset : UInt64) :
    Prop where
  read : ∀ bytes, (c.rdmaReadFromServer t offset).2 = some bytes →
    c.Completed t ∧ bytes = c.block offset
  get : c.endpoint.ep.encKey = none → ∀ e info buffer mem, info.valueOffset = offset →
    (c.rdmaGet gcm t e info (callerPtr buffer) mem).value ≠ .null →
    (c.rdmaGet gcm t e info (callerPtr buffer) mem).mem.read
      (c.rdmaGet gcm t e info (callerPtr buffer) mem).value c.endpoint.ep.blockSize.toNat =
        c.block offset

/-- Where a completion of a read is fetched: if it reports success, the read of this call was
posted and no completion of an earlier transfer was left; if it reports a failure, the
connection is closed or lost, or its next event is not to be had. -/
def Undisturbed (c : Connection) (t : TransferEnv) : Prop :=
  t.wait = true → t.completionGet = true → t.op = .read →
    if t.opStatus = ibvWcSuccess then t.post = true ∧ c.left = 0
    else t.nextEvent = none ∨ t.nextEvent = some .closed ∨ t.nextEvent = some .lost

/-- The completion makes the call return its buffer. -/
def Returns (t : TransferEnv) : Prop :=
  t.wait = true ∧ t.completionGet = true ∧ t.op = .read ∧
    (t.opStatus = ibvWcSuccess ∨
      ∃ event, t.nextEvent = some event ∧ event ≠ .closed ∧ event ≠ .lost)

/-- What `local_buf` holds when the call is over. -/
def bufferAfter (c : Connection) (t : TransferEnv) (offset : UInt64) : Bytes :=
  if c.takesEffect t .read then c.block offset
  else FlatMemory.read c.endpoint.localBuf 0 c.endpoint.ep.blockSize.toNat

theorem rdmaReadFromServer_eq_some_iff (c : Connection) (t : TransferEnv) (offset : UInt64)
    (bytes : Bytes) :
    (c.rdmaReadFromServer t offset).2 = some bytes ↔
      Returns t ∧ c.bufferAfter t offset = bytes := by
  have size : (c.block offset).length = c.endpoint.ep.blockSize.toNat := length_read ..
  have filled := read_write_self c.endpoint.localBuf 0 (c.block offset)
  rw [size] at filled
  have buffer : FlatMemory.read (if c.takesEffect t .read = true then
      { c.endpoint with localBuf := write c.endpoint.localBuf 0 (c.block offset) }
      else c.endpoint).localBuf 0 (if c.takesEffect t .read = true then
      { c.endpoint with localBuf := write c.endpoint.localBuf 0 (c.block offset) }
      else c.endpoint).ep.blockSize.toNat = c.bufferAfter t offset := by
    unfold bufferAfter
    split
    · exact filled
    · rfl
  unfold rdmaReadFromServer Returns
  dsimp only
  unfold block at buffer
  rw [buffer]
  cases t.wait with
  | false => simp
  | true =>
      cases t.completionGet with
      | false => simp
      | true =>
          by_cases op : t.op = .read
          · by_cases status : t.opStatus = ibvWcSuccess
            · simp [op, status]
            · cases t.nextEvent with
              | none => simp [op, status]
              | some event => cases event <;> simp [op, status]
          · simp [op]

/-- A call returns a buffer that it did not fill exactly when it is disturbed. -/
theorem undisturbed_iff (c : Connection) (t : TransferEnv) :
    c.Undisturbed t ↔ (Returns t → c.Completed t) := by
  unfold Undisturbed Returns Completed own TransferEnv.completes
  constructor
  · intro undisturbed returns
    rcases returns with ⟨wait, get, op, rest⟩
    have here := undisturbed wait get op
    by_cases status : t.opStatus = ibvWcSuccess
    · rw [if_pos status] at here
      simp [wait, get, op, status, here]
    · rw [if_neg status] at here
      rcases rest with success | ⟨event, next, notClosed, notLost⟩
      · exact (status success).elim
      · rw [next] at here
        simp [notClosed, notLost] at here
  · intro completed wait get op
    by_cases status : t.opStatus = ibvWcSuccess
    · rw [if_pos status]
      have both := (completed ⟨wait, get, op, Or.inl status⟩).1
      simpa using both
    · rw [if_neg status]
      cases next : t.nextEvent with
      | none => exact Or.inl rfl
      | some event =>
          by_contra other
          have kept : event ≠ .closed ∧ event ≠ .lost := by
            constructor
            · rintro rfl
              exact other (Or.inr (Or.inl rfl))
            · rintro rfl
              exact other (Or.inr (Or.inr rfl))
          have done := (completed ⟨wait, get, op, Or.inr ⟨event, next, kept⟩⟩).2
          simp [status] at done

/-- A read that completed with success filled the buffer. -/
theorem Completed.bufferAfter_eq {c : Connection} {t : TransferEnv} (completed : c.Completed t)
    (offset : UInt64) : c.bufferAfter t offset = c.block offset := by
  unfold bufferAfter takesEffect
  rw [completed.1, completed.2, Bool.and_self, Bool.true_or, if_pos rfl]

/-- In plain mode a get returns the bytes that the read returned. -/
theorem rdmaGet_plain {gcm : AesGcm} {c : Connection} {t : TransferEnv} {e : DecryptEnv}
    {info : LocalKeyInfo} {buffer : Option Nat} {mem : Mem} (plain : c.endpoint.ep.encKey = none)
    (returned : (c.rdmaGet gcm t e info (callerPtr buffer) mem).value ≠ .null) :
    ∃ bytes, (c.rdmaReadFromServer t info.valueOffset).2 = some bytes ∧
      (c.rdmaGet gcm t e info (callerPtr buffer) mem).mem.read
        (c.rdmaGet gcm t e info (callerPtr buffer) mem).value bytes.length = bytes :=
  Endpoint.onesidedGet_plain plain returned

/-- For every connection, every result of the librpma calls and every offset: a buffer that is
returned was filled by this call with the block of the server, exactly under the condition. -/
theorem reads_own_block_iff (gcm : AesGcm) (c : Connection) (t : TransferEnv) (offset : UInt64) :
    c.ReadsOwnBlock gcm t offset ↔ c.Undisturbed t := by
  rw [undisturbed_iff]
  constructor
  · intro reads returns
    exact (reads.read _ ((rdmaReadFromServer_eq_some_iff ..).mpr ⟨returns, rfl⟩)).1
  · intro completes
    have reads : ∀ bytes, (c.rdmaReadFromServer t offset).2 = some bytes →
        c.Completed t ∧ bytes = c.block offset := by
      intro bytes some_
      rcases (rdmaReadFromServer_eq_some_iff ..).mp some_ with ⟨returns, rfl⟩
      exact ⟨completes returns, (completes returns).bufferAfter_eq offset⟩
    refine ⟨reads, ?_⟩
    rintro plain e info buffer mem rfl returned
    rcases rdmaGet_plain plain returned with ⟨bytes, some_, holds⟩
    rcases reads bytes some_ with ⟨-, rfl⟩
    rw [block, length_read] at holds
    exact holds

end Connection

/-! ## A completion that was left -/

namespace Sample

/-- A client in plain mode with blocks of 40 bytes. -/
def connection : Connection := ⟨⟨⟨true, 40, 40, none, 0⟩, fun _ => 0, plain⟩, 0⟩

/-- The read is posted and takes effect, and waiting for its completion fails. -/
def unfinishedRead : TransferEnv := ⟨true, false, false, .read, ibvWcSuccess, true, none⟩

/-- The read is not posted, and a completion is there. -/
def notPosted : TransferEnv := ⟨false, true, true, .read, ibvWcSuccess, false, none⟩

end Sample

/-- A read of the entry at offset 0 gives up before its completion is there. In the get of the
entry at offset 40 the posting fails, the completion of the first read is taken for its own,
and the bytes of the first entry are returned. -/
theorem get_returns_other_entry :
    let c := (Sample.connection.rdmaReadFromServer Sample.unfinishedRead 0).1
    let out := c.rdmaGet .checksum Sample.notPosted .ok (Sample.infos 1) (callerPtr (some 0)) .empty
    ¬ c.Completed Sample.notPosted ∧ out.value ≠ .null ∧
      out.mem.read out.value 40 = c.block 0 ∧ out.mem.read out.value 40 ≠ c.block 40 := by
  refine ⟨?_, by decide, by decide, by decide⟩
  intro completed
  cases completed.1

end NetworkStack.OneSided
