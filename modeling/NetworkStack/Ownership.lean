import NetworkStack.PlainCodec

/-!
# Who frees the buffers of a decryption

`decrypt_message` allocates a buffer for each pointer of the payload struct that
is null, and `req_handler` frees both pointers after it, whatever it returned. So
a failing decryption has to hand back the pointers it was given: a pointer to a
block it has freed itself would be freed once more.

`AllocOut.Outcome` is what `allocate_and_decrypt` and `allocate_and_copy` have in
common; the two builds of `decrypt_message` are compared on top of it.
-/

namespace NetworkStack

open ByteStream

/-! ## Blocks -/

/-- `free`; `none` if there is no such block, or not any more. -/
def Mem.release (mem : Mem) : Ptr → Option Mem
  | .null => some mem
  | .caller _ => none
  | .block n => if (mem.blocks[n]?).join.isSome then some (mem.free (.block n)) else none

/-- The end of `req_handler`: both pointers of the payload struct are freed. -/
def endReqHandler (payload : RdmaDecPayload) (mem : Mem) : Option Mem := do
  let mem ← mem.release payload.key
  mem.release payload.value

@[simp] theorem Mem.release_null (mem : Mem) : mem.release .null = some mem := rfl

theorem Mem.release_block {mem : Mem} {n : Nat} {content : Bytes}
    (live : mem.blocks[n]? = some (some content)) :
    mem.release (.block n) = some (mem.free (.block n)) := by
  rw [Mem.release, live]
  rfl

/-- A block is freed once. -/
theorem Mem.release_free (mem : Mem) (n : Nat) :
    (mem.free (.block n)).release (.block n) = none := by
  rw [Mem.release, Mem.free, List.getElem?_set_self']
  cases mem.blocks[n]? <;> rfl

/-- A fresh block is the last one, with something in it. -/
theorem Mem.blocks_write_malloc (mem : Mem) (size : Nat) (src : Bytes) :
    ∃ content, ((mem.malloc size).2.write (mem.malloc size).1 src).blocks =
      mem.blocks ++ [some content] := by
  refine ⟨src ++ (List.replicate size 0).drop src.length, ?_⟩
  rw [Mem.malloc, Mem.write, modify_append_last]
  rfl

/-! ## Allocating for one pointer -/

/-- What is left of one pointer of the payload struct, and of the blocks. -/
inductive AllocOut.Outcome (payload : Ptr) (mem : Mem) (out : AllocOut) : Prop
  | failed (ret : out.ret = -1) (ptr : out.ptr = payload) (toFree : out.toFree = false)
  | kept (ret : out.ret = 0) (ptr : out.ptr = payload) (toFree : out.toFree = false)
      (unwritten : payload = .null → out.mem = mem)
  | fresh (ret : out.ret = 0) (null : payload = .null) (ptr : out.ptr = .block mem.blocks.length)
      (toFree : out.toFree = true)
      (blocks : ∃ content, out.mem.blocks = mem.blocks ++ [some content])

theorem allocateAndDecrypt_outcome (malloc : Bool) (update : Nat → Bool) (ks : Nat → UInt8)
    (pos : Nat) (payload : Ptr) (mem : Mem) (ciphertext : Bytes) :
    (allocateAndDecrypt malloc update ks pos payload mem ciphertext).Outcome payload mem := by
  unfold allocateAndDecrypt
  split
  · exact .failed rfl rfl rfl
  by_cases null : payload = .null
  · simp only [null, decide_true, if_true]
    split
    -- the block is freed and the pointer is null again
    · exact .failed rfl rfl rfl
    · exact .fresh rfl rfl rfl rfl (mem.blocks_write_malloc _ _)
  · simp only [null, decide_false, Bool.false_eq_true, if_false]
    split
    · exact .failed rfl rfl rfl
    · exact .kept rfl rfl rfl fun eq => (null eq).elim

/-- Without bytes for it, a pointer is left alone. -/
theorem AllocOut.Outcome.absent (payload : Ptr) (mem : Mem) :
    AllocOut.Outcome payload mem ⟨0, payload, mem, false⟩ :=
  .kept rfl rfl rfl fun _ => rfl

theorem decryptKey_outcome (gcm : AesGcm) (encKey : Bytes) (e : DecEnv) (header : RdmaMsgHeader)
    (payload : RdmaDecPayload) (mem : Mem) (ciphertext : Bytes) :
    (decryptKey gcm encKey e header payload mem ciphertext).Outcome payload.key mem := by
  unfold decryptKey
  split
  · exact allocateAndDecrypt_outcome _ _ _ _ _ _ _
  · exact .absent _ _

theorem decryptValue_outcome (gcm : AesGcm) (encKey : Bytes) (e : DecEnv) (header : RdmaMsgHeader)
    (payload : RdmaDecPayload) (mem : Mem) (ciphertext : Bytes) :
    (decryptValue gcm encKey e header payload mem ciphertext).Outcome payload.value mem := by
  unfold decryptValue
  split
  · exact allocateAndDecrypt_outcome _ _ _ _ _ _ _
  · exact .absent _ _

/-- `allocate_and_copy` fails only for want of memory, and then it leaves all as it was. -/
theorem Plain.allocateAndCopy_outcome (malloc : Bool) (payload : Ptr) (mem : Mem)
    {ciphertext : Bytes} {pos len : Nat} (inside : pos + len ≤ ciphertext.length) :
    ∃ out, Plain.allocateAndCopy malloc payload mem ciphertext pos len = some out ∧
      out.Outcome payload mem ∧ (out.toFree = true ↔ payload = .null ∧ malloc = true) ∧
      (out.ret = -1 ↔ payload = .null ∧ malloc = false) ∧ (out.ret = -1 → out.mem = mem) := by
  unfold Plain.allocateAndCopy
  rw [readAt_of_le inside]
  by_cases null : payload = .null
  · cases malloc with
    | false =>
        rw [if_pos ⟨null, rfl⟩]
        exact ⟨_, rfl, .failed rfl rfl rfl, by simp, by simp [null], fun _ => rfl⟩
    | true =>
        rw [if_neg (by simp)]
        simp only [Option.bind_eq_bind, Option.bind_some, if_pos null]
        exact ⟨_, rfl, .fresh rfl null rfl rfl (mem.blocks_write_malloc _ _), by simp [null],
          by simp, fun failed => by cases failed⟩
  · rw [if_neg fun noMemory => null noMemory.1]
    simp only [Option.bind_eq_bind, Option.bind_some, if_neg null]
    exact ⟨_, rfl, .kept rfl rfl rfl fun eq => (null eq).elim, by simp [null], by simp [null],
      fun failed => by cases failed⟩

/-! ## `decrypt_message` -/

/-- `decrypt_message` of either build; `none` is a read outside of the received bytes. -/
def Build.decryptMessage (build : Build) (gcm : AesGcm) (encKey : Bytes) (e : DecEnv)
    (header : RdmaMsgHeader) (payload : RdmaDecPayload) (mem : Mem) (ciphertext : Bytes) :
    Option DecResult :=
  match build with
  | .encrypting => some (NetworkStack.decryptMessage gcm encKey e header payload mem ciphertext)
  | .plain => Plain.decryptMessage e.keyMalloc e.valueMalloc header payload mem ciphertext

/-- A decryption gives the buffers back: on error both pointers are what they were, and after an
empty payload struct both can be freed. -/
structure DecResult.GivesBack (r : DecResult) (payload : RdmaDecPayload) : Prop where
  key : r.ret = -1 → r.payload.key = payload.key
  value : r.ret = -1 → r.payload.value = payload.value
  freed : payload.key = .null → payload.value = .null → (endReqHandler r.payload r.mem).isSome

theorem endReqHandler_null {payload : RdmaDecPayload} (key : payload.key = .null)
    (value : payload.value = .null) (mem : Mem) : endReqHandler payload mem = some mem := by
  rw [endReqHandler, key, value]
  rfl

/-- Nothing of what an early exit hands back was freed. -/
theorem DecResult.GivesBack.of_eq {r : DecResult} {payload : RdmaDecPayload}
    (key : r.payload.key = payload.key) (value : r.payload.value = payload.value) :
    r.GivesBack payload := by
  refine ⟨fun _ => key, fun _ => value, ?_⟩
  intro nullKey nullValue
  rw [endReqHandler_null (key.trans nullKey) (value.trans nullValue)]
  rfl

theorem DecResult.GivesBack.of_ret {r : DecResult} {payload : RdmaDecPayload} (ret : r.ret = 0)
    (freed : payload.key = .null → payload.value = .null →
      (endReqHandler r.payload r.mem).isSome) : r.GivesBack payload := by
  refine ⟨?_, ?_, freed⟩ <;>
  · intro failed
    rw [ret] at failed
    cases failed

section Outcomes

variable {payload : RdmaDecPayload} {mem : Mem} {key value : AllocOut}

/-- Blocks allocated for the key and then for the value are two blocks. -/
theorem endReqHandler_of_outcome (keyOutcome : key.Outcome payload.key mem)
    (valueOutcome : value.Outcome payload.value key.mem) (keyRet : key.ret = 0)
    (valueRet : value.ret = 0) (nullKey : payload.key = .null) (nullValue : payload.value = .null)
    (valueLen : Nat) : (endReqHandler ⟨key.ptr, value.ptr, valueLen⟩ value.mem).isSome := by
  have valueFreed : ∀ mem' : Mem, (∀ n, key.mem.blocks.length ≤ n →
      mem'.blocks[n]? = value.mem.blocks[n]?) → (mem'.release value.ptr).isSome := by
    intro mem' same
    cases valueOutcome with
    | failed ret => omega
    | kept _ ptr =>
        rw [ptr, nullValue]
        rfl
    | fresh _ _ ptr _ blocks =>
        rcases blocks with ⟨content, blocks⟩
        have live : mem'.blocks[key.mem.blocks.length]? = some (some content) := by
          rw [same _ le_rfl, blocks, List.getElem?_concat_length]
        rw [ptr, Mem.release_block live]
        rfl
  unfold endReqHandler
  cases keyOutcome with
  | failed ret => omega
  | kept _ ptr =>
      rw [ptr, nullKey, Mem.release_null]
      exact valueFreed _ fun _ _ => rfl
  | fresh _ _ ptr _ blocks =>
      rcases blocks with ⟨content, blocks⟩
      have before : mem.blocks.length < key.mem.blocks.length := by
        rw [blocks, List.length_append]
        exact Nat.lt_succ_self _
      have live : value.mem.blocks[mem.blocks.length]? = some (some content) := by
        have there : key.mem.blocks[mem.blocks.length]? = some (some content) := by
          rw [blocks, List.getElem?_concat_length]
        cases valueOutcome with
        | failed ret => omega
        | kept _ _ _ unwritten => rw [unwritten nullValue, there]
        | fresh _ _ _ _ more =>
            rcases more with ⟨content', more⟩
            rw [more, List.getElem?_append_left before, there]
      rw [ptr, Mem.release_block live]
      refine valueFreed _ fun n later => ?_
      rw [Mem.free, List.getElem?_set_ne (by omega)]

/-- A pointer is handed back as it came, or was null and is to be freed. -/
theorem AllocOut.Outcome.restored {entry : Ptr} (outcome : key.Outcome entry mem) :
    (if key.toFree then .null else key.ptr) = entry := by
  cases outcome with
  | failed _ ptr toFree => rw [toFree, ptr, if_neg Bool.false_ne_true]
  | kept _ ptr toFree => rw [toFree, ptr, if_neg Bool.false_ne_true]
  | fresh _ null _ toFree => rw [toFree, null, if_pos rfl]

theorem AllocOut.Outcome.ptr_eq {entry : Ptr} (outcome : key.Outcome entry mem)
    (failed : key.ret = -1) : key.ptr = entry := by
  cases outcome with
  | failed _ ptr => exact ptr
  | kept ret => omega
  | fresh ret => omega

theorem AllocOut.Outcome.ret_eq {entry : Ptr} (outcome : key.Outcome entry mem) :
    key.ret = -1 ∨ key.ret = 0 := by
  cases outcome with
  | failed ret => exact Or.inl ret
  | kept ret => exact Or.inr ret
  | fresh ret => exact Or.inr ret

end Outcomes

/-- The encrypting build always gives the buffers back: `end_decrypt` resets each pointer it
frees. -/
theorem decryptMessage_givesBack (gcm : AesGcm) (encKey : Bytes) (e : DecEnv)
    (header : RdmaMsgHeader) (payload : RdmaDecPayload) (mem : Mem) (ciphertext : Bytes) :
    (decryptMessage gcm encKey e header payload mem ciphertext).GivesBack payload := by
  unfold decryptMessage
  iterate 6
    split
    · exact .of_eq rfl rfl
  dsimp only
  split
  · exact .of_eq rfl rfl
  unfold decryptBody
  have keyOutcome := decryptKey_outcome gcm encKey e (rawHeader gcm encKey ciphertext) payload mem
    ciphertext
  have valueOutcome := decryptValue_outcome gcm encKey e (rawHeader gcm encKey ciphertext) payload
    (decryptKey gcm encKey e (rawHeader gcm encKey ciphertext) payload mem ciphertext).mem
    ciphertext
  dsimp only
  split
  · exact .of_eq keyOutcome.restored rfl
  rename_i keyDone
  split
  · exact .of_eq keyOutcome.restored valueOutcome.restored
  rename_i valueDone
  split
  · exact .of_eq keyOutcome.restored valueOutcome.restored
  have keyRet := keyOutcome.ret_eq
  have valueRet := valueOutcome.ret_eq
  refine .of_ret rfl fun nullKey nullValue => ?_
  exact endReqHandler_of_outcome keyOutcome valueOutcome (by omega) (by omega) nullKey nullValue _

/-! ## The build without encryption -/

/-- A decryption hands back a key that it has freed, and `req_handler` frees it again. -/
structure DecResult.FreesTwice (r : DecResult) (payload : RdmaDecPayload) : Prop where
  ret : r.ret = -1
  key : r.payload.key ≠ payload.key
  freed : endReqHandler r.payload r.mem = none

theorem DecResult.FreesTwice.not_givesBack {r : DecResult} {payload : RdmaDecPayload}
    (twice : r.FreesTwice payload) : ¬ r.GivesBack payload :=
  fun back => twice.key (back.key twice.ret)

/-- The length of the key that a message without encryption names. -/
def Plain.keyLen (ciphertext : Bytes) : Nat :=
  (RdmaMsgHeader.ofBytes (ciphertext.take headerLen)).keyLen.toNat

/-- The build without encryption receives a message with a key and a value, both pointers are
null, and there is memory for the key but not for the value. -/
structure LosesKey (build : Build) (e : DecEnv) (payload : RdmaDecPayload) (ciphertext : Bytes) :
    Prop where
  plain : build = .plain
  key : 0 < Plain.keyLen ciphertext
  value : Plain.keyLen ciphertext < ciphertext.length - headerLen
  nullKey : payload.key = .null
  keyMalloc : e.keyMalloc = true
  nullValue : payload.value = .null
  valueMalloc : e.valueMalloc = false

namespace Plain

section Value

variable {payload : RdmaDecPayload} {mem : Mem} {key : AllocOut}

/-- What is freed when there is no memory for the value. -/
theorem freesTwice_of_outcome (outcome : key.Outcome payload.key mem) (toFree : key.toFree = true)
    (header : RdmaMsgHeader) :
    DecResult.FreesTwice ⟨-1, header, { payload with key := key.ptr }, key.mem.free key.ptr⟩
      payload := by
  cases outcome with
  | failed _ _ kept => simp [kept] at toFree
  | kept _ _ kept => simp [kept] at toFree
  | fresh _ null ptr =>
      refine ⟨rfl, ?_, ?_⟩
      · rw [ptr, null]
        exact Ptr.noConfusion
      · rw [endReqHandler, ptr, Mem.release_free]
        rfl

/-- After the key, an allocated key is lost for want of memory for the value. -/
theorem decryptValue_givesBack (valueMalloc : Bool) (header : RdmaMsgHeader)
    (outcome : key.Outcome payload.key mem) (ret : key.ret = 0) {ciphertext : Bytes}
    {pos left : Nat} (inside : pos + left ≤ ciphertext.length) :
    ∃ r, decryptValue valueMalloc header { payload with key := key.ptr } key.mem ciphertext pos
        left key.toFree = some r ∧
      if 0 < left ∧ key.toFree = true ∧ payload.value = .null ∧ valueMalloc = false then
        r.FreesTwice payload
      else r.GivesBack payload := by
  unfold decryptValue
  by_cases noValue : left = 0
  · rw [noValue, if_neg (Nat.lt_irrefl 0)]
    refine ⟨_, rfl, ?_⟩
    rw [if_neg fun lost => absurd lost.1 (Nat.lt_irrefl 0)]
    refine .of_ret rfl fun nullKey nullValue => ?_
    exact endReqHandler_of_outcome outcome (.absent _ _) ret rfl nullKey nullValue _
  have positive := Nat.pos_of_ne_zero noValue
  rw [if_pos positive]
  rcases allocateAndCopy_outcome valueMalloc payload.value key.mem inside with
    ⟨value, copied, valueOutcome, -, fails, unwritten⟩
  rw [copied]
  simp only [Option.bind_eq_bind, Option.bind_some]
  rcases valueOutcome.ret_eq with failed | done
  · rw [if_pos (by omega), unwritten failed, valueOutcome.ptr_eq failed]
    refine ⟨_, rfl, ?_⟩
    by_cases toFree : key.toFree = true
    · rw [if_pos ⟨positive, toFree, fails.mp failed⟩, if_pos toFree]
      exact freesTwice_of_outcome outcome toFree header
    · rw [if_neg fun lost => toFree lost.2.1, if_neg toFree]
      refine .of_eq ?_ rfl
      have kept := outcome.restored
      rwa [if_neg toFree] at kept
  · have fits : ¬ (payload.value = .null ∧ valueMalloc = false) := by
      rw [← fails]
      omega
    rw [if_neg (by omega)]
    refine ⟨_, rfl, ?_⟩
    rw [if_neg fun lost => fits lost.2.2]
    refine .of_ret rfl fun nullKey nullValue => ?_
    exact endReqHandler_of_outcome outcome valueOutcome ret done nullKey nullValue _

end Value

/-- A message with a key that fits: the key is allocated and copied, and then the value. -/
theorem decryptKey_givesBack (e : DecEnv) (header : RdmaMsgHeader) (payload : RdmaDecPayload)
    (mem : Mem) {ciphertext : Bytes} (present : 0 < keyLen ciphertext)
    (fits : headerLen + keyLen ciphertext ≤ ciphertext.length) :
    ∃ r, ((allocateAndCopy e.keyMalloc payload.key mem ciphertext headerLen
        (keyLen ciphertext)).bind fun key =>
          if key.ret < 0 then some ⟨-1, header, { payload with key := key.ptr }, key.mem⟩
          else decryptValue e.valueMalloc header { payload with key := key.ptr } key.mem ciphertext
            (headerLen + keyLen ciphertext) (ciphertext.length - headerLen - keyLen ciphertext)
            key.toFree) = some r ∧
      (LosesKey .plain e payload ciphertext → r.FreesTwice payload) ∧
      (¬ LosesKey .plain e payload ciphertext → r.GivesBack payload) := by
  rcases allocateAndCopy_outcome e.keyMalloc payload.key mem fits with
    ⟨key, copied, outcome, frees, fails, -⟩
  rw [copied, Option.bind_some]
  rcases outcome.ret_eq with failed | done
  · rw [if_pos (by omega)]
    refine ⟨_, rfl, fun lost => ?_, fun _ => .of_eq (outcome.ptr_eq failed) rfl⟩
    have noMemory := (fails.mp failed).2
    rw [lost.keyMalloc] at noMemory
    cases noMemory
  · rw [if_neg (by omega)]
    have inside : headerLen + keyLen ciphertext +
        (ciphertext.length - headerLen - keyLen ciphertext) ≤ ciphertext.length := by omega
    rcases decryptValue_givesBack e.valueMalloc header outcome done inside with ⟨r, result, back⟩
    refine ⟨r, result, fun lost => ?_, fun kept => ?_⟩
    · rwa [if_pos ⟨Nat.sub_pos_of_lt lost.value, frees.mpr ⟨lost.nullKey, lost.keyMalloc⟩,
        lost.nullValue, lost.valueMalloc⟩] at back
    · rw [if_neg ?_] at back
      · exact back
      rintro ⟨value, toFree, nullValue, valueMalloc⟩
      rcases frees.mp toFree with ⟨nullKey, keyMalloc⟩
      exact kept ⟨rfl, present, by omega, nullKey, keyMalloc, nullValue, valueMalloc⟩

/-- Without encryption the buffers are given back unless a key is lost, and then it is freed
twice. -/
theorem decryptMessage_givesBack (e : DecEnv) (header : RdmaMsgHeader) (payload : RdmaDecPayload)
    (mem : Mem) (ciphertext : Bytes) :
    ∃ r, decryptMessage e.keyMalloc e.valueMalloc header payload mem ciphertext = some r ∧
      (LosesKey .plain e payload ciphertext → r.FreesTwice payload) ∧
      (¬ LosesKey .plain e payload ciphertext → r.GivesBack payload) := by
  unfold decryptMessage
  by_cases short : ciphertext.length < minMsgLen
  · rw [if_pos short]
    refine ⟨_, rfl, fun lost => ?_, fun _ => .of_eq rfl rfl⟩
    have room := lost.value
    have noRoom : ciphertext.length - headerLen = 0 := Nat.sub_eq_zero_of_le (Nat.le_of_lt short)
    omega
  have long : headerLen ≤ ciphertext.length := Nat.le_of_not_lt short
  have len : (RdmaMsgHeader.ofBytes (ciphertext.take headerLen)).keyLen.toNat =
    keyLen ciphertext := rfl
  rw [if_neg short, readAt_of_le (by omega), List.drop_zero]
  simp only [Option.bind_eq_bind, Option.bind_some, len]
  by_cases present : 0 < keyLen ciphertext
  · rw [if_pos present]
    by_cases tooLong : keyLen ciphertext > ciphertext.length - headerLen
    · rw [if_pos tooLong]
      refine ⟨_, rfl, fun lost => ?_, fun _ => .of_eq rfl rfl⟩
      have room := lost.value
      omega
    · rw [if_neg tooLong]
      exact decryptKey_givesBack e _ payload mem present (by omega)
  · have outcome := AllocOut.Outcome.absent payload.key mem
    rw [if_neg present]
    rcases decryptValue_givesBack e.valueMalloc (.ofBytes (ciphertext.take headerLen)) outcome rfl
      (Nat.le_of_eq (Nat.add_sub_of_le long)) with ⟨r, result, back⟩
    rw [if_neg fun lost => Bool.false_ne_true lost.2.1] at back
    exact ⟨r, result, fun lost => (present lost.key).elim, fun _ => back⟩

end Plain

/-- In both builds, `decrypt_message` hands back the pointers it was given whenever it fails, and
`req_handler` frees nothing twice, unless the build is the one without encryption and there is
memory for the key of a message but not for its value. -/
theorem givesBack_iff_not_losesKey (build : Build) (gcm : AesGcm) (encKey : Bytes) (e : DecEnv)
    (header : RdmaMsgHeader) (payload : RdmaDecPayload) (mem : Mem) (ciphertext : Bytes) :
    ∃ r, build.decryptMessage gcm encKey e header payload mem ciphertext = some r ∧
      (r.GivesBack payload ↔ ¬ LosesKey build e payload ciphertext) := by
  cases build with
  | encrypting =>
      refine ⟨_, rfl, iff_of_true ?_ ?_⟩
      · exact decryptMessage_givesBack gcm encKey e header payload mem ciphertext
      · intro lost
        cases lost.plain
  | plain =>
      rcases Plain.decryptMessage_givesBack e header payload mem ciphertext with
        ⟨r, result, twice, back⟩
      exact ⟨r, result, fun given lost => (twice lost).not_givesBack given, back⟩

/-- A `put` of one byte under a key of one byte, with memory for the key only: the key is freed
by `decrypt_message` and once more by `req_handler`. -/
theorem key_freed_twice :
    ∃ r, Build.plain.decryptMessage .checksum [9, 4] { DecEnv.ok with valueMalloc := false }
        ⟨0, 0⟩ ⟨.null, .null, 0⟩ .empty (toLE 8 40 ++ toLE 8 1 ++ [7, 8]) = some r ∧
      r.ret = -1 ∧ r.payload.key ≠ .null ∧ endReqHandler r.payload r.mem = none ∧
      ¬ r.GivesBack ⟨.null, .null, 0⟩ := by
  rcases Plain.decryptMessage_givesBack { DecEnv.ok with valueMalloc := false } ⟨0, 0⟩
    ⟨.null, .null, 0⟩ .empty (toLE 8 40 ++ toLE 8 1 ++ [7, 8]) with ⟨r, result, lost, -⟩
  have twice := lost ⟨rfl, by decide +kernel, by decide +kernel, rfl, rfl, rfl, rfl⟩
  exact ⟨r, result, twice.ret, twice.key, twice.freed, twice.not_givesBack⟩

end NetworkStack
