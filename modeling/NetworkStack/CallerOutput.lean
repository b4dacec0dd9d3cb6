import NetworkStack.Isolation

/-!
# The caller's buffer

What a continuation writes to the value buffer and the length cell of its request.
`decrypt_message` streams the plaintext into the buffer before the tag is compared,
and `decrypt_cont_func` compares sequence number and operation only after that. The
length is stored when all of this went well; the bytes of the buffer are overwritten
by any response that leaves room for a value, accepted or not.
-/

namespace NetworkStack

open ByteStream Machine

/-! ## The caller's bytes -/

@[simp] theorem Mem.bytes_free (mem : Mem) (ptr : Ptr) : (mem.free ptr).bytes = mem.bytes := by
  cases ptr <;> rfl

/-- Writing into a buffer leaves it as it is if and only if the bytes are there already. -/
theorem Mem.bytes_write_eq_iff (mem : Mem) (a : Nat) (src : Bytes) :
    (∀ i, (mem.write (.caller a) src).bytes (a + i) = mem.bytes (a + i)) ↔
      mem.read (.caller a) src.length = src := by
  constructor
  · intro same
    have written := mem.read_caller_write a src
    unfold Mem.read at written ⊢
    dsimp only at written ⊢
    simp only [same] at written
    exact written
  · intro there i
    simp only [Mem.write]
    split
    · rename_i inside
      have lt : i < src.length := by omega
      have byte := congrArg (fun bytes => bytes.getD i 0) there
      simp only [Mem.read] at byte
      rw [Nat.add_sub_cancel_left, ← byte]
      simp [lt]
    · rfl

section Decrypt

variable {gcm : AesGcm} {encKey : Bytes} {e : DecEnv} {header : RdmaMsgHeader} {mem : Mem}
  {ciphertext : Bytes}

/-- A key in a new block leaves the caller's bytes alone, whatever happens to the block. -/
theorem decryptKey_bytes (value : Ptr) (valueLen : Nat) :
    (decryptKey gcm encKey e header ⟨.null, value, valueLen⟩ mem ciphertext).mem.bytes =
      mem.bytes := by
  unfold decryptKey
  split
  · unfold allocateAndDecrypt
    split
    · rfl
    · dsimp only
      split
      · rw [if_pos (by simp), Mem.bytes_free]
        rfl
      · rfl
  · rfl

/-- The bytes of a response that go through the cipher as its value, until an update fails. -/
def streamedValue (gcm : AesGcm) (encKey : Bytes) (e : DecEnv) (ciphertext : Bytes) : Bytes :=
  let keyLen := (rawHeader gcm encKey ciphertext).keyLen.toNat
  (cipherUpdate (gcmReport e.valueUpdate) (gcm.keystream encKey (ciphertext.take ivLen))
    (headerLen + keyLen) ((ciphertext.drop (ivLen + headerLen + keyLen)).take
      (payloadSize ciphertext.length - keyLen))).out

/-- The key of a response cannot be decrypted: there is no memory for it, or an update fails. -/
def KeyFails (gcm : AesGcm) (encKey : Bytes) (e : DecEnv) (ciphertext : Bytes) : Prop :=
  let keyLen := (rawHeader gcm encKey ciphertext).keyLen.toNat
  0 < keyLen ∧ (e.keyMalloc = false ∨
    (cipherUpdate (gcmReport e.keyUpdate) (gcm.keystream encKey (ciphertext.take ivLen)) headerLen
      ((ciphertext.drop (ivLen + headerLen)).take keyLen)).ret < 0)

theorem decryptKey_ret_iff (value : Ptr) (valueLen : Nat) :
    (decryptKey gcm encKey e (rawHeader gcm encKey ciphertext) ⟨.null, value, valueLen⟩ mem
      ciphertext).ret < 0 ↔ KeyFails gcm encKey e ciphertext := by
  unfold decryptKey KeyFails
  dsimp only
  split
  · rename_i present
    rw [and_iff_right present]
    unfold allocateAndDecrypt
    by_cases noMemory : e.keyMalloc = false
    · simp [noMemory]
    · rw [if_neg (by simp [noMemory])]
      dsimp only
      split
      · rename_i failed
        simp [failed]
      · rename_i done
        simp [noMemory, done]
  · rename_i absent
    simp [absent]

/-- A value goes to the caller's buffer as far as it is decrypted, whether that succeeds or
not. -/
theorem decryptValue_mem (a valueLen : Nat) (key : Ptr)
    (room : (rawHeader gcm encKey ciphertext).keyLen.toNat < payloadSize ciphertext.length) :
    (decryptValue gcm encKey e (rawHeader gcm encKey ciphertext) ⟨key, .caller a, valueLen⟩ mem
      ciphertext).mem = mem.write (.caller a) (streamedValue gcm encKey e ciphertext) := by
  have positive : 0 < expectedValueLen (rawHeader gcm encKey ciphertext) ciphertext := by
    rw [expectedValueLen]
    omega
  have size : (expectedValueLen (rawHeader gcm encKey ciphertext) ciphertext).toNat =
      payloadSize ciphertext.length - (rawHeader gcm encKey ciphertext).keyLen.toNat := by
    rw [expectedValueLen]
    omega
  unfold decryptValue streamedValue
  rw [if_pos positive, size]
  unfold allocateAndDecrypt
  rw [if_neg (by simp)]
  simp only [reduceCtorEq, decide_false, Bool.false_eq_true, if_false]
  split <;> rfl

/-- Some of a ciphertext is decrypted as its value: it is long enough, OpenSSL gets to its
header, and it names a key that leaves room for a value and can be decrypted. -/
structure StreamsValue (gcm : AesGcm) (encKey : Bytes) (e : DecEnv) (ciphertext : Bytes) :
    Prop where
  long : minMsgLen ≤ ciphertext.length
  readsHeader : e.readsHeader = true
  room : (rawHeader gcm encKey ciphertext).keyLen.toNat < payloadSize ciphertext.length
  key : ¬ KeyFails gcm encKey e ciphertext

theorem endDecrypt_bytes (payload : RdmaDecPayload) (freeKey freeValue : Bool) :
    (endDecrypt header payload mem freeKey freeValue).mem.bytes = mem.bytes := by
  unfold endDecrypt
  cases freeKey <;> cases freeValue <;> simp

theorem decryptBody_bytes (payload : RdmaDecPayload) :
    (decryptBody gcm encKey e header payload mem ciphertext).mem.bytes =
      if (decryptKey gcm encKey e header payload mem ciphertext).ret < 0 then
        (decryptKey gcm encKey e header payload mem ciphertext).mem.bytes
      else (decryptValue gcm encKey e header payload
        (decryptKey gcm encKey e header payload mem ciphertext).mem ciphertext).mem.bytes := by
  unfold decryptBody
  dsimp only
  split
  · exact endDecrypt_bytes ..
  · split
    · exact endDecrypt_bytes ..
    · split
      · exact endDecrypt_bytes ..
      · rfl

/-- What `decrypt_message` leaves in the caller's memory when it is given a value buffer. -/
theorem decryptMessage_bytes (a valueLen : Nat) :
    (StreamsValue gcm encKey e ciphertext →
      (decryptMessage gcm encKey e header ⟨.null, .caller a, valueLen⟩ mem ciphertext).mem.bytes =
        (mem.write (.caller a) (streamedValue gcm encKey e ciphertext)).bytes) ∧
    (¬ StreamsValue gcm encKey e ciphertext →
      (decryptMessage gcm encKey e header ⟨.null, .caller a, valueLen⟩ mem ciphertext).mem.bytes =
        mem.bytes) := by
  rw [decryptMessage_eq]
  refine ⟨?_, ?_⟩
  · intro streams
    have keyDone : ¬ (decryptKey gcm encKey e (rawHeader gcm encKey ciphertext)
        ⟨.null, .caller a, valueLen⟩ mem ciphertext).ret < 0 :=
      mt (decryptKey_ret_iff _ _).mp streams.key
    have keyBytes : (decryptKey gcm encKey e (rawHeader gcm encKey ciphertext)
        ⟨.null, .caller a, valueLen⟩ mem ciphertext).mem.bytes = mem.bytes := decryptKey_bytes ..
    rw [if_neg (by simp [streams.long, streams.readsHeader]),
      if_neg (Nat.not_lt.mpr (Nat.le_of_lt streams.room)), decryptBody_bytes, if_neg keyDone,
      decryptValue_mem _ _ _ streams.room]
    simp only [Mem.write, keyBytes]
  · intro nothing
    split
    · rfl
    rename_i reads
    split
    · rfl
    rename_i fits
    rw [decryptBody_bytes]
    split
    · exact decryptKey_bytes ..
    · rename_i keyDone
      -- everything was in order up to here, so there is no room for a value
      have noRoom : ¬ 0 < expectedValueLen (rawHeader gcm encKey ciphertext) ciphertext := by
        intro positive
        rw [expectedValueLen] at positive
        rw [not_or, Bool.not_eq_false] at reads
        exact nothing ⟨by omega, reads.2, by omega, mt (decryptKey_ret_iff _ _).mpr keyDone⟩
      unfold decryptValue
      rw [if_neg noRoom]
      exact decryptKey_bytes ..

/-! ## The length cells -/

@[simp] theorem Mem.sizes_free (mem : Mem) (ptr : Ptr) : (mem.free ptr).sizes = mem.sizes := by
  cases ptr <;> rfl

theorem allocateAndDecrypt_cells (malloc : Bool) (update : Nat → Bool) (ks : Nat → UInt8)
    (pos : Nat) (ptr : Ptr) :
    (allocateAndDecrypt malloc update ks pos ptr mem ciphertext).mem.sizes = mem.sizes := by
  unfold allocateAndDecrypt
  split
  · rfl
  · dsimp only
    split
    · split <;> simp [Mem.malloc]
    · split <;> simp [Mem.malloc]

theorem decryptBody_cells (payload : RdmaDecPayload) :
    (decryptBody gcm encKey e header payload mem ciphertext).mem.sizes = mem.sizes := by
  have key : (decryptKey gcm encKey e header payload mem ciphertext).mem.sizes = mem.sizes := by
    unfold decryptKey
    split
    · exact allocateAndDecrypt_cells ..
    · rfl
  have value : ∀ before : Mem, (decryptValue gcm encKey e header payload before
      ciphertext).mem.sizes = before.sizes := by
    intro before
    unfold decryptValue
    split
    · exact allocateAndDecrypt_cells ..
    · rfl
  have exits : ∀ (before : Mem) (payload : RdmaDecPayload) (freeKey freeValue : Bool),
      (endDecrypt header payload before freeKey freeValue).mem.sizes = before.sizes := by
    intro before payload freeKey freeValue
    unfold endDecrypt
    cases freeKey <;> cases freeValue <;> simp
  unfold decryptBody
  dsimp only
  split
  · rw [exits, key]
  · split
    · rw [exits, value, key]
    · split
      · rw [exits, value, key]
      · rw [value, key]

/-- `decrypt_message` writes no length cell. -/
theorem decryptMessage_cells (payload : RdmaDecPayload) :
    (decryptMessage gcm encKey e header payload mem ciphertext).mem.sizes = mem.sizes := by
  rw [decryptMessage_eq]
  split
  · rfl
  · split
    · rfl
    · exact decryptBody_cells ..

end Decrypt

/-! ## Refused responses -/

namespace Client

/-- The continuation of the request in slot `k` completes it with `OP_SUCCESS`. -/
def Succeeds (gcm : AesGcm) (c : Client) (k : Slot) (d : Delivery) : Prop :=
  ∃ w, verdict gcm c.encKey (c.queue.queue k) c.mem d = some (.opSuccess, w)

/-- Unless it succeeds, a continuation leaves the memory that `decrypt_message` left. -/
theorem decryptContFunc_mem {gcm : AesGcm} {c : Client} {k : Slot} {d : Delivery}
    (refused : ¬ c.Succeeds gcm k d) :
    (c.decryptContFunc gcm k d).mem = (decryptMessage gcm c.encKey d.env d.stack
      ⟨.null, callerPtr (c.queue.queue k).value, 0⟩ c.mem d.response).mem := by
  have header := decryptMessage_header gcm c.encKey d.env d.stack
    ⟨.null, callerPtr (c.queue.queue k).value, 0⟩ c.mem d.response
  have word : (headerLeft gcm c.encKey d.env d.stack d.response).seqOp = d.word gcm c.encKey := rfl
  unfold decryptContFunc
  dsimp only
  split
  · rfl
  rename_i decrypts
  split
  · rfl
  rename_i answers
  split
  · rfl
  rename_i op
  rw [header, word, ne_eq, not_not, and_mask_eq_iff, seqOf_nextSeq, idOf_nextSeq] at answers
  rw [header, word, ne_eq, not_not, opFromSeqOp_eq_iff] at op
  have answers : Answers (d.word gcm c.encKey) (c.queue.queue k) := answers
  refine absurd ⟨d.word gcm c.encKey, ?_⟩ refused
  unfold verdict
  dsimp only
  rw [if_pos ((d.decrypts_iff ..).mpr decrypts), if_pos answers, if_pos op]

/-- A response that does not complete a get with `OP_SUCCESS` leaves value buffer and length as
they are if and only if nothing of it is decrypted as a value, or what is decrypted are the bytes
that the buffer holds. -/
theorem refused_response_untouched_iff (gcm : AesGcm) (c : Client) (k : Slot) (d : Delivery)
    {a : Nat} (value : (c.queue.queue k).value = some a) (refused : ¬ c.Succeeds gcm k d) :
    ((∀ i, (c.decryptContFunc gcm k d).mem.bytes (a + i) = c.mem.bytes (a + i)) ∧
        ∀ cell, (c.queue.queue k).valueLen = some cell →
          (c.decryptContFunc gcm k d).mem.sizes cell = c.mem.sizes cell) ↔
      (StreamsValue gcm c.encKey d.env d.response →
        c.mem.read (.caller a) (streamedValue gcm c.encKey d.env d.response).length =
          streamedValue gcm c.encKey d.env d.response) := by
  have cells : ∀ cell, (c.queue.queue k).valueLen = some cell →
      (c.decryptContFunc gcm k d).mem.sizes cell = c.mem.sizes cell := by
    intro cell _
    rw [decryptContFunc_mem refused, decryptMessage_cells]
  rw [and_iff_left cells, decryptContFunc_mem refused, value]
  by_cases streams : StreamsValue gcm c.encKey d.env d.response
  · rw [forall_prop_of_true streams, ← Mem.bytes_write_eq_iff]
    simp only [callerPtr, (decryptMessage_bytes a 0).1 streams]
  · simp only [callerPtr, (decryptMessage_bytes a 0).2 streams, streams, false_implies,
      implies_true]

end Client

namespace Sample

/-- A get with the value buffer at 100 and the length cell 200. -/
def bufferedGet : Client.Action :=
  .call ⟨.get (some [1]) (some 100) (some 200), some 3, 42, 0⟩ (.ofNat 1) enc

/-- The response to the get with sequence number `n`, sealed by the server. -/
def getResponse (n : Nat) (value : Bytes) : Bytes :=
  sealMessage .checksum (List.replicate 16 5) (Iv.ofNat 9).bytes
    ⟨UInt64.ofNat ((n + 1) * 1024 + 7 * 4), [], value⟩

end Sample

/-- Nothing is written for a response that is too short. -/
theorem short_response_untouched :
    let c := run (Client.step .checksum) (Sample.setup 10).client [Sample.bufferedGet]
    ¬ c.Succeeds .checksum (Sample.slot 10) (Sample.arrives 0 [1, 2, 3]) ∧
      ∀ i, (c.decryptContFunc .checksum (Sample.slot 10)
        (Sample.arrives 0 [1, 2, 3])).mem.bytes (100 + i) = c.mem.bytes (100 + i) := by
  intro c
  have refused : ¬ c.Succeeds .checksum (Sample.slot 10) (Sample.arrives 0 [1, 2, 3]) := by
    rintro ⟨w, success⟩
    have invalid : (Client.verdict .checksum c.encKey (c.queue.queue (Sample.slot 10)) c.mem
        (Sample.arrives 0 [1, 2, 3])).map Prod.fst = some .invalidResponse := by decide +kernel
    rw [success] at invalid
    cases invalid
  have value : (c.queue.queue (Sample.slot 10)).value = some 100 := by decide +kernel
  refine ⟨refused, ((Client.refused_response_untouched_iff .checksum c (Sample.slot 10)
    (Sample.arrives 0 [1, 2, 3]) value refused).mpr ?_).1⟩
  intro streams
  exact absurd streams.long (by decide)

/-- The response to an earlier get, delivered for a later one, is dropped for its sequence number
and is in the buffer all the same. -/
theorem replayed_response_overwrites_buffer :
    let c := run (Client.step .checksum) (Sample.setup 10).client [Sample.bufferedGet]
    let d := Sample.arrives 0 (Sample.getResponse 8 [77])
    c.Waiting 0 (Sample.slot 10) ∧
      (c.queue.queue (Sample.slot 10)).value = some 100 ∧
      (c.queue.queue (Sample.slot 10)).valueLen = some 200 ∧
      ¬ c.Succeeds .checksum (Sample.slot 10) d ∧
      ¬ ∀ i, (c.decryptContFunc .checksum (Sample.slot 10) d).mem.bytes (100 + i) =
        c.mem.bytes (100 + i) := by
  intro c d
  refine ⟨⟨by decide +kernel, by decide +kernel, by decide +kernel⟩, by decide +kernel,
    by decide +kernel, ?_, ?_⟩
  · rintro ⟨w, success⟩
    have dropped : Client.verdict .checksum c.encKey (c.queue.queue (Sample.slot 10)) c.mem d =
        none := by decide +kernel
    rw [success] at dropped
    cases dropped
  · intro same
    have first := same 0
    have before : c.mem.bytes (100 + 0) = 0 := by decide +kernel
    have after : (c.decryptContFunc .checksum (Sample.slot 10) d).mem.bytes (100 + 0) = 77 := by
      decide +kernel
    rw [before, after] at first
    cases first

end NetworkStack
