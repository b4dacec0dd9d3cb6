import NetworkStack.Codec

/-!
# What the codec is for

`sealMessage` is the ciphertext of a message under an IV and `openMessage` the
message a ciphertext authentically carries. `openMessage_sealMessage` is the
round trip; `decryptMessage_ok` and `decryptMessage_of_open` say that a
successful `decrypt_message` returns exactly the message `openMessage` finds and
that, when no library call fails, it succeeds whenever there is one;
`encryptMessage_seals` says the same for `encrypt_message`.
-/

namespace NetworkStack

open ByteStream

/-! ## Messages -/

/-- The plaintext content of a message. -/
structure Message : Type where
  seqOp : UInt64
  key : Bytes
  value : Bytes
deriving DecidableEq

def Message.header (m : Message) : RdmaMsgHeader := ⟨m.seqOp, UInt64.ofNat m.key.length⟩

def Message.plain (m : Message) : Bytes := m.header.toBytes ++ (m.key ++ m.value)

/-- IV, encrypted body and tag of a message. -/
def sealMessage (gcm : AesGcm) (encKey iv : Bytes) (m : Message) : Bytes :=
  let body := xorStream (gcm.keystream encKey iv) 0 m.plain
  iv ++ (body ++ gcm.mac encKey iv [] body)

/-- The message a ciphertext authentically carries, if any. -/
def openMessage (gcm : AesGcm) (encKey ciphertext : Bytes) : Option Message :=
  if ciphertext.length < minMsgLen then none
  else
    let iv := ciphertext.take ivLen
    let body := (ciphertext.drop ivLen).take (ciphertext.length - ivLen - macLen)
    let header := rawHeader gcm encKey ciphertext
    let keyLen := header.keyLen.toNat
    let plain := xorStream (gcm.keystream encKey iv) 0 body
    if keyLen > payloadSize ciphertext.length then none
    else if tagMatches gcm encKey ciphertext then
      some ⟨header.seqOp, (plain.drop headerLen).take keyLen, plain.drop (headerLen + keyLen)⟩
    else none

@[simp] theorem RdmaMsgHeader.length_toBytes (header : RdmaMsgHeader) :
    header.toBytes.length = headerLen := by
  simp [RdmaMsgHeader.toBytes, headerLen]

@[simp] theorem RdmaMsgHeader.ofBytes_toBytes (header : RdmaMsgHeader) :
    RdmaMsgHeader.ofBytes header.toBytes = header := by
  rcases header with ⟨seqOp, keyLen⟩
  unfold RdmaMsgHeader.ofBytes RdmaMsgHeader.toBytes
  rw [List.take_left' (length_toLE _ _), List.drop_left' (length_toLE _ _),
    List.take_of_length_le (by simp)]
  simp only [seqLen, sizeLen, ofNat_ofLE_toLE]

theorem length_plain (m : Message) :
    m.plain.length = headerLen + (m.key.length + m.value.length) := by
  simp [Message.plain]

theorem length_sealMessage (gcm : AesGcm) (encKey : Bytes) (iv : Iv) (m : Message) :
    (sealMessage gcm encKey iv.bytes m).length =
      ciphertextSize (m.key.length + m.value.length) := by
  simp only [sealMessage, List.length_append, Iv.length_bytes, length_xorStream, length_plain,
    gcm.mac_length, ciphertextSize, minMsgLen, headerLen]
  omega

/-- Opening a sealed message gives it back. -/
theorem openMessage_sealMessage (gcm : AesGcm) (encKey : Bytes) (iv : Iv) {m : Message}
    (keyLt : m.key.length < 2 ^ 64) :
    openMessage gcm encKey (sealMessage gcm encKey iv.bytes m) = some m := by
  have len := length_sealMessage gcm encKey iv m
  have size : ciphertextSize (m.key.length + m.value.length) - ivLen - macLen =
      headerLen + (m.key.length + m.value.length) := by
    simp only [ciphertextSize, minMsgLen, headerLen]
    omega
  have bodyLen : (xorStream (gcm.keystream encKey iv.bytes) 0 m.plain).length =
      headerLen + (m.key.length + m.value.length) := by
    rw [length_xorStream, length_plain]
  have ivPart : (sealMessage gcm encKey iv.bytes m).take ivLen = iv.bytes :=
    List.take_left' iv.length_bytes
  have rest : (sealMessage gcm encKey iv.bytes m).drop ivLen =
      xorStream (gcm.keystream encKey iv.bytes) 0 m.plain ++
        gcm.mac encKey iv.bytes [] (xorStream (gcm.keystream encKey iv.bytes) 0 m.plain) :=
    List.drop_left' iv.length_bytes
  have tagPart : (sealMessage gcm encKey iv.bytes m).drop
      ((sealMessage gcm encKey iv.bytes m).length - macLen) =
        gcm.mac encKey iv.bytes [] (xorStream (gcm.keystream encKey iv.bytes) 0 m.plain) := by
    have position : (sealMessage gcm encKey iv.bytes m).length - macLen =
        ivLen + (headerLen + (m.key.length + m.value.length)) := by
      rw [len]
      simp only [ciphertextSize, minMsgLen, headerLen]
      omega
    rw [position, ← List.drop_drop, rest]
    exact List.drop_left' bodyLen
  have raw : rawHeader gcm encKey (sealMessage gcm encKey iv.bytes m) = m.header := by
    unfold rawHeader
    rw [ivPart, rest, List.take_append_of_le_length (by rw [bodyLen]; omega), take_xorStream,
      xorStream_xorStream, Message.plain, List.take_left' (RdmaMsgHeader.length_toBytes _),
      RdmaMsgHeader.ofBytes_toBytes]
  have keyLen : m.header.keyLen.toNat = m.key.length := by
    rw [Message.header, UInt64.toNat_ofNat']
    exact Nat.mod_eq_of_lt keyLt
  have authentic : tagMatches gcm encKey (sealMessage gcm encKey iv.bytes m) = true := by
    unfold tagMatches
    rw [ivPart, rest, tagPart, len, size, List.take_left' bodyLen, decide_eq_true_eq]
  unfold openMessage
  rw [if_neg (by rw [len, ciphertextSize]; omega)]
  simp only [ivPart, rest, raw, keyLen]
  rw [len, size, List.take_left' bodyLen, xorStream_xorStream, if_neg, if_pos authentic,
    Message.plain,
    List.drop_left' (RdmaMsgHeader.length_toBytes _), List.take_left' rfl, ← List.drop_drop,
    List.drop_left' (RdmaMsgHeader.length_toBytes _), List.drop_left' rfl]
  · rfl
  · simp only [payloadSize, ciphertextSize]
    omega

/-! ## `cipher_update` -/

/-- Every successful `EVP_CipherUpdate` processes a non-empty part of its input. -/
def Streams (report : Nat → Nat → Option Int) : Prop :=
  ∀ call n p, 1 ≤ n → report call n = some p → 1 ≤ p ∧ p ≤ n

theorem streams_gcmReport (ok : Nat → Bool) : Streams (gcmReport ok) := by
  intro call n p pos h
  unfold gcmReport at h
  split at h
  · cases h
    omega
  · cases h

theorem cipherUpdateLoop_ret (report : Nat → Nat → Option Int) (ks : Nat → UInt8) (pos : Nat)
    (input : Bytes) (fuel call total : Nat) :
    (cipherUpdateLoop report ks pos input fuel call total).ret = 0 ∨
      (cipherUpdateLoop report ks pos input fuel call total).ret = -1 := by
  induction fuel generalizing call total with
  | zero =>
      unfold cipherUpdateLoop
      dsimp only
      split <;> simp
  | succ fuel ih =>
      unfold cipherUpdateLoop
      split
      · split
        · exact Or.inr rfl
        · split
          · exact Or.inr rfl
          · exact ih _ _
      · dsimp only
        split <;> simp

/-- A successful loop has transformed everything that was left. -/
theorem cipherUpdateLoop_out {report : Nat → Nat → Option Int} (streams : Streams report)
    (ks : Nat → UInt8) (pos : Nat) (input : Bytes) (fuel call : Nat) {total : Nat}
    (within : total ≤ input.length)
    (ok : (cipherUpdateLoop report ks pos input fuel call total).ret = 0) :
    (cipherUpdateLoop report ks pos input fuel call total).out =
      xorStream ks (pos + total) (input.drop total) := by
  induction fuel generalizing call total with
  | zero =>
      unfold cipherUpdateLoop at ok ⊢
      dsimp only at ok ⊢
      split at ok
      · cases ok
      · have total_eq : total = input.length := by omega
        rw [total_eq, List.drop_length, xorStream]
  | succ fuel ih =>
      unfold cipherUpdateLoop at ok ⊢
      split at ok
      · rename_i below
        rw [if_pos below]
        cases outcome : report call (min int32Max (input.length - total)) with
        | none => simp [outcome] at ok
        | some processed =>
            have room : 1 ≤ min int32Max (input.length - total) := by
              simp only [int32Max]
              omega
            obtain ⟨low, high⟩ := streams _ _ _ room outcome
            simp only [outcome, if_neg (show ¬ processed < 0 by omega)] at ok ⊢
            rw [ih _ (by omega) ok, ← List.drop_drop, ← Nat.add_assoc, ← drop_xorStream,
              ← take_xorStream, List.take_append_drop]
      · rename_i above
        rw [if_neg above]
        have total_eq : total = input.length := by omega
        rw [total_eq, List.drop_length, xorStream]

/-- A loop with enough fuel in which no call fails succeeds. -/
theorem cipherUpdateLoop_succeeds {report : Nat → Nat → Option Int} (streams : Streams report)
    (ks : Nat → UInt8) (pos : Nat) (input : Bytes)
    (succeeds : ∀ call n, report call n ≠ none) (fuel call : Nat) {total : Nat}
    (within : total ≤ input.length) (enough : input.length ≤ total + fuel) :
    (cipherUpdateLoop report ks pos input fuel call total).ret = 0 := by
  induction fuel generalizing call total with
  | zero =>
      unfold cipherUpdateLoop
      dsimp only
      rw [if_neg (by omega)]
  | succ fuel ih =>
      unfold cipherUpdateLoop
      split
      · cases outcome : report call (min int32Max (input.length - total)) with
        | none => exact (succeeds _ _ outcome).elim
        | some processed =>
            have room : 1 ≤ min int32Max (input.length - total) := by
              simp only [int32Max]
              omega
            obtain ⟨low, high⟩ := streams _ _ _ room outcome
            simp only [if_neg (show ¬ processed < 0 by omega)]
            exact ih _ (by omega) (by omega)
      · dsimp only
        rw [if_neg (by omega)]

theorem cipherUpdate_ret (report : Nat → Nat → Option Int) (ks : Nat → UInt8) (pos : Nat)
    (input : Bytes) :
    (cipherUpdate report ks pos input).ret = 0 ∨ (cipherUpdate report ks pos input).ret = -1 :=
  cipherUpdateLoop_ret ..

theorem cipherUpdate_out {ok : Nat → Bool} {ks : Nat → UInt8} {pos : Nat} {input : Bytes}
    (done : ¬ (cipherUpdate (gcmReport ok) ks pos input).ret < 0) :
    (cipherUpdate (gcmReport ok) ks pos input).out = xorStream ks pos input := by
  have ret := cipherUpdate_ret (gcmReport ok) ks pos input
  have out := cipherUpdateLoop_out (streams_gcmReport ok) ks pos input input.length 0
    (Nat.zero_le _) (by
      rcases ret with ret | ret
      · exact ret
      · omega)
  rwa [Nat.add_zero, List.drop_zero] at out

theorem cipherUpdate_succeeds {ok : Nat → Bool} (all : ∀ call, ok call = true)
    (ks : Nat → UInt8) (pos : Nat) (input : Bytes) :
    ¬ (cipherUpdate (gcmReport ok) ks pos input).ret < 0 := by
  have done := cipherUpdateLoop_succeeds (streams_gcmReport ok) ks pos input
    (by intro call n; simp [gcmReport, all]) input.length 0
    (Nat.zero_le _) (by omega)
  unfold cipherUpdate
  omega

/-! ## Buffers -/

/-- Put a byte string into a caller's buffer, or into a new block if there is none. -/
def Mem.store (mem : Mem) (buffer : Option Nat) (src : Bytes) : Ptr × Mem :=
  match buffer with
  | none => (.block mem.blocks.length, { mem with blocks := mem.blocks ++ [some src] })
  | some a => (.caller a, mem.write (.caller a) src)

/-- What a write to a fresh block leaves in it. -/
theorem modify_append_last (blocks : List (Option Bytes)) (b : Option Bytes)
    (f : Option Bytes → Option Bytes) :
    (blocks ++ [b]).modify blocks.length f = blocks ++ [f b] :=
  List.modifyTailIdx_add (List.modifyHead f) 0 blocks [b]

theorem Mem.write_malloc (mem : Mem) (src : Bytes) :
    (mem.malloc src.length).2.write (mem.malloc src.length).1 src = (mem.store none src).2 := by
  simp only [Mem.malloc, Mem.write, Mem.store, modify_append_last]
  simp

theorem Mem.read_caller_write (mem : Mem) (a : Nat) (src : Bytes) :
    (mem.write (.caller a) src).read (.caller a) src.length = src := by
  apply List.ext_getElem
  · simp [Mem.read]
  · intro i hi hj
    simp only [Mem.read, Mem.write, List.getElem_map, List.getElem_range]
    rw [if_pos (by omega), Nat.add_sub_cancel_left, List.getD_eq_getElem _ _ hj]

/-- What was put into a buffer is read back from it. -/
theorem Mem.read_store (mem : Mem) (buffer : Option Nat) (src : Bytes) :
    (mem.store buffer src).2.read (mem.store buffer src).1 src.length = src := by
  cases buffer with
  | none => simp [Mem.store, Mem.read]
  | some a => exact mem.read_caller_write a src

/-- Only without a buffer is the pointer NULL. -/
theorem callerPtr_eq_null {buffer : Option Nat} (null : callerPtr buffer = .null) :
    buffer = none := by
  cases buffer with
  | none => rfl
  | some a => cases null

theorem Mem.store_ne_null (mem : Mem) (buffer : Option Nat) (src : Bytes) :
    (mem.store buffer src).1 ≠ .null := by
  cases buffer with
  | none => exact fun null => Ptr.noConfusion null
  | some a => exact fun null => Ptr.noConfusion null

/-- A block keeps its content when another buffer is filled. -/
theorem Mem.read_block_store (mem : Mem) (buffer : Option Nat) (src : Bytes) {b n : Nat}
    (old : b < mem.blocks.length) :
    (mem.store buffer src).2.read (.block b) n = mem.read (.block b) n := by
  cases buffer with
  | none => simp [Mem.store, Mem.read, List.getElem?_append_left old]
  | some a => rfl

@[simp] theorem Mem.sizes_write (mem : Mem) (ptr : Ptr) (src : Bytes) :
    (mem.write ptr src).sizes = mem.sizes := by
  cases ptr <;> rfl

theorem allocateAndDecrypt_ok {malloc : Bool} {update : Nat → Bool} {ks : Nat → UInt8} {pos : Nat}
    (buffer : Option Nat) {mem : Mem} {ciphertext : Bytes}
    (ok : ¬ (allocateAndDecrypt malloc update ks pos (callerPtr buffer) mem ciphertext).ret < 0) :
    (allocateAndDecrypt malloc update ks pos (callerPtr buffer) mem ciphertext).ptr =
        (mem.store buffer (xorStream ks pos ciphertext)).1 ∧
      (allocateAndDecrypt malloc update ks pos (callerPtr buffer) mem ciphertext).mem =
        (mem.store buffer (xorStream ks pos ciphertext)).2 := by
  unfold allocateAndDecrypt at ok ⊢
  split at ok
  · exact (ok (by simp)).elim
  · rename_i allocated
    rw [if_neg allocated]
    dsimp only at ok ⊢
    by_cases failed : (cipherUpdate (gcmReport update) ks pos ciphertext).ret < 0
    · rw [if_pos failed] at ok
      split at ok <;> exact (ok (by simp)).elim
    · rw [if_neg failed, cipherUpdate_out failed]
      cases buffer with
      | none =>
          have fill := mem.write_malloc (xorStream ks pos ciphertext)
          rw [length_xorStream] at fill
          exact ⟨rfl, fill⟩
      | some a => exact ⟨rfl, rfl⟩

theorem allocateAndDecrypt_succeeds {malloc : Bool} {update : Nat → Bool}
    (allocates : malloc = true) (updates : ∀ call, update call = true)
    (ks : Nat → UInt8) (pos : Nat) (ptr : Ptr) (mem : Mem) (ciphertext : Bytes) :
    ¬ (allocateAndDecrypt malloc update ks pos ptr mem ciphertext).ret < 0 := by
  unfold allocateAndDecrypt
  rw [if_neg (by simp [allocates])]
  dsimp only
  rw [if_neg (cipherUpdate_succeeds updates ks pos ciphertext)]
  exact lt_irrefl 0

/-! ## `decrypt_message` -/

/-- No library call fails. -/
structure DecEnv.Ok (e : DecEnv) : Prop where
  ctxNew : e.ctxNew = true
  initEx : e.initEx = true
  setTag : e.setTag = true
  setIvLen : e.setIvLen = true
  headerUpdate : e.headerUpdate = true
  keyMalloc : e.keyMalloc = true
  keyUpdate : ∀ call, e.keyUpdate call = true
  valueMalloc : e.valueMalloc = true
  valueUpdate : ∀ call, e.valueUpdate call = true
  final : e.final = true

def DecEnv.ok : DecEnv :=
  ⟨true, true, true, true, true, true, fun _ => true, true, fun _ => true, true⟩

theorem DecEnv.ok_ok : DecEnv.ok.Ok := by
  constructor <;> intros <;> rfl

/-- The library calls before and at the decryption of the header succeed. -/
def DecEnv.readsHeader (e : DecEnv) : Bool :=
  e.ctxNew && e.initEx && e.setTag && e.setIvLen && e.headerUpdate

/-- The content of the header struct after `decrypt_message`: decrypted from the
received bytes, authentic or not, or what it was before when the message is too
short or the library fails. -/
def headerLeft (gcm : AesGcm) (encKey : Bytes) (e : DecEnv) (header : RdmaMsgHeader)
    (ciphertext : Bytes) : RdmaMsgHeader :=
  if ciphertext.length < minMsgLen ∨ e.readsHeader = false then header
  else rawHeader gcm encKey ciphertext

/-- The result of a successful `decrypt_message` carries the message. -/
structure DecResult.Carries (r : DecResult) (buffer : Option Nat) (m : Message) : Prop where
  header : r.header = m.header
  keyLen : r.header.keyLen.toNat = m.key.length
  valueLen : r.payload.valueLen = m.value.length
  key : r.mem.read r.payload.key m.key.length = m.key
  value : r.mem.read r.payload.value m.value.length = m.value
  buffer : ∀ a, buffer = some a → r.payload.value = .caller a

/-- `decrypt_message` with its early exits collected: before the header is read, and
after it named a key longer than the message. -/
theorem decryptMessage_eq (gcm : AesGcm) (encKey : Bytes) (e : DecEnv)
    (header : RdmaMsgHeader) (payload : RdmaDecPayload) (mem : Mem) (ciphertext : Bytes) :
    decryptMessage gcm encKey e header payload mem ciphertext =
      if ciphertext.length < minMsgLen ∨ e.readsHeader = false then ⟨-1, header, payload, mem⟩
      else if (rawHeader gcm encKey ciphertext).keyLen.toNat > payloadSize ciphertext.length then
        ⟨-1, rawHeader gcm encKey ciphertext, payload, mem⟩
      else decryptBody gcm encKey e (rawHeader gcm encKey ciphertext) payload mem ciphertext := by
  unfold decryptMessage DecEnv.readsHeader
  rcases e with ⟨_ | _, _ | _, _ | _, _ | _, _ | _, _, _, _, _, _⟩ <;> simp only [Bool.not_false,
    Bool.not_true, Bool.and_false, Bool.and_true, if_true, ite_self, or_true,
    Bool.false_eq_true, if_false, or_false, Bool.true_eq_false]

theorem decryptBody_header (gcm : AesGcm) (encKey : Bytes) (e : DecEnv) (header : RdmaMsgHeader)
    (payload : RdmaDecPayload) (mem : Mem) (ciphertext : Bytes) :
    (decryptBody gcm encKey e header payload mem ciphertext).header = header := by
  unfold decryptBody
  dsimp only
  split
  · rfl
  · split
    · rfl
    · split <;> rfl

/-- The header that `decrypt_message` leaves does not depend on the buffers. -/
theorem decryptMessage_header (gcm : AesGcm) (encKey : Bytes) (e : DecEnv)
    (header : RdmaMsgHeader) (payload : RdmaDecPayload) (mem : Mem) (ciphertext : Bytes) :
    (decryptMessage gcm encKey e header payload mem ciphertext).header =
      headerLeft gcm encKey e header ciphertext := by
  rw [decryptMessage_eq, headerLeft]
  split
  · rfl
  · split
    · rfl
    · exact decryptBody_header ..

theorem decryptBody_ret (gcm : AesGcm) (encKey : Bytes) (e : DecEnv) (header : RdmaMsgHeader)
    (payload : RdmaDecPayload) (mem : Mem) (ciphertext : Bytes) :
    (decryptBody gcm encKey e header payload mem ciphertext).ret = 0 ∨
      (decryptBody gcm encKey e header payload mem ciphertext).ret = -1 := by
  unfold decryptBody
  dsimp only
  split
  · exact Or.inr rfl
  · split
    · exact Or.inr rfl
    · split
      · exact Or.inr rfl
      · exact Or.inl rfl

theorem decryptMessage_ret (gcm : AesGcm) (encKey : Bytes) (e : DecEnv) (header : RdmaMsgHeader)
    (payload : RdmaDecPayload) (mem : Mem) (ciphertext : Bytes) :
    (decryptMessage gcm encKey e header payload mem ciphertext).ret = 0 ∨
      (decryptMessage gcm encKey e header payload mem ciphertext).ret = -1 := by
  rw [decryptMessage_eq]
  split
  · exact Or.inr rfl
  · split
    · exact Or.inr rfl
    · exact decryptBody_ret ..

section Parts

variable {gcm : AesGcm} {encKey : Bytes} {e : DecEnv} {header : RdmaMsgHeader}
  {payload : RdmaDecPayload} {mem : Mem} {ciphertext : Bytes}

/-- The plaintext under the body of a ciphertext, authentic or not. -/
def rawPlain (gcm : AesGcm) (encKey ciphertext : Bytes) : Bytes :=
  xorStream (gcm.keystream encKey (ciphertext.take ivLen)) 0
    ((ciphertext.drop ivLen).take (ciphertext.length - ivLen - macLen))

/-- Where the key lies in the plaintext. -/
theorem keyPart (long : minMsgLen ≤ ciphertext.length) {keyLen : Nat}
    (fits : keyLen ≤ payloadSize ciphertext.length) :
    xorStream (gcm.keystream encKey (ciphertext.take ivLen)) headerLen
        ((ciphertext.drop (ivLen + headerLen)).take keyLen) =
      ((rawPlain gcm encKey ciphertext).drop headerLen).take keyLen := by
  simp only [minMsgLen, payloadSize] at long fits
  rw [rawPlain, drop_xorStream, take_xorStream, Nat.zero_add, List.drop_take, List.take_take,
    List.drop_drop, Nat.min_eq_left]
  simp only [headerLen]
  omega

/-- Where the value lies in the plaintext. -/
theorem valuePart (keyLen : Nat) :
    xorStream (gcm.keystream encKey (ciphertext.take ivLen)) (headerLen + keyLen)
        ((ciphertext.drop (ivLen + headerLen + keyLen)).take
          (payloadSize ciphertext.length - keyLen)) =
      (rawPlain gcm encKey ciphertext).drop (headerLen + keyLen) := by
  rw [rawPlain, drop_xorStream, Nat.zero_add, List.drop_take, List.drop_drop, Nat.add_assoc ivLen]
  congr 2
  simp only [payloadSize, minMsgLen, headerLen]
  omega

theorem length_rawPlain (long : minMsgLen ≤ ciphertext.length) :
    (rawPlain gcm encKey ciphertext).length = headerLen + payloadSize ciphertext.length := by
  simp only [minMsgLen] at long
  simp only [rawPlain, length_xorStream, List.length_take, List.length_drop, headerLen,
    payloadSize, minMsgLen]
  omega

/-- What the successful exit of the second part went through. -/
theorem decryptBody_inv (ok : (decryptBody gcm encKey e header payload mem ciphertext).ret = 0) :
    ¬ (decryptKey gcm encKey e header payload mem ciphertext).ret < 0 ∧
      ¬ (decryptValue gcm encKey e header payload
          (decryptKey gcm encKey e header payload mem ciphertext).mem ciphertext).ret < 0 ∧
      tagMatches gcm encKey ciphertext = true ∧
      decryptBody gcm encKey e header payload mem ciphertext =
        { ret := 0
          header := header
          payload :=
            { key := (decryptKey gcm encKey e header payload mem ciphertext).ptr
              value := (decryptValue gcm encKey e header payload
                (decryptKey gcm encKey e header payload mem ciphertext).mem ciphertext).ptr
              valueLen := (expectedValueLen header ciphertext).toNat }
          mem := (decryptValue gcm encKey e header payload
            (decryptKey gcm encKey e header payload mem ciphertext).mem ciphertext).mem } := by
  unfold decryptBody at ok ⊢
  dsimp only at ok ⊢
  split at ok
  · cases ok
  rename_i keyOk
  split at ok
  · cases ok
  rename_i valueOk
  split at ok
  · cases ok
  rename_i authentic
  rw [if_neg keyOk, if_neg valueOk, if_neg authentic]
  simp only [Bool.not_eq_true', Bool.not_eq_false, Bool.and_eq_true] at authentic
  exact ⟨keyOk, valueOk, authentic.1, rfl⟩

theorem openMessage_eq_some (long : minMsgLen ≤ ciphertext.length)
    (fits : (rawHeader gcm encKey ciphertext).keyLen.toNat ≤ payloadSize ciphertext.length)
    (authentic : tagMatches gcm encKey ciphertext = true) :
    openMessage gcm encKey ciphertext = some
      { seqOp := (rawHeader gcm encKey ciphertext).seqOp
        key := ((rawPlain gcm encKey ciphertext).drop headerLen).take
          (rawHeader gcm encKey ciphertext).keyLen.toNat
        value := (rawPlain gcm encKey ciphertext).drop
          (headerLen + (rawHeader gcm encKey ciphertext).keyLen.toNat) } := by
  unfold openMessage
  rw [if_neg (by omega)]
  dsimp only
  rw [if_neg (by omega), if_pos authentic]
  rfl

/-- A ciphertext that opens is long enough, names a key that fits and is authentic. -/
theorem openMessage_inv {m : Message} (opens : openMessage gcm encKey ciphertext = some m) :
    minMsgLen ≤ ciphertext.length ∧
      (rawHeader gcm encKey ciphertext).keyLen.toNat ≤ payloadSize ciphertext.length ∧
      tagMatches gcm encKey ciphertext = true := by
  unfold openMessage at opens
  split at opens
  · cases opens
  rename_i long
  dsimp only at opens
  split at opens
  · cases opens
  rename_i fits
  split at opens
  · rename_i authentic
    exact ⟨by omega, by omega, authentic⟩
  · cases opens

/-- The key is read back from the block it was decrypted into, also after the value
was written. -/
theorem decryptKey_read {buffer : Option Nat} {n : Nat} (long : minMsgLen ≤ ciphertext.length)
    (fits : header.keyLen.toNat ≤ payloadSize ciphertext.length)
    (ok : ¬ (decryptKey gcm encKey e header ⟨.null, callerPtr buffer, n⟩ mem ciphertext).ret < 0) :
    (∀ src, ((decryptKey gcm encKey e header ⟨.null, callerPtr buffer, n⟩ mem ciphertext).mem.store
        buffer src).2.read
          (decryptKey gcm encKey e header ⟨.null, callerPtr buffer, n⟩ mem ciphertext).ptr
          header.keyLen.toNat =
        ((rawPlain gcm encKey ciphertext).drop headerLen).take header.keyLen.toNat) ∧
      (decryptKey gcm encKey e header ⟨.null, callerPtr buffer, n⟩ mem ciphertext).mem.read
          (decryptKey gcm encKey e header ⟨.null, callerPtr buffer, n⟩ mem ciphertext).ptr
          header.keyLen.toNat =
        ((rawPlain gcm encKey ciphertext).drop headerLen).take header.keyLen.toNat := by
  unfold decryptKey at ok ⊢
  by_cases present : 0 < header.keyLen.toNat
  · simp only [if_pos present] at ok ⊢
    obtain ⟨ptr, filled⟩ := allocateAndDecrypt_ok none ok
    simp only [callerPtr] at ptr filled
    rw [ptr, filled, keyPart long fits]
    have len : (((rawPlain gcm encKey ciphertext).drop headerLen).take
        header.keyLen.toNat).length = header.keyLen.toNat := by
      rw [List.length_take, List.length_drop, length_rawPlain long]
      omega
    have read := mem.read_store none
      (((rawPlain gcm encKey ciphertext).drop headerLen).take header.keyLen.toNat)
    rw [len] at read
    refine ⟨fun src => ?_, read⟩
    have old : mem.blocks.length < (mem.store none
        (((rawPlain gcm encKey ciphertext).drop headerLen).take
          header.keyLen.toNat)).2.blocks.length := by
      simp [Mem.store]
    exact (Mem.read_block_store _ buffer src old).trans read
  · have zero : header.keyLen.toNat = 0 := by omega
    simp [zero, Mem.read]

/-- The value is read back from the caller's buffer or from a new block. -/
theorem decryptValue_read {buffer : Option Nat} {ptr : Ptr} {n : Nat}
    (long : minMsgLen ≤ ciphertext.length)
    (fits : header.keyLen.toNat ≤ payloadSize ciphertext.length)
    (ok : ¬ (decryptValue gcm encKey e header ⟨ptr, callerPtr buffer, n⟩ mem ciphertext).ret < 0) :
    (decryptValue gcm encKey e header ⟨ptr, callerPtr buffer, n⟩ mem ciphertext).mem.read
        (decryptValue gcm encKey e header ⟨ptr, callerPtr buffer, n⟩ mem ciphertext).ptr
        (payloadSize ciphertext.length - header.keyLen.toNat) =
      (rawPlain gcm encKey ciphertext).drop (headerLen + header.keyLen.toNat) ∧
    (∀ a, buffer = some a →
      (decryptValue gcm encKey e header ⟨ptr, callerPtr buffer, n⟩ mem ciphertext).ptr =
        .caller a) ∧
    ((decryptValue gcm encKey e header ⟨ptr, callerPtr buffer, n⟩ mem ciphertext).mem = mem ∨
      ∃ src, (decryptValue gcm encKey e header ⟨ptr, callerPtr buffer, n⟩ mem ciphertext).mem =
        (mem.store buffer src).2) := by
  have len : ((rawPlain gcm encKey ciphertext).drop (headerLen + header.keyLen.toNat)).length =
      payloadSize ciphertext.length - header.keyLen.toNat := by
    rw [List.length_drop, length_rawPlain long]
    omega
  have size : (expectedValueLen header ciphertext).toNat =
      payloadSize ciphertext.length - header.keyLen.toNat := by
    simp only [expectedValueLen]
    omega
  unfold decryptValue at ok ⊢
  by_cases present : 0 < expectedValueLen header ciphertext
  · simp only [if_pos present] at ok ⊢
    obtain ⟨ptrEq, filled⟩ := allocateAndDecrypt_ok buffer ok
    rw [ptrEq, filled, size, valuePart, ← len]
    refine ⟨mem.read_store buffer _, ?_, Or.inr ⟨_, rfl⟩⟩
    rintro a rfl
    rfl
  · have zero : payloadSize ciphertext.length - header.keyLen.toNat = 0 := by omega
    simp only [if_neg present]
    refine ⟨?_, ?_, Or.inl trivial⟩
    · rw [zero] at len ⊢
      rw [List.eq_nil_of_length_eq_zero len]
      cases buffer with
      | none => rfl
      | some a => rfl
    · rintro a rfl
      rfl

/-- A successful `decrypt_message` returns the message the ciphertext authentically
carries. -/
theorem decryptMessage_ok (buffer : Option Nat) {n : Nat}
    (ok : (decryptMessage gcm encKey e header ⟨.null, callerPtr buffer, n⟩ mem ciphertext).ret =
      0) :
    ∃ m, openMessage gcm encKey ciphertext = some m ∧
      (decryptMessage gcm encKey e header ⟨.null, callerPtr buffer, n⟩ mem ciphertext).Carries
        buffer m := by
  rw [decryptMessage_eq] at ok ⊢
  split at ok
  · cases ok
  rename_i reads
  split at ok
  · cases ok
  rename_i fits
  rw [if_neg reads, if_neg fits]
  have long : minMsgLen ≤ ciphertext.length := by omega
  have fits' := Nat.le_of_not_gt fits
  obtain ⟨keyOk, valueOk, authentic, result⟩ := decryptBody_inv ok
  obtain ⟨keyAfter, key⟩ := decryptKey_read long fits' keyOk
  obtain ⟨value, caller, memory⟩ := decryptValue_read long fits' valueOk
  have keyLength : (((rawPlain gcm encKey ciphertext).drop headerLen).take
      (rawHeader gcm encKey ciphertext).keyLen.toNat).length =
        (rawHeader gcm encKey ciphertext).keyLen.toNat := by
    rw [List.length_take, List.length_drop, length_rawPlain long]
    omega
  have valueLength : ((rawPlain gcm encKey ciphertext).drop
      (headerLen + (rawHeader gcm encKey ciphertext).keyLen.toNat)).length =
        payloadSize ciphertext.length - (rawHeader gcm encKey ciphertext).keyLen.toNat := by
    rw [List.length_drop, length_rawPlain long]
    omega
  refine ⟨_, openMessage_eq_some long fits' authentic, ?_⟩
  rw [result]
  constructor
  · simp only [Message.header, keyLength, UInt64.ofNat_toNat]
  · exact keyLength.symm
  · simp only [valueLength, expectedValueLen]
    omega
  · dsimp only
    rw [keyLength]
    rcases memory with same | ⟨src, filled⟩
    · rw [same]
      exact key
    · rw [filled]
      exact keyAfter src
  · dsimp only
    rw [valueLength]
    exact value
  · exact caller

/-- When no library call fails, `decrypt_message` succeeds on every ciphertext that
carries a message. -/
theorem decryptMessage_of_open (env : e.Ok) {m : Message}
    (opens : openMessage gcm encKey ciphertext = some m) :
    (decryptMessage gcm encKey e header payload mem ciphertext).ret = 0 := by
  obtain ⟨long, fits, authentic⟩ := openMessage_inv opens
  have reads : e.readsHeader = true := by
    simp [DecEnv.readsHeader, env.ctxNew, env.initEx, env.setTag, env.setIvLen, env.headerUpdate]
  have keyOk : ¬ (decryptKey gcm encKey e (rawHeader gcm encKey ciphertext) payload mem
      ciphertext).ret < 0 := by
    unfold decryptKey
    split
    · exact allocateAndDecrypt_succeeds env.keyMalloc env.keyUpdate _ _ _ _ _
    · exact lt_irrefl 0
  have valueOk : ∀ mem, ¬ (decryptValue gcm encKey e (rawHeader gcm encKey ciphertext) payload mem
      ciphertext).ret < 0 := by
    intro mem
    unfold decryptValue
    split
    · exact allocateAndDecrypt_succeeds env.valueMalloc env.valueUpdate _ _ _ _ _
    · exact lt_irrefl 0
  rw [decryptMessage_eq, if_neg (by simp [reads, long]), if_neg (by omega)]
  unfold decryptBody
  dsimp only
  rw [if_neg keyOk, if_neg (valueOk _), if_neg (by simp [authentic, env.final])]

end Parts

/-! ## `encrypt_message` -/

/-- No library call fails. -/
structure EncEnv.Ok (e : EncEnv) : Prop where
  alloc : e.prealloc = true ∨ e.malloc = true
  ctxNew : e.ctxNew = true
  rand : e.rand ≠ none
  initEx : e.initEx = true
  setIvLen : e.setIvLen = true
  headerUpdate : e.headerUpdate = true
  keyUpdate : ∀ call, e.keyUpdate call = true
  valueUpdate : ∀ call, e.valueUpdate call = true
  final : e.final = true
  getTag : e.getTag = true

/-- The message a header and a payload describe: the lengths agree with the buffers. -/
structure Describes (header : RdmaMsgHeader) (payload : RdmaEncPayload) (m : Message) : Prop where
  seqOp : header.seqOp = m.seqOp
  keyLen : header.keyLen = UInt64.ofNat m.key.length
  keyLt : m.key.length < 2 ^ 64
  key : payload.key = some m.key ∨ payload.key = none ∧ m.key = []
  value : payload.value = some m.value ∨ payload.value = none ∧ m.value = []
  valueLen : payload.valueLen = m.value.length

theorem Describes.keyLen_toNat {header : RdmaMsgHeader} {payload : RdmaEncPayload} {m : Message}
    (d : Describes header payload m) : header.keyLen.toNat = m.key.length := by
  rw [d.keyLen, UInt64.toNat_ofNat']
  exact Nat.mod_eq_of_lt d.keyLt

theorem Describes.header_eq {header : RdmaMsgHeader} {payload : RdmaEncPayload} {m : Message}
    (d : Describes header payload m) : header = m.header := by
  rcases header with ⟨seqOp, keyLen⟩
  have hs : seqOp = m.seqOp := d.seqOp
  have hk : keyLen = UInt64.ofNat m.key.length := d.keyLen
  rw [Message.header, hs, hk]

theorem encryptPart_out {update : Nat → Bool} {ks : Nat → UInt8} {pos : Nat}
    {src : Option Bytes} {bytes : Bytes} (source : src = some bytes ∨ src = none ∧ bytes = [])
    (ok : ¬ (encryptPart update ks pos src bytes.length).ret < 0) :
    (encryptPart update ks pos src bytes.length).out = xorStream ks pos bytes := by
  rcases source with rfl | ⟨rfl, rfl⟩
  · unfold encryptPart at ok ⊢
    by_cases present : 0 < bytes.length
    · simp only [if_pos present, List.take_length] at ok ⊢
      exact cipherUpdate_out ok
    · have empty : bytes = [] := List.eq_nil_of_length_eq_zero (by omega)
      subst empty
      rfl
  · rfl

theorem encryptPart_succeeds {update : Nat → Bool} (updates : ∀ call, update call = true)
    (ks : Nat → UInt8) (pos : Nat) (src : Option Bytes) (len : Nat) :
    ¬ (encryptPart update ks pos src len).ret < 0 := by
  cases src with
  | none => exact lt_irrefl 0
  | some bytes =>
      unfold encryptPart
      dsimp only
      split
      · exact cipherUpdate_succeeds updates ks pos _
      · exact lt_irrefl 0

theorem encryptBody_seals {gcm : AesGcm} {encKey : Bytes} {e : EncEnv} {iv : Iv}
    {header : RdmaMsgHeader} {payload : RdmaEncPayload} {m : Message} {ciphertext : Bytes}
    (d : Describes header payload m)
    (some : encryptBody gcm encKey e iv header payload = some ciphertext) :
    ciphertext = sealMessage gcm encKey iv.bytes m := by
  unfold encryptBody at some
  dsimp only at some
  iterate 3
    split at some
    · cases some
  rw [d.keyLen_toNat, d.valueLen] at some
  split at some
  · cases some
  rename_i keyOk
  rw [encryptPart_out d.key keyOk, length_xorStream] at some
  split at some
  · cases some
  rename_i valueOk
  rw [encryptPart_out d.value valueOk] at some
  iterate 2
    split at some
    · cases some
  have body : xorStream (gcm.keystream encKey iv.bytes) 0 m.plain =
      xorStream (gcm.keystream encKey iv.bytes) 0 header.toBytes ++
        (xorStream (gcm.keystream encKey iv.bytes) headerLen m.key ++
          xorStream (gcm.keystream encKey iv.bytes) (headerLen + m.key.length) m.value) := by
    rw [Message.plain, d.header_eq, xorStream_append, xorStream_append,
      RdmaMsgHeader.length_toBytes, Nat.zero_add]
  rw [← body] at some
  exact (Option.some.inj some).symm

/-- Every ciphertext `encrypt_message` produces is the described message, sealed. -/
theorem encryptMessage_seals {gcm : AesGcm} {encKey : Bytes} {e : EncEnv} {iv : Iv}
    {header : RdmaMsgHeader} {payload : RdmaEncPayload} {m : Message} {ciphertext : Bytes}
    (d : Describes header payload m)
    (some : (encryptMessage gcm encKey e iv header payload).2 = some ciphertext) :
    ∃ used : Iv, ciphertext = sealMessage gcm encKey used.bytes m := by
  unfold encryptMessage at some
  split at some
  · cases some
  split at some
  · cases some
  split at some
  · cases some
  · exact ⟨_, encryptBody_seals d some⟩

/-- When no library call fails, `encrypt_message` succeeds. -/
theorem encryptMessage_succeeds {e : EncEnv} (env : e.Ok) (gcm : AesGcm) (encKey : Bytes) (iv : Iv)
    (header : RdmaMsgHeader) (payload : RdmaEncPayload) :
    ∃ ciphertext, (encryptMessage gcm encKey e iv header payload).2 = some ciphertext := by
  have body : ∀ iv, ∃ ciphertext, encryptBody gcm encKey e iv header payload = some ciphertext := by
    intro iv
    unfold encryptBody
    dsimp only
    rw [if_neg (by simp [env.initEx]), if_neg (by simp [env.setIvLen]),
      if_neg (by simp [env.headerUpdate]), if_neg (encryptPart_succeeds env.keyUpdate _ _ _ _),
      if_neg (encryptPart_succeeds env.valueUpdate _ _ _ _), if_neg (by simp [env.final]),
      if_neg (by simp [env.getTag])]
    exact ⟨_, rfl⟩
  have seeded : ∃ used, (if iv.word = 0 then e.rand else some iv) = some used := by
    split
    · exact Option.ne_none_iff_exists'.mp env.rand
    · exact ⟨iv, rfl⟩
  obtain ⟨used, usedEq⟩ := seeded
  unfold encryptMessage
  rw [if_neg (by rcases env.alloc with h | h <;> simp [h]), if_neg (by simp [env.ctxNew]), usedEq]
  exact body used.nextIv

/-! ## An instance that runs -/

def EncEnv.ok (seed : Iv) : EncEnv :=
  ⟨true, true, true, some seed, true, true, true, fun _ => true, fun _ => true, true, true⟩

theorem EncEnv.ok_ok (seed : Iv) : (EncEnv.ok seed).Ok := by
  constructor <;> intros <;> first | rfl | exact Or.inl rfl | exact Option.some_ne_none seed

/-- An IV that counts from `n`. -/
def Iv.ofNat (n : Nat) : Iv := ⟨UInt64.ofNat n, [0, 0, 0, 0], rfl⟩

/-- A cipher to evaluate the codec with: a keystream of key, IV and position, and a
checksum over everything as the tag. -/
def AesGcm.checksum : AesGcm where
  keystream key iv n :=
    key.getD (n % key.length) 0 ^^^ (iv.getD (n % ivLen) 0 + UInt8.ofNat n)
  mac key iv aad ciphertext := (List.range macLen).map fun i =>
    (key ++ iv ++ aad ++ ciphertext).foldl (fun sum b => sum * 31 + b + UInt8.ofNat i) 0
  mac_length _ _ _ _ := by simp

end NetworkStack
