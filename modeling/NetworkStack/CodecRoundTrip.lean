import NetworkStack.CodecSpec

/-!
# The round trip through any buffers

`decrypt_message` with NULL or preallocated pointers for key and value, whatever
the payload struct held before. `Message.decoded` is what a decryption leaves,
for each of the two builds: they differ in what a failed allocation of the value
leaves in `payload->key`, and in `value_len` when there is no value.
`decryptMessageChecked` is the same function with each read from the ciphertext
checked against its length: it never fails on one.
-/

namespace NetworkStack

open ByteStream

/-! ## Buffers -/

/-- A part of a message in the caller's buffer or in a new block; an empty part is left out. -/
def Mem.place (mem : Mem) (buffer : Option Nat) (src : Bytes) : Ptr × Mem :=
  if src = [] then (callerPtr buffer, mem) else mem.store buffer src

/-- Two preallocated buffers are apart. -/
def Separate (keyBuffer valueBuffer : Option Nat) (key value : Bytes) : Prop :=
  ∀ a b, keyBuffer = some a → valueBuffer = some b → a + key.length ≤ b ∨ b + value.length ≤ a

theorem Mem.read_nothing (mem : Mem) (ptr : Ptr) : mem.read ptr 0 = [] := by
  cases ptr <;> simp [Mem.read]

/-- A part is read back from where it was placed. -/
theorem Mem.read_place (mem : Mem) (buffer : Option Nat) (src : Bytes) :
    (mem.place buffer src).2.read (mem.place buffer src).1 src.length = src := by
  unfold Mem.place
  split
  · rename_i empty
    rw [empty]
    exact mem.read_nothing _
  · exact mem.read_store buffer src

/-- A pointer of the caller's is the one that is returned. -/
theorem Mem.place_caller (mem : Mem) {buffer : Option Nat} (src : Bytes) :
    ∀ a, buffer = some a → (mem.place buffer src).1 = .caller a := by
  rintro a rfl
  unfold Mem.place
  split <;> rfl

/-- A caller's buffer keeps its bytes when another one is filled that it does not meet. -/
theorem Mem.read_caller_write_disjoint (mem : Mem) {a b n : Nat} (src : Bytes)
    (apart : b + n ≤ a ∨ a + src.length ≤ b) :
    (mem.write (.caller a) src).read (.caller b) n = mem.read (.caller b) n := by
  apply List.map_congr_left
  intro i member
  have lt := List.mem_range.mp member
  simp only [Mem.write]
  rw [if_neg (by omega)]

/-- The key is read back also after the value was placed. -/
theorem Mem.read_place_place (mem : Mem) {keyBuffer valueBuffer : Option Nat} {key value : Bytes}
    (separate : Separate keyBuffer valueBuffer key value) :
    ((mem.place keyBuffer key).2.place valueBuffer value).2.read (mem.place keyBuffer key).1
      key.length = key := by
  have before := mem.read_place keyBuffer key
  by_cases noValue : value = []
  · rw [noValue, Mem.place, if_pos rfl]
    exact before
  by_cases noKey : key = []
  · rw [noKey]
    exact Mem.read_nothing _ _
  rw [Mem.place, if_neg noValue]
  rw [Mem.place, if_neg noKey] at before ⊢
  cases keyBuffer with
  | none =>
      have old : mem.blocks.length < (mem.store none key).2.blocks.length := by
        simp [Mem.store]
      exact (Mem.read_block_store _ valueBuffer value old).trans before
  | some a =>
      cases valueBuffer with
      | none => exact before
      | some b =>
          have apart := separate a b rfl rfl
          exact (Mem.read_caller_write_disjoint _ value apart).trans before

/-! ## What a decryption leaves -/

/-- The two builds of the codec. -/
inductive Build : Type
  | encrypting
  | plain
deriving DecidableEq

/-- What `decrypt_message` leaves for a ciphertext that carries a message. -/
def Message.decoded (build : Build) (m : Message) (keyMalloc valueMalloc : Bool)
    (keyBuffer valueBuffer : Option Nat) (valueLen : Nat) (mem : Mem) : DecResult :=
  if m.key ≠ [] ∧ keyBuffer = none ∧ keyMalloc = false then
    ⟨-1, m.header, ⟨.null, callerPtr valueBuffer, valueLen⟩, mem⟩
  else
    let key := mem.place keyBuffer m.key
    let freeKey := m.key ≠ [] ∧ keyBuffer = none
    if m.value ≠ [] ∧ valueBuffer = none ∧ valueMalloc = false then
      ⟨-1, m.header, ⟨if freeKey ∧ build = .encrypting then .null else key.1, .null, valueLen⟩,
        if freeKey then key.2.free key.1 else key.2⟩
    else
      let value := key.2.place valueBuffer m.value
      ⟨0, m.header,
        ⟨key.1, value.1,
          if m.value = [] ∧ build = .plain then valueLen else m.value.length⟩,
        value.2⟩

/-- With memory for what has to be allocated, the decryption succeeds, and key and value are
read back. -/
theorem Message.decoded_carries (build : Build) (m : Message) {keyMalloc valueMalloc : Bool}
    {keyBuffer valueBuffer : Option Nat} (valueLen : Nat) (mem : Mem)
    (keyAlloc : keyMalloc = true) (valueAlloc : valueMalloc = true)
    (separate : Separate keyBuffer valueBuffer m.key m.value) :
    let r := m.decoded build keyMalloc valueMalloc keyBuffer valueBuffer valueLen mem
    r.ret = 0 ∧ r.header = m.header ∧ r.mem.read r.payload.key m.key.length = m.key ∧
      r.mem.read r.payload.value m.value.length = m.value ∧
      (r.payload.valueLen =
        if m.value = [] ∧ build = .plain then valueLen else m.value.length) ∧
      (∀ a, keyBuffer = some a → r.payload.key = .caller a) ∧
      ∀ a, valueBuffer = some a → r.payload.value = .caller a := by
  unfold Message.decoded
  dsimp only
  rw [if_neg (by simp [keyAlloc]), if_neg (by simp [valueAlloc])]
  exact ⟨rfl, rfl, mem.read_place_place separate, Mem.read_place _ _ _, rfl,
    mem.place_caller m.key, Mem.place_caller _ m.value⟩

/-! ## `decrypt_message` -/

/-- No OpenSSL call fails; an allocation may. -/
structure DecEnv.CryptoOk (e : DecEnv) : Prop where
  readsHeader : e.readsHeader = true
  keyUpdate : ∀ call, e.keyUpdate call = true
  valueUpdate : ∀ call, e.valueUpdate call = true
  final : e.final = true

theorem DecEnv.Ok.cryptoOk {e : DecEnv} (ok : e.Ok) : e.CryptoOk where
  readsHeader := by
    simp [DecEnv.readsHeader, ok.ctxNew, ok.initEx, ok.setTag, ok.setIvLen, ok.headerUpdate]
  keyUpdate := ok.keyUpdate
  valueUpdate := ok.valueUpdate
  final := ok.final

theorem allocateAndDecrypt_eq {update : Nat → Bool} (updates : ∀ call, update call = true)
    (malloc : Bool) (ks : Nat → UInt8) (pos : Nat) (buffer : Option Nat) (mem : Mem)
    (ciphertext : Bytes) :
    allocateAndDecrypt malloc update ks pos (callerPtr buffer) mem ciphertext =
      if buffer = none ∧ malloc = false then ⟨-1, .null, mem, false⟩
      else ⟨0, (mem.store buffer (xorStream ks pos ciphertext)).1,
        (mem.store buffer (xorStream ks pos ciphertext)).2, decide (buffer = none)⟩ := by
  have done := cipherUpdate_succeeds updates ks pos ciphertext
  have out := cipherUpdate_out done
  unfold allocateAndDecrypt
  dsimp only
  rw [out, if_neg done]
  cases buffer with
  | none =>
      have fill := mem.write_malloc (xorStream ks pos ciphertext)
      rw [length_xorStream] at fill
      simp only [callerPtr, true_and, decide_true, if_true]
      rw [fill]
      rfl
  | some a =>
      simp only [callerPtr, reduceCtorEq, false_and, decide_false, Bool.false_eq_true, if_false]
      rfl

section Decrypt

variable {gcm : AesGcm} {encKey : Bytes} {e : DecEnv} {mem : Mem} {ciphertext : Bytes}
  {m : Message}

/-- What the header and the plaintext of a ciphertext that carries a message are. -/
theorem openMessage_parts (opens : openMessage gcm encKey ciphertext = some m) :
    rawHeader gcm encKey ciphertext = m.header ∧
      (rawHeader gcm encKey ciphertext).keyLen.toNat = m.key.length ∧
      ((rawPlain gcm encKey ciphertext).drop headerLen).take m.key.length = m.key ∧
      (rawPlain gcm encKey ciphertext).drop (headerLen + m.key.length) = m.value ∧
      payloadSize ciphertext.length = m.key.length + m.value.length := by
  obtain ⟨long, fits, authentic⟩ := openMessage_inv opens
  rw [openMessage_eq_some long fits authentic] at opens
  obtain rfl := Option.some.inj opens
  have plainLength : (rawPlain gcm encKey ciphertext).length =
      headerLen + payloadSize ciphertext.length := length_rawPlain long
  have keyLength : (((rawPlain gcm encKey ciphertext).drop headerLen).take
      (rawHeader gcm encKey ciphertext).keyLen.toNat).length =
        (rawHeader gcm encKey ciphertext).keyLen.toNat := by
    rw [List.length_take, List.length_drop, plainLength]
    omega
  refine ⟨?_, keyLength.symm, ?_, ?_, ?_⟩
  · simp only [Message.header, keyLength, UInt64.ofNat_toNat]
  · rw [keyLength]
  · rw [keyLength]
  · rw [keyLength, List.length_drop, plainLength]
    omega

/-- What is left of a part of a message: an allocation that failed, or the part in its
place. -/
def Mem.placed (mem : Mem) (malloc : Bool) (buffer : Option Nat) (src : Bytes) : AllocOut :=
  if src ≠ [] ∧ buffer = none ∧ malloc = false then ⟨-1, .null, mem, false⟩
  else ⟨0, (mem.place buffer src).1, (mem.place buffer src).2, decide (src ≠ [] ∧ buffer = none)⟩

theorem Mem.placed_nil (mem : Mem) (malloc : Bool) (buffer : Option Nat) :
    mem.placed malloc buffer [] = ⟨0, callerPtr buffer, mem, false⟩ := by
  simp [Mem.placed, Mem.place]

theorem Mem.placed_of_ne_nil (mem : Mem) (malloc : Bool) (buffer : Option Nat) {src : Bytes}
    (nonempty : src ≠ []) :
    mem.placed malloc buffer src =
      if buffer = none ∧ malloc = false then ⟨-1, .null, mem, false⟩
      else ⟨0, (mem.store buffer src).1, (mem.store buffer src).2, decide (buffer = none)⟩ := by
  simp only [Mem.placed, Mem.place, nonempty, ne_eq, not_false_eq_true, true_and, if_false]

theorem decryptKey_eq_placed (env : e.CryptoOk)
    (opens : openMessage gcm encKey ciphertext = some m) (keyBuffer : Option Nat) (value : Ptr)
    (valueLen : Nat) (mem : Mem) :
    decryptKey gcm encKey e m.header ⟨callerPtr keyBuffer, value, valueLen⟩ mem ciphertext =
      mem.placed e.keyMalloc keyBuffer m.key := by
  obtain ⟨long, fits, -⟩ := openMessage_inv opens
  obtain ⟨headerEq, keyLen, key, -, -⟩ := openMessage_parts opens
  have bytes : xorStream (gcm.keystream encKey (ciphertext.take ivLen)) headerLen
      ((ciphertext.drop (ivLen + headerLen)).take m.key.length) = m.key := by
    rw [keyLen] at fits
    rw [keyPart long fits, key]
  rw [headerEq] at keyLen
  unfold decryptKey
  rw [keyLen]
  by_cases empty : m.key = []
  · rw [empty, Mem.placed_nil, if_neg (by simp)]
  · rw [if_pos (List.length_pos_iff.mpr empty), Mem.placed_of_ne_nil _ _ _ empty,
      allocateAndDecrypt_eq env.keyUpdate, bytes]

theorem decryptValue_eq_placed (env : e.CryptoOk)
    (opens : openMessage gcm encKey ciphertext = some m) (key : Ptr) (valueBuffer : Option Nat)
    (valueLen : Nat) (mem : Mem) :
    decryptValue gcm encKey e m.header ⟨key, callerPtr valueBuffer, valueLen⟩ mem ciphertext =
      mem.placed e.valueMalloc valueBuffer m.value := by
  obtain ⟨headerEq, keyLen, -, value, size⟩ := openMessage_parts opens
  have bytes : xorStream (gcm.keystream encKey (ciphertext.take ivLen))
      (headerLen + m.key.length) ((ciphertext.drop (ivLen + headerLen + m.key.length)).take
        m.value.length) = m.value := by
    have rest : m.value.length = payloadSize ciphertext.length - m.key.length := by omega
    rw [rest, valuePart, value]
  rw [headerEq] at keyLen
  have expected : expectedValueLen m.header ciphertext = m.value.length := by
    rw [expectedValueLen, keyLen, size]
    omega
  unfold decryptValue
  rw [expected, keyLen, Int.toNat_natCast]
  by_cases empty : m.value = []
  · rw [empty, Mem.placed_nil, if_neg (by simp)]
  · have positive := List.length_pos_iff.mpr empty
    rw [if_pos (by omega), Mem.placed_of_ne_nil _ _ _ empty,
      allocateAndDecrypt_eq env.valueUpdate, bytes]

/-- With OpenSSL working, `decrypt_message` of a ciphertext that carries a message leaves what
that message decodes to. -/
theorem decryptMessage_eq_decoded (env : e.CryptoOk)
    (opens : openMessage gcm encKey ciphertext = some m) (header : RdmaMsgHeader)
    (keyBuffer valueBuffer : Option Nat) (valueLen : Nat) (mem : Mem) :
    decryptMessage gcm encKey e header ⟨callerPtr keyBuffer, callerPtr valueBuffer, valueLen⟩ mem
        ciphertext =
      m.decoded .encrypting e.keyMalloc e.valueMalloc keyBuffer valueBuffer valueLen mem := by
  obtain ⟨long, fits, authentic⟩ := openMessage_inv opens
  obtain ⟨headerEq, keyLen, -, -, size⟩ := openMessage_parts opens
  rw [decryptMessage_eq, if_neg (by simp [env.readsHeader, long]), if_neg (by omega), headerEq]
  rw [headerEq] at keyLen
  have expected : (expectedValueLen m.header ciphertext).toNat = m.value.length := by
    rw [expectedValueLen, keyLen, size]
    omega
  unfold decryptBody Message.decoded
  dsimp only
  rw [decryptKey_eq_placed env opens, decryptValue_eq_placed env opens]
  by_cases noKey : m.key ≠ [] ∧ keyBuffer = none ∧ e.keyMalloc = false
  · simp only [Mem.placed, if_pos noKey]
    rfl
  · simp only [if_neg noKey]
    have key : mem.placed e.keyMalloc keyBuffer m.key = ⟨0, (mem.place keyBuffer m.key).1,
        (mem.place keyBuffer m.key).2, decide (m.key ≠ [] ∧ keyBuffer = none)⟩ := by
      rw [Mem.placed, if_neg noKey]
    rw [key]
    dsimp only
    by_cases noValue : m.value ≠ [] ∧ valueBuffer = none ∧ e.valueMalloc = false
    · simp only [Mem.placed, if_pos noValue, Int.lt_irrefl, if_false]
      unfold endDecrypt
      simp
    · simp only [Mem.placed, if_neg noValue, Int.lt_irrefl, if_false, authentic, env.final,
        Bool.and_self, Bool.not_true, Bool.false_eq_true, expected]
      simp

/-- What `decrypt_message` accepts, its header and `value_len` account for in full. -/
theorem decryptMessage_sizes {header : RdmaMsgHeader} {payload : RdmaDecPayload}
    (ok : (decryptMessage gcm encKey e header payload mem ciphertext).ret = 0) :
    minMsgLen ≤ ciphertext.length ∧
      (decryptMessage gcm encKey e header payload mem ciphertext).header.keyLen.toNat +
          (decryptMessage gcm encKey e header payload mem ciphertext).payload.valueLen =
        ciphertext.length - minMsgLen := by
  rw [decryptMessage_eq] at ok ⊢
  split at ok
  · cases ok
  rename_i reads
  split at ok
  · cases ok
  rename_i fits
  rw [if_neg reads, if_neg fits]
  rcases decryptBody_inv ok with ⟨-, -, -, result⟩
  rw [result]
  simp only [expectedValueLen, payloadSize] at fits ⊢
  omega

/-! ## Where `decrypt_message` reads -/

/-- A part of the message at the position reached; nothing is read of an empty one. -/
def readPart (ciphertext : Bytes) (pos len : Nat) : Option Bytes :=
  if 0 < len then readAt ciphertext pos len else some []

/-- The part of `decrypt_message` after the check of the key length, with checked reads. The
tag is computed over what went through the cipher. -/
def decryptBodyChecked (gcm : AesGcm) (encKey : Bytes) (e : DecEnv) (iv tag head : Bytes)
    (header : RdmaMsgHeader) (payload : RdmaDecPayload) (mem : Mem) (ciphertext : Bytes) :
    Option DecResult := do
  let ks := gcm.keystream encKey iv
  let keyLen := header.keyLen.toNat
  let valueLen := expectedValueLen header ciphertext
  let keyBytes ← readPart ciphertext (ivLen + headerLen) keyLen
  let key :=
    if 0 < keyLen then
      allocateAndDecrypt e.keyMalloc e.keyUpdate ks headerLen payload.key mem keyBytes
    else ⟨0, payload.key, mem, false⟩
  if key.ret < 0 then
    return endDecrypt header { payload with key := key.ptr } key.mem key.toFree false
  let valueBytes ← readPart ciphertext (ivLen + headerLen + keyLen) valueLen.toNat
  let value :=
    if 0 < valueLen then
      allocateAndDecrypt e.valueMalloc e.valueUpdate ks (headerLen + keyLen) payload.value key.mem
        valueBytes
    else ⟨0, payload.value, key.mem, false⟩
  let payload := { payload with key := key.ptr, value := value.ptr }
  if value.ret < 0 then return endDecrypt header payload value.mem key.toFree value.toFree
  if !(gcm.mac encKey iv [] (head ++ (keyBytes ++ valueBytes)) = tag && e.final) then
    return endDecrypt header payload value.mem key.toFree value.toFree
  return ⟨0, header, { payload with valueLen := valueLen.toNat }, value.mem⟩

/-- `decrypt_message` with each read from the ciphertext checked against its length; `none`
is a read outside of it. -/
def decryptMessageChecked (gcm : AesGcm) (encKey : Bytes) (e : DecEnv) (header : RdmaMsgHeader)
    (payload : RdmaDecPayload) (mem : Mem) (ciphertext : Bytes) : Option DecResult := do
  if ciphertext.length < minMsgLen then return ⟨-1, header, payload, mem⟩
  if !e.ctxNew then return ⟨-1, header, payload, mem⟩
  let iv ← readAt ciphertext 0 ivLen
  if !e.initEx then return ⟨-1, header, payload, mem⟩
  let tag ← readAt ciphertext (ciphertext.length - macLen) macLen
  if !e.setTag then return ⟨-1, header, payload, mem⟩
  if !e.setIvLen then return ⟨-1, header, payload, mem⟩
  let head ← readAt ciphertext ivLen headerLen
  if !e.headerUpdate then return ⟨-1, header, payload, mem⟩
  let header := RdmaMsgHeader.ofBytes (xorStream (gcm.keystream encKey iv) 0 head)
  if header.keyLen.toNat > payloadSize ciphertext.length then return ⟨-1, header, payload, mem⟩
  decryptBodyChecked gcm encKey e iv tag head header payload mem ciphertext

theorem readPart_of_le {pos len : Nat} (inside : pos + len ≤ ciphertext.length) :
    readPart ciphertext pos len = some ((ciphertext.drop pos).take len) := by
  unfold readPart
  split
  · exact readAt_of_le inside
  · have zero : len = 0 := by omega
    rw [zero, List.take_zero]

/-- Header, key and value as they are read make up the authenticated body. -/
theorem body_eq_parts (long : minMsgLen ≤ ciphertext.length) {keyLen : Nat}
    (fits : keyLen ≤ payloadSize ciphertext.length) :
    (ciphertext.drop ivLen).take headerLen ++
        ((ciphertext.drop (ivLen + headerLen)).take keyLen ++
          (ciphertext.drop (ivLen + headerLen + keyLen)).take
            (payloadSize ciphertext.length - keyLen)) =
      (ciphertext.drop ivLen).take (ciphertext.length - ivLen - macLen) := by
  have split : ciphertext.length - ivLen - macLen =
      headerLen + (keyLen + (payloadSize ciphertext.length - keyLen)) := by
    simp only [minMsgLen, payloadSize, headerLen] at long fits ⊢
    omega
  rw [split, List.take_add, List.drop_drop, List.take_add, List.drop_drop]

theorem decryptBodyChecked_eq (gcm : AesGcm) (encKey : Bytes) (e : DecEnv)
    {header : RdmaMsgHeader} (payload : RdmaDecPayload) (mem : Mem)
    (long : minMsgLen ≤ ciphertext.length)
    (fits : header.keyLen.toNat ≤ payloadSize ciphertext.length) :
    decryptBodyChecked gcm encKey e (ciphertext.take ivLen)
        (ciphertext.drop (ciphertext.length - macLen)) ((ciphertext.drop ivLen).take headerLen)
        header payload mem ciphertext =
      some (decryptBody gcm encKey e header payload mem ciphertext) := by
  have valueLen : (expectedValueLen header ciphertext).toNat =
      payloadSize ciphertext.length - header.keyLen.toNat := by
    rw [expectedValueLen]
    omega
  have key : (if 0 < header.keyLen.toNat then allocateAndDecrypt e.keyMalloc e.keyUpdate
      (gcm.keystream encKey (ciphertext.take ivLen)) headerLen payload.key mem
      ((ciphertext.drop (ivLen + headerLen)).take header.keyLen.toNat)
        else ⟨0, payload.key, mem, false⟩) =
      decryptKey gcm encKey e header payload mem ciphertext := rfl
  have value : ∀ mem, (if 0 < expectedValueLen header ciphertext then
      allocateAndDecrypt e.valueMalloc e.valueUpdate
        (gcm.keystream encKey (ciphertext.take ivLen)) (headerLen + header.keyLen.toNat)
        payload.value mem ((ciphertext.drop (ivLen + headerLen + header.keyLen.toNat)).take
          (expectedValueLen header ciphertext).toNat)
        else ⟨0, payload.value, mem, false⟩) =
      decryptValue gcm encKey e header payload mem ciphertext := fun _ => rfl
  have authenticated : decide (gcm.mac encKey (ciphertext.take ivLen) []
      ((ciphertext.drop ivLen).take headerLen ++
        ((ciphertext.drop (ivLen + headerLen)).take header.keyLen.toNat ++
          (ciphertext.drop (ivLen + headerLen + header.keyLen.toNat)).take
            (expectedValueLen header ciphertext).toNat)) =
      ciphertext.drop (ciphertext.length - macLen)) = tagMatches gcm encKey ciphertext := by
    rw [valueLen, body_eq_parts long fits]
    rfl
  have keyInside : ivLen + headerLen + header.keyLen.toNat ≤ ciphertext.length := by
    simp only [minMsgLen, payloadSize, headerLen] at long fits ⊢
    omega
  have valueInside : ivLen + headerLen + header.keyLen.toNat +
      (expectedValueLen header ciphertext).toNat ≤ ciphertext.length := by
    rw [valueLen]
    simp only [minMsgLen, payloadSize, headerLen] at long fits ⊢
    omega
  unfold decryptBodyChecked decryptBody
  dsimp only
  rw [readPart_of_le keyInside, readPart_of_le valueInside]
  simp only [Option.bind_eq_bind, Option.bind_some, Option.pure_def]
  rw [key]
  split
  · rfl
  rw [value, authenticated]
  split
  · rfl
  split <;> rfl

/-- No read of `decrypt_message` leaves the ciphertext. -/
theorem decryptMessageChecked_eq (gcm : AesGcm) (encKey : Bytes) (e : DecEnv)
    (header : RdmaMsgHeader) (payload : RdmaDecPayload) (mem : Mem) (ciphertext : Bytes) :
    decryptMessageChecked gcm encKey e header payload mem ciphertext =
      some (decryptMessage gcm encKey e header payload mem ciphertext) := by
  by_cases short : ciphertext.length < minMsgLen
  · unfold decryptMessageChecked decryptMessage
    rw [if_pos short, if_pos short]
    rfl
  have long := Nat.le_of_not_lt short
  have size := long
  simp only [minMsgLen] at size
  have whole : (ciphertext.drop (ciphertext.length - macLen)).take macLen =
      ciphertext.drop (ciphertext.length - macLen) := by
    apply List.take_of_length_le
    rw [List.length_drop]
    omega
  unfold decryptMessageChecked decryptMessage
  rw [readAt_of_le (by omega), readAt_of_le (by omega),
    readAt_of_le (by simp only [headerLen]; omega), whole, List.drop_zero]
  simp only [Option.bind_eq_bind, Option.bind_some, Option.pure_def, if_neg short]
  iterate 5
    split
    · rfl
  change (if (rawHeader gcm encKey ciphertext).keyLen.toNat > payloadSize ciphertext.length then _
    else _) = some (if (rawHeader gcm encKey ciphertext).keyLen.toNat >
      payloadSize ciphertext.length then _ else _)
  split
  · rfl
  · rename_i fits
    exact decryptBodyChecked_eq gcm encKey e payload mem long (Nat.le_of_not_gt fits)

end Decrypt

/-! ## The round trip -/

/-- The IV that `encrypt_message` leaves is the one its ciphertext starts with. -/
theorem encryptMessage_seals_left {gcm : AesGcm} {encKey : Bytes} {e : EncEnv} {iv : Iv}
    {header : RdmaMsgHeader} {payload : RdmaEncPayload} {m : Message} {ciphertext : Bytes}
    (d : Describes header payload m)
    (some : (encryptMessage gcm encKey e iv header payload).2 = some ciphertext) :
    ciphertext =
      sealMessage gcm encKey (encryptMessage gcm encKey e iv header payload).1.bytes m := by
  unfold encryptMessage at some ⊢
  split at some
  · cases some
  rename_i allocated
  split at some
  · cases some
  rename_i context
  rw [if_neg allocated, if_neg context]
  split at some
  · cases some
  · exact encryptBody_seals d some

/-- With no failing call, `encrypt_message` writes IV, body and tag of the described message, and
`decrypt_message` gives that message back through any buffers, whatever the two structs held
before. Whatever bytes it accepts are accounted for by the two lengths it returns, and it reads
inside the ciphertext only. -/
theorem decryptMessage_encryptMessage (gcm : AesGcm) (encKey : Bytes) :
    (∀ (e : EncEnv) (iv : Iv) (header : RdmaMsgHeader) (payload : RdmaEncPayload) (m : Message),
      e.Ok → Describes header payload m →
      ∃ used ciphertext,
        encryptMessage gcm encKey e iv header payload = (used, some ciphertext) ∧
        ciphertext = sealMessage gcm encKey used.bytes m ∧
        ciphertext.length = ciphertextSize (m.key.length + m.value.length) ∧
        ∀ (d : DecEnv) (before : RdmaMsgHeader) (keyBuffer valueBuffer : Option Nat)
          (valueLen : Nat) (mem : Mem),
          d.Ok → Separate keyBuffer valueBuffer m.key m.value →
          let r := decryptMessage gcm encKey d before
            ⟨callerPtr keyBuffer, callerPtr valueBuffer, valueLen⟩ mem ciphertext
          r.ret = 0 ∧ r.header = header ∧ r.Carries valueBuffer m ∧
            ∀ a, keyBuffer = some a → r.payload.key = .caller a) ∧
    ∀ (d : DecEnv) (before : RdmaMsgHeader) (payload : RdmaDecPayload) (mem : Mem)
      (ciphertext : Bytes),
      let r := decryptMessage gcm encKey d before payload mem ciphertext
      decryptMessageChecked gcm encKey d before payload mem ciphertext = some r ∧
        (r.ret = 0 → minMsgLen ≤ ciphertext.length ∧
          r.header.keyLen.toNat + r.payload.valueLen = ciphertext.length - minMsgLen) := by
  refine ⟨?_, ?_⟩
  · intro e iv header payload m env d
    obtain ⟨ciphertext, written⟩ := encryptMessage_succeeds env gcm encKey iv header payload
    have sealed := encryptMessage_seals_left d written
    have opens : openMessage gcm encKey ciphertext = some m := by
      rw [sealed]
      exact openMessage_sealMessage gcm encKey _ d.keyLt
    refine ⟨_, ciphertext, Prod.ext rfl written, sealed, ?_, ?_⟩
    · rw [sealed]
      exact length_sealMessage gcm encKey _ m
    intro dec before keyBuffer valueBuffer valueLen mem decOk separate
    have result := decryptMessage_eq_decoded decOk.cryptoOk opens before keyBuffer valueBuffer
      valueLen mem
    rcases Message.decoded_carries .encrypting m valueLen mem decOk.keyMalloc decOk.valueMalloc
      separate with ⟨ret, head, key, value, len, keyPtr, valuePtr⟩
    rw [← result] at ret head key value len keyPtr valuePtr
    rw [← d.header_eq] at head
    refine ⟨ret, head, ⟨head.trans d.header_eq, ?_, ?_, key, value, valuePtr⟩, keyPtr⟩
    · rw [head]
      exact d.keyLen_toNat
    · rw [len, if_neg (by simp)]
  · intro d before payload mem ciphertext
    exact ⟨decryptMessageChecked_eq gcm encKey d before payload mem ciphertext,
      decryptMessage_sizes⟩

/-- A key into the caller's buffer, a value into a new block. -/
theorem decryptMessage_encryptMessage_mixed :
    Describes ⟨7, 2⟩ ⟨some [1, 2], some [3], 1⟩ ⟨7, [1, 2], [3]⟩ ∧
      ∃ used ciphertext,
        encryptMessage .checksum [9, 4] (EncEnv.ok (Iv.ofNat 5)) (Iv.ofNat 0) ⟨7, 2⟩
            ⟨some [1, 2], some [3], 1⟩ = (used, some ciphertext) ∧
          (decryptMessage .checksum [9, 4] .ok ⟨0, 0⟩ ⟨.caller 100, .null, 8⟩ .empty
            ciphertext).Carries none ⟨7, [1, 2], [3]⟩ := by
  have describes : Describes ⟨7, 2⟩ ⟨some [1, 2], some [3], 1⟩ ⟨7, [1, 2], [3]⟩ :=
    ⟨rfl, rfl, by decide, Or.inl rfl, Or.inl rfl, rfl⟩
  obtain ⟨used, ciphertext, written, -, -, decrypts⟩ :=
    (decryptMessage_encryptMessage .checksum [9, 4]).1 (EncEnv.ok (Iv.ofNat 5)) (Iv.ofNat 0)
      ⟨7, 2⟩ ⟨some [1, 2], some [3], 1⟩ ⟨7, [1, 2], [3]⟩ (EncEnv.ok_ok _) describes
  have carries := (decrypts .ok ⟨0, 0⟩ (some 100) none 8 .empty DecEnv.ok_ok
    (by simp [Separate])).2.2.1
  exact ⟨describes, used, ciphertext, written, carries⟩

end NetworkStack
