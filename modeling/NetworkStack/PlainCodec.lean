import NetworkStack.CodecRoundTrip

/-!
# The codec without encryption

`encrypt_message` and `decrypt_message` in the `NO_ENCRYPTION` build: header, key
and value are copied one after the other. Each read from the received bytes is
checked, so that `none` is a read outside of them. `decryptMessage_plain` says
what a decryption leaves for every message, through any buffers and with any
outcome of the allocations; a byte string is accepted exactly when it is the
plaintext of a message.

`builds_agree_iff` compares this build with the encrypting one.
-/

namespace NetworkStack

open ByteStream

/-! ## Headers -/

/-- A header has no other bytes than those it was read from. -/
theorem RdmaMsgHeader.toBytes_ofBytes {bytes : Bytes} (length : bytes.length = headerLen) :
    (RdmaMsgHeader.ofBytes bytes).toBytes = bytes := by
  simp only [headerLen, seqLen, sizeLen] at length
  have low : (bytes.take 8).length = 8 := by
    rw [List.length_take]
    omega
  have high : ((bytes.drop 8).take 8).length = 8 := by
    rw [List.length_take, List.length_drop]
    omega
  have whole : (bytes.drop 8).take 8 = bytes.drop 8 := by
    apply List.take_of_length_le
    rw [List.length_drop]
    omega
  unfold RdmaMsgHeader.toBytes RdmaMsgHeader.ofBytes seqLen sizeLen
  dsimp only
  rw [toLE_ofNat_ofLE low, toLE_ofNat_ofLE high, whole, List.take_append_drop]

theorem Message.header_keyLen {m : Message} (keyLt : m.key.length < 2 ^ 64) :
    m.header.keyLen.toNat = m.key.length := by
  rw [Message.header, UInt64.toNat_ofNat']
  exact Nat.mod_eq_of_lt keyLt

namespace Plain

/-! ## `encrypt_message` -/

def minMsgLen : Nat := seqLen + sizeLen

def ciphertextSize (payloadSize : Nat) : Nat := payloadSize + minMsgLen

/-- The key or the value of a message: copied if there is a length and a buffer. -/
def copyPart (src : Option Bytes) (len : Nat) : Bytes :=
  match src with
  | some bytes => if 0 < len then bytes.take len else []
  | none => []

/-- `encrypt_message`: the bytes written, unless -1 is returned. -/
def encryptMessage (prealloc malloc : Bool) (header : RdmaMsgHeader) (payload : RdmaEncPayload) :
    Option Bytes :=
  if !prealloc && !malloc then none
  else some (header.toBytes ++
    (copyPart payload.key header.keyLen.toNat ++ copyPart payload.value payload.valueLen))

/-! ## `decrypt_message` -/

/-- `allocate_and_copy`, from position `pos` of the received bytes. -/
def allocateAndCopy (malloc : Bool) (payload : Ptr) (mem : Mem) (ciphertext : Bytes)
    (pos expectedLength : Nat) : Option AllocOut := do
  if payload = .null ∧ malloc = false then return ⟨-1, payload, mem, false⟩
  let src ← readAt ciphertext pos expectedLength
  if payload = .null then
    let fresh := mem.malloc expectedLength
    return ⟨0, fresh.1, fresh.2.write fresh.1 src, true⟩
  return ⟨0, payload, mem.write payload src, false⟩

/-- The part of `decrypt_message` after the key: `left` bytes from `pos` on are the value. A
failed allocation frees the key but leaves the pointer to it, and without a value
`payload->value_len` is not assigned. -/
def decryptValue (valueMalloc : Bool) (header : RdmaMsgHeader) (payload : RdmaDecPayload)
    (mem : Mem) (ciphertext : Bytes) (pos left : Nat) (freeKey : Bool) : Option DecResult := do
  if 0 < left then
    let value ← allocateAndCopy valueMalloc payload.value mem ciphertext pos left
    let payload := { payload with value := value.ptr }
    if value.ret < 0 then
      return ⟨-1, header, payload, if freeKey then value.mem.free payload.key else value.mem⟩
    return ⟨0, header, { payload with valueLen := left }, value.mem⟩
  return ⟨0, header, payload, mem⟩

/-- `decrypt_message`; `none` is a read outside of the received bytes. -/
def decryptMessage (keyMalloc valueMalloc : Bool) (header : RdmaMsgHeader)
    (payload : RdmaDecPayload) (mem : Mem) (ciphertext : Bytes) : Option DecResult := do
  if ciphertext.length < minMsgLen then return ⟨-1, header, payload, mem⟩
  let header := RdmaMsgHeader.ofBytes (← readAt ciphertext 0 headerLen)
  let keyLen := header.keyLen.toNat
  let left := ciphertext.length - headerLen
  if 0 < keyLen then
    if keyLen > left then return ⟨-1, header, payload, mem⟩
    let key ← allocateAndCopy keyMalloc payload.key mem ciphertext headerLen keyLen
    let payload := { payload with key := key.ptr }
    if key.ret < 0 then return ⟨-1, header, payload, key.mem⟩
    decryptValue valueMalloc header payload key.mem ciphertext (headerLen + keyLen)
      (left - keyLen) key.toFree
  else decryptValue valueMalloc header payload mem ciphertext headerLen left false

/-! ## Messages -/

theorem copyPart_eq {src : Option Bytes} {bytes : Bytes}
    (source : src = some bytes ∨ src = none ∧ bytes = []) :
    copyPart src bytes.length = bytes := by
  rcases source with rfl | ⟨rfl, rfl⟩
  · unfold copyPart
    dsimp only
    split
    · exact List.take_length
    · exact (List.eq_nil_of_length_eq_zero (by omega)).symm
  · rfl

/-- What is written for a message is its plaintext. -/
theorem encryptMessage_eq {prealloc malloc : Bool} (alloc : prealloc = true ∨ malloc = true)
    {header : RdmaMsgHeader} {payload : RdmaEncPayload} {m : Message}
    (d : Describes header payload m) :
    encryptMessage prealloc malloc header payload = some m.plain := by
  unfold encryptMessage
  rw [if_neg (by rcases alloc with h | h <;> simp [h]), d.keyLen_toNat, d.valueLen,
    copyPart_eq d.key, copyPart_eq d.value, d.header_eq, Message.plain]

theorem allocateAndCopy_eq (malloc : Bool) (buffer : Option Nat) (mem : Mem) {ciphertext : Bytes}
    {pos : Nat} {src : Bytes} (read : readAt ciphertext pos src.length = some src)
    (nonempty : src ≠ []) :
    allocateAndCopy malloc (callerPtr buffer) mem ciphertext pos src.length =
      some (mem.placed malloc buffer src) := by
  unfold allocateAndCopy
  rw [Mem.placed_of_ne_nil _ _ _ nonempty, read]
  cases buffer with
  | none =>
      have fill := mem.write_malloc src
      cases malloc with
      | false => rfl
      | true =>
          simp only [callerPtr, Bool.true_eq_false, and_false, if_false, if_true,
            Option.bind_eq_bind, Option.bind_some, Option.pure_def, decide_true]
          rw [fill]
          rfl
  | some a => rfl

/-- Where the parts of a message lie in its plaintext. -/
theorem readAt_plain (m : Message) :
    readAt m.plain 0 headerLen = some m.header.toBytes ∧
      readAt m.plain headerLen m.key.length = some m.key ∧
      readAt m.plain (headerLen + m.key.length) m.value.length = some m.value := by
  have length := length_plain m
  have afterHeader : m.plain.drop headerLen = m.key ++ m.value :=
    List.drop_left' (RdmaMsgHeader.length_toBytes _)
  refine ⟨?_, ?_, ?_⟩
  · rw [readAt_of_le (by omega), List.drop_zero, Message.plain,
      List.take_left' (RdmaMsgHeader.length_toBytes _)]
  · rw [readAt_of_le (by omega), afterHeader, List.take_left' rfl]
  · rw [readAt_of_le (by omega), ← List.drop_drop, afterHeader, List.drop_left' rfl,
      List.take_length]

theorem decryptValue_eq (valueMalloc : Bool) (header : RdmaMsgHeader) (key : Ptr)
    (valueBuffer : Option Nat) (valueLen : Nat) (mem : Mem) {ciphertext : Bytes} {pos : Nat}
    {value : Bytes} (read : readAt ciphertext pos value.length = some value) (freeKey : Bool) :
    decryptValue valueMalloc header ⟨key, callerPtr valueBuffer, valueLen⟩ mem ciphertext pos
        value.length freeKey =
      some (if value ≠ [] ∧ valueBuffer = none ∧ valueMalloc = false then
        ⟨-1, header, ⟨key, .null, valueLen⟩, if freeKey then mem.free key else mem⟩
      else ⟨0, header, ⟨key, (mem.place valueBuffer value).1,
        if value = [] then valueLen else value.length⟩, (mem.place valueBuffer value).2⟩) := by
  unfold decryptValue
  by_cases empty : value = []
  · rw [if_neg (by simp [empty]), if_neg (by simp [empty]), if_pos empty, Mem.place, if_pos empty]
    rfl
  · rw [if_pos (List.length_pos_iff.mpr empty), allocateAndCopy_eq _ _ _ read empty]
    simp only [Option.bind_eq_bind, Option.bind_some, Option.pure_def, Mem.placed]
    by_cases noMemory : value ≠ [] ∧ valueBuffer = none ∧ valueMalloc = false
    · simp only [if_pos noMemory]
      rfl
    · simp only [if_neg noMemory, Int.lt_irrefl, if_false, if_neg empty]

/-- What a decryption leaves for the plaintext of a message. -/
theorem decryptMessage_plain {m : Message} (keyLt : m.key.length < 2 ^ 64)
    (keyMalloc valueMalloc : Bool) (header : RdmaMsgHeader) (keyBuffer valueBuffer : Option Nat)
    (valueLen : Nat) (mem : Mem) :
    decryptMessage keyMalloc valueMalloc header
        ⟨callerPtr keyBuffer, callerPtr valueBuffer, valueLen⟩ mem m.plain =
      some (m.decoded .plain keyMalloc valueMalloc keyBuffer valueBuffer valueLen mem) := by
  rcases readAt_plain m with ⟨head, key, value⟩
  have length := length_plain m
  have left : m.plain.length - headerLen = m.key.length + m.value.length := by omega
  unfold decryptMessage
  rw [if_neg (by rw [length, minMsgLen, headerLen]; omega), head]
  simp only [Option.bind_eq_bind, Option.bind_some, RdmaMsgHeader.ofBytes_toBytes,
    Message.header_keyLen keyLt, left]
  unfold Message.decoded
  by_cases empty : m.key = []
  · have zero : m.key.length = 0 := by rw [empty, List.length_nil]
    rw [zero, Nat.add_zero] at value
    rw [zero, if_neg (Nat.lt_irrefl 0), Nat.zero_add, decryptValue_eq _ _ _ _ _ _ value]
    simp [empty, Mem.place]
  · rw [if_pos (List.length_pos_iff.mpr empty), if_neg (by omega),
      allocateAndCopy_eq _ _ _ key empty, Nat.add_sub_cancel_left]
    simp only [Option.bind_some, Mem.placed]
    by_cases noMemory : m.key ≠ [] ∧ keyBuffer = none ∧ keyMalloc = false
    · simp only [if_pos noMemory]
      rfl
    · simp only [if_neg noMemory, Int.lt_irrefl, if_false, decryptValue_eq _ _ _ _ _ _ value]
      simp

/-! ## Accepted byte strings -/

/-- The message in a byte string: a header, as many bytes as it says, and the rest. -/
def messageOf (b : Bytes) : Message :=
  let header := RdmaMsgHeader.ofBytes (b.take headerLen)
  let keyLen := header.keyLen.toNat
  ⟨header.seqOp, (b.drop headerLen).take keyLen, b.drop (headerLen + keyLen)⟩

theorem ofBytes_take_keyLen {b : Bytes} (long : 16 ≤ b.length) :
    (RdmaMsgHeader.ofBytes (b.take headerLen)).keyLen.toNat = ofLE ((b.drop 8).take 8) := by
  have lt := ofLE_lt ((b.drop 8).take 8)
  have eight : ((b.drop 8).take 8).length = 8 := by
    rw [List.length_take, List.length_drop]
    omega
  rw [eight] at lt
  unfold RdmaMsgHeader.ofBytes headerLen seqLen sizeLen
  dsimp only
  rw [List.drop_take, List.take_take, UInt64.toNat_ofNat', Nat.mod_eq_of_lt]
  · rfl
  · exact Nat.lt_of_lt_of_eq lt (by norm_num)

/-- A byte string whose stored key length fits is the plaintext of the message in it. -/
theorem plain_messageOf {b : Bytes} (long : 16 ≤ b.length)
    (fits : ofLE ((b.drop 8).take 8) ≤ b.length - 16) :
    (messageOf b).plain = b ∧ (messageOf b).key.length < 2 ^ 64 := by
  rw [← ofBytes_take_keyLen long] at fits
  have headerLength : (b.take headerLen).length = headerLen := by
    rw [List.length_take]
    exact Nat.min_eq_left long
  have keyLength : (messageOf b).key.length =
      (RdmaMsgHeader.ofBytes (b.take headerLen)).keyLen.toNat := by
    rw [messageOf, List.length_take, List.length_drop]
    exact Nat.min_eq_left fits
  have header : (messageOf b).header = RdmaMsgHeader.ofBytes (b.take headerLen) := by
    rw [Message.header, keyLength, UInt64.ofNat_toNat]
    rfl
  refine ⟨?_, ?_⟩
  · rw [Message.plain, header, RdmaMsgHeader.toBytes_ofBytes headerLength, messageOf]
    dsimp only
    rw [← List.drop_drop, List.take_append_drop, List.take_append_drop]
  · rw [keyLength]
    exact UInt64.toNat_lt _

/-- Any other byte string is refused, with nothing read outside of it. -/
theorem decryptMessage_refuses (keyMalloc valueMalloc : Bool) (header : RdmaMsgHeader)
    (payload : RdmaDecPayload) (mem : Mem) {b : Bytes}
    (unfit : ¬ (16 ≤ b.length ∧ ofLE ((b.drop 8).take 8) ≤ b.length - 16)) :
    ∃ r, decryptMessage keyMalloc valueMalloc header payload mem b = some r ∧ r.ret = -1 := by
  unfold decryptMessage
  by_cases short : b.length < minMsgLen
  · rw [if_pos short]
    exact ⟨_, rfl, rfl⟩
  rw [if_neg short, readAt_of_le (by rw [Nat.zero_add]; exact Nat.le_of_not_lt short),
    List.drop_zero]
  have long : 16 ≤ b.length := Nat.le_of_not_lt short
  have tooLong : (RdmaMsgHeader.ofBytes (b.take headerLen)).keyLen.toNat >
      b.length - headerLen := by
    rw [ofBytes_take_keyLen long]
    exact Nat.lt_of_not_le fun fits => unfit ⟨long, fits⟩
  simp only [Option.bind_eq_bind, Option.bind_some]
  rw [if_pos (Nat.zero_lt_of_lt tooLong), if_pos tooLong]
  exact ⟨_, rfl, rfl⟩

end Plain

/-- What a decryption left, as a payload to send again: null stays null. -/
def RdmaDecPayload.source (payload : RdmaDecPayload) (mem : Mem) (keyLen : Nat) :
    RdmaEncPayload where
  key := if payload.key = .null then none else some (mem.read payload.key keyLen)
  value := if payload.value = .null then none else some (mem.read payload.value payload.valueLen)
  valueLen := payload.valueLen

/-- A result that carries a message describes it. -/
theorem DecResult.Carries.describes {r : DecResult} {m : Message} (carries : r.Carries none m) :
    Describes r.header (r.payload.source r.mem r.header.keyLen.toNat) m := by
  have part : ∀ (ptr : Ptr) (bytes : Bytes), r.mem.read ptr bytes.length = bytes →
      (if ptr = .null then none else some (r.mem.read ptr bytes.length)) = some bytes ∨
        (if ptr = .null then none else some (r.mem.read ptr bytes.length)) = none ∧
          bytes = [] := by
    intro ptr bytes read
    split
    · rename_i null
      rw [null] at read
      exact Or.inr ⟨rfl, read.symm⟩
    · exact Or.inl (congrArg some read)
  constructor
  · rw [carries.header]
    rfl
  · rw [carries.header]
    rfl
  · rw [← carries.keyLen]
    exact UInt64.toNat_lt _
  · rw [carries.keyLen]
    exact part _ _ carries.key
  · rw [RdmaDecPayload.source, carries.valueLen]
    exact part _ _ carries.value
  · exact carries.valueLen

namespace Plain

/-- With memory to allocate and an empty payload struct, the decryption of the plaintext of a
message carries it. -/
theorem decryptMessage_carries {m : Message} (keyLt : m.key.length < 2 ^ 64)
    (before : RdmaMsgHeader) (mem : Mem) :
    ∃ r, decryptMessage true true before ⟨.null, .null, 0⟩ mem m.plain = some r ∧
      r.ret = 0 ∧ r.Carries none m := by
  have apart : Separate none none m.key m.value := by simp [Separate]
  have result := decryptMessage_plain keyLt true true before none none 0 mem
  rcases m.decoded_carries .plain 0 mem rfl rfl apart with
    ⟨ret, head, key, value, len, -, valuePtr⟩
  refine ⟨_, result, ret, head, ?_, ?_, key, value, valuePtr⟩
  · rw [head]
    exact Message.header_keyLen keyLt
  · rw [len]
    by_cases empty : m.value = []
    · rw [if_pos ⟨empty, rfl⟩, empty, List.length_nil]
    · rw [if_neg fun both => empty both.1]

/-- Allocating for an empty payload struct, `decrypt_message` reads inside of any byte string,
accepts those with room for the key length they store, and gives what `encrypt_message` makes
the same bytes of; and it gives back every message that was encoded. -/
theorem decryptMessage_inverts_encryptMessage (before : RdmaMsgHeader) (mem : Mem) :
    (∀ b : Bytes, ∃ r, decryptMessage true true before ⟨.null, .null, 0⟩ mem b = some r ∧
      (r.ret = 0 ↔ 16 ≤ b.length ∧ ofLE ((b.drop 8).take 8) ≤ b.length - 16) ∧
      (r.ret = 0 → ∀ prealloc malloc, prealloc = true ∨ malloc = true →
        encryptMessage prealloc malloc r.header
          (r.payload.source r.mem r.header.keyLen.toNat) = some b)) ∧
    ∀ (header : RdmaMsgHeader) (payload : RdmaEncPayload) (m : Message),
      Describes header payload m → ∀ prealloc malloc, prealloc = true ∨ malloc = true →
      ∃ b r, encryptMessage prealloc malloc header payload = some b ∧
        b.length = ciphertextSize (m.key.length + m.value.length) ∧
        decryptMessage true true before ⟨.null, .null, 0⟩ mem b = some r ∧
        r.ret = 0 ∧ r.header = header ∧ r.Carries none m := by
  refine ⟨?_, ?_⟩
  · intro b
    by_cases accepts : 16 ≤ b.length ∧ ofLE ((b.drop 8).take 8) ≤ b.length - 16
    · rcases plain_messageOf accepts.1 accepts.2 with ⟨plain, keyLt⟩
      obtain ⟨r, result, ret, carries⟩ := decryptMessage_carries keyLt before mem
      rw [plain] at result
      refine ⟨r, result, iff_of_true ret accepts, ?_⟩
      intro _ prealloc malloc alloc
      rw [encryptMessage_eq alloc carries.describes, plain]
    · obtain ⟨r, result, ret⟩ := decryptMessage_refuses true true before ⟨.null, .null, 0⟩ mem
        accepts
      have refused : r.ret ≠ 0 := by
        rw [ret]
        exact Int.neg_ne_zero.mpr one_ne_zero
      exact ⟨r, result, iff_of_false refused accepts, fun zero => (refused zero).elim⟩
  · intro header payload m d prealloc malloc alloc
    obtain ⟨r, result, ret, carries⟩ := decryptMessage_carries d.keyLt before mem
    refine ⟨m.plain, r, encryptMessage_eq alloc d, ?_, result, ret,
      carries.header.trans d.header_eq.symm, carries⟩
    rw [length_plain, ciphertextSize, minMsgLen, headerLen]
    omega

/-- A key of one byte and a value of one byte. -/
theorem decryptMessage_inverts_encryptMessage_short :
    ∃ r, decryptMessage true true ⟨0, 0⟩ ⟨.null, .null, 0⟩ .empty
        (toLE 8 40 ++ toLE 8 1 ++ [7, 8]) = some r ∧
      r.ret = 0 ∧
      encryptMessage false true r.header (r.payload.source r.mem r.header.keyLen.toNat) =
        some (toLE 8 40 ++ toLE 8 1 ++ [7, 8]) := by
  obtain ⟨r, result, accepts, encodes⟩ := (decryptMessage_inverts_encryptMessage ⟨0, 0⟩ .empty).1
    (toLE 8 40 ++ toLE 8 1 ++ [7, 8])
  have ok := accepts.mpr (by decide +kernel)
  exact ⟨r, result, ok, encodes ok false true (Or.inr rfl)⟩

end Plain

/-! ## The two builds -/

/-- Two decryptions of a message return the same to the caller. -/
structure Agree (m : Message) (r s : DecResult) : Prop where
  ret : r.ret = s.ret
  header : r.header = s.header
  key : r.mem.read r.payload.key m.key.length = s.mem.read s.payload.key m.key.length
  value : r.mem.read r.payload.value m.value.length = s.mem.read s.payload.value m.value.length
  valueLen : r.payload.valueLen = s.payload.valueLen

theorem Agree.refl (m : Message) (r : DecResult) : Agree m r r := ⟨rfl, rfl, rfl, rfl, rfl⟩

/-- Nothing is read through a pointer to a block that was freed. -/
theorem Mem.read_free (mem : Mem) (ptr : Ptr) {n : Nat} (block : ∃ b, ptr = .block b) :
    (mem.free ptr).read ptr n = [] := by
  obtain ⟨b, rfl⟩ := block
  simp only [Mem.free, Mem.read, List.getElem?_set]
  split
  · split <;> simp
  · simp_all

/-- What the builds leave for a message differs in `value_len` only, and there when the message
has no value and the decryption gets as far as that. -/
theorem Message.decoded_agree_iff (m : Message) (keyMalloc valueMalloc : Bool)
    (keyBuffer valueBuffer : Option Nat) (valueLen : Nat) (mem : Mem) :
    Agree m
        (m.decoded .encrypting keyMalloc valueMalloc keyBuffer valueBuffer valueLen mem)
        (m.decoded .plain keyMalloc valueMalloc keyBuffer valueBuffer valueLen mem) ↔
      m.value ≠ [] ∨ valueLen = 0 ∨ (m.key ≠ [] ∧ keyBuffer = none ∧ keyMalloc = false) := by
  unfold Message.decoded
  by_cases noKey : m.key ≠ [] ∧ keyBuffer = none ∧ keyMalloc = false
  · simp only [if_pos noKey]
    exact iff_of_true (Agree.refl m _) (Or.inr (Or.inr noKey))
  by_cases noValue : m.value ≠ [] ∧ valueBuffer = none ∧ valueMalloc = false
  · simp only [if_neg noKey, if_pos noValue]
    refine iff_of_true ⟨rfl, rfl, ?_, rfl, rfl⟩ (Or.inl noValue.1)
    by_cases freed : m.key ≠ [] ∧ keyBuffer = none
    · have block : ∃ b, (mem.place keyBuffer m.key).1 = .block b := by
        rw [freed.2, Mem.place, if_neg freed.1]
        exact ⟨_, rfl⟩
      simp only [if_pos freed, and_true, and_false, reduceCtorEq, if_false]
      rw [Mem.read_free _ _ block]
      rfl
    · simp only [freed, false_and, if_false]
  · simp only [if_neg noKey, if_neg noValue]
    have differ : (m.value.length = if m.value = [] then valueLen else m.value.length) ↔
        m.value ≠ [] ∨ valueLen = 0 := by
      by_cases empty : m.value = []
      · simp [empty, eq_comm]
      · simp [empty]
    simp only [reduceCtorEq, and_false, if_false, and_true, noKey, or_false]
    exact ⟨fun agree => differ.mp agree.valueLen, fun same =>
      ⟨rfl, rfl, rfl, rfl, differ.mpr same⟩⟩

/-- With OpenSSL working and the same outcomes of the allocations, the builds return the same for
a message if and only if it has a value, `value_len` was 0 already, or there was no memory for
the key. -/
theorem builds_agree_iff (gcm : AesGcm) (encKey : Bytes) {e : EncEnv} (encOk : e.Ok) {d : DecEnv}
    (decOk : d.CryptoOk) {header : RdmaMsgHeader} {payload : RdmaEncPayload} {m : Message}
    (describes : Describes header payload m) (iv : Iv) (before : RdmaMsgHeader)
    (keyBuffer valueBuffer : Option Nat) (valueLen : Nat) (mem : Mem) :
    ∃ c b s, (encryptMessage gcm encKey e iv header payload).2 = some c ∧
      Plain.encryptMessage e.prealloc e.malloc header payload = some b ∧
      Plain.decryptMessage d.keyMalloc d.valueMalloc before
        ⟨callerPtr keyBuffer, callerPtr valueBuffer, valueLen⟩ mem b = some s ∧
      (Agree m (decryptMessage gcm encKey d before
          ⟨callerPtr keyBuffer, callerPtr valueBuffer, valueLen⟩ mem c) s ↔
        m.value ≠ [] ∨ valueLen = 0 ∨ (m.key ≠ [] ∧ keyBuffer = none ∧ d.keyMalloc = false)) := by
  obtain ⟨c, written⟩ := encryptMessage_succeeds encOk gcm encKey iv header payload
  have opens : openMessage gcm encKey c = some m := by
    rw [encryptMessage_seals_left describes written]
    exact openMessage_sealMessage gcm encKey _ describes.keyLt
  refine ⟨c, m.plain, _, written, Plain.encryptMessage_eq encOk.alloc describes,
    Plain.decryptMessage_plain describes.keyLt .., ?_⟩
  rw [decryptMessage_eq_decoded decOk opens]
  exact m.decoded_agree_iff ..

/-- A message with a value, whatever `value_len` held. -/
theorem builds_agree_short :
    ∃ c s, (encryptMessage .checksum [9, 4] (EncEnv.ok (Iv.ofNat 5)) (Iv.ofNat 0) ⟨40, 2⟩
        ⟨some [1, 2], some [3], 1⟩).2 = some c ∧
      Agree ⟨40, [1, 2], [3]⟩
        (decryptMessage .checksum [9, 4] .ok ⟨0, 0⟩ ⟨.null, .caller 100, 5⟩ .empty c) s := by
  obtain ⟨c, b, s, written, -, -, agree⟩ := builds_agree_iff .checksum [9, 4]
    (EncEnv.ok_ok (Iv.ofNat 5)) DecEnv.ok_ok.cryptoOk
    (show Describes ⟨40, 2⟩ ⟨some [1, 2], some [3], 1⟩ ⟨40, [1, 2], [3]⟩ from
      ⟨rfl, rfl, by decide, Or.inl rfl, Or.inl rfl, rfl⟩)
    (Iv.ofNat 0) ⟨0, 0⟩ none (some 100) 5 .empty
  exact ⟨c, s, written, agree.mpr (Or.inl (by simp))⟩

/-- Without a value, the encrypting build sets `value_len` to 0 and the other leaves what the
struct held. -/
theorem empty_value_len_differs :
    ∃ c b s, (encryptMessage .checksum [9, 4] (EncEnv.ok (Iv.ofNat 5)) (Iv.ofNat 0) ⟨40, 2⟩
        ⟨some [1, 2], none, 0⟩).2 = some c ∧
      Plain.encryptMessage true true ⟨40, 2⟩ ⟨some [1, 2], none, 0⟩ = some b ∧
      Plain.decryptMessage true true ⟨0, 0⟩ ⟨.null, .null, 5⟩ .empty b = some s ∧
      (decryptMessage .checksum [9, 4] .ok ⟨0, 0⟩ ⟨.null, .null, 5⟩ .empty c).payload.valueLen = 0 ∧
      s.payload.valueLen = 5 ∧
      ¬ Agree ⟨40, [1, 2], []⟩
        (decryptMessage .checksum [9, 4] .ok ⟨0, 0⟩ ⟨.null, .null, 5⟩ .empty c) s := by
  have written : (encryptMessage .checksum [9, 4] (EncEnv.ok (Iv.ofNat 5)) (Iv.ofNat 0) ⟨40, 2⟩
      ⟨some [1, 2], none, 0⟩).2 =
        some (sealMessage .checksum [9, 4] (Iv.ofNat 6).bytes ⟨40, [1, 2], []⟩) := by
    decide +kernel
  have encrypting : (decryptMessage .checksum [9, 4] .ok ⟨0, 0⟩ ⟨.null, .null, 5⟩ .empty
      (sealMessage .checksum [9, 4] (Iv.ofNat 6).bytes ⟨40, [1, 2], []⟩)).payload.valueLen = 0 := by
    decide +kernel
  have plain := Plain.decryptMessage_plain (m := ⟨40, [1, 2], []⟩) (by decide) true true ⟨0, 0⟩
    none none 5 .empty
  refine ⟨_, _, _, written, ?_, plain, encrypting, rfl, ?_⟩
  · decide +kernel
  · intro agree
    have same := agree.valueLen
    rw [encrypting] at same
    cases same

end NetworkStack
