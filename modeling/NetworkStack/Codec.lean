import NetworkStack.Lib.ByteStream
import NetworkStack.SeqOp

/-!
# The message codec

`encrypt_message` and `decrypt_message` of `client_server_common.cpp` in the
encrypting build. OpenSSL and `malloc` are outside the repository: AES-128-GCM
is the parameter `AesGcm` (a keystream for each key and IV, and a tag over the
ciphertext), and every fallible call reads its outcome from an environment
record, so that each exit of the two functions is a case of the model.

`sealMessage` and `openMessage` say what the codec is for, without buffers or
exits; the last section connects the two levels.
-/

namespace NetworkStack

open ByteStream

abbrev Bytes := List UInt8

/-! ## Message format -/

def ivLen : Nat := 12
def macLen : Nat := 16
def seqLen : Nat := 8
def sizeLen : Nat := 8

/-- `sizeof(struct rdma_msg_header)` -/
def headerLen : Nat := seqLen + sizeLen

def minMsgLen : Nat := ivLen + macLen + seqLen + sizeLen

def ciphertextSize (payloadSize : Nat) : Nat := payloadSize + minMsgLen

def payloadSize (ciphertextSize : Nat) : Nat := ciphertextSize - minMsgLen

structure RdmaMsgHeader : Type where
  seqOp : UInt64
  keyLen : UInt64
deriving DecidableEq

/-- The two words of a header as they lie in memory. -/
def RdmaMsgHeader.toBytes (header : RdmaMsgHeader) : Bytes :=
  toLE seqLen header.seqOp.toNat ++ toLE sizeLen header.keyLen.toNat

def RdmaMsgHeader.ofBytes (bytes : Bytes) : RdmaMsgHeader where
  seqOp := UInt64.ofNat (ofLE (bytes.take seqLen))
  keyLen := UInt64.ofNat (ofLE ((bytes.drop seqLen).take sizeLen))

/-- The sending side's payload: a pointer is null or the bytes behind it. -/
structure RdmaEncPayload : Type where
  key : Option Bytes
  value : Option Bytes
  valueLen : Nat

/-! ## Memory of the receiving side -/

/-- A pointer of the receiving side: null, an address of the caller's, or a
block obtained from `malloc`. -/
inductive Ptr : Type
  | null
  | caller (address : Nat)
  | block (number : Nat)
deriving DecidableEq

/-- A buffer the caller passed, or null. -/
def callerPtr : Option Nat → Ptr
  | none => .null
  | some a => .caller a

structure RdmaDecPayload : Type where
  key : Ptr
  value : Ptr
  valueLen : Nat
deriving DecidableEq

/-- The caller's bytes and `size_t` cells, and the blocks handed out so far
(`none` once freed). -/
structure Mem : Type where
  bytes : Nat → UInt8
  sizes : Nat → Nat
  blocks : List (Option Bytes)

def Mem.empty : Mem := ⟨fun _ => 0, fun _ => 0, []⟩

/-- A fresh block; its content is unspecified and never read before it is written. -/
def Mem.malloc (mem : Mem) (size : Nat) : Ptr × Mem :=
  (.block mem.blocks.length, { mem with blocks := mem.blocks ++ [some (List.replicate size 0)] })

def Mem.free (mem : Mem) : Ptr → Mem
  | .block n => { mem with blocks := mem.blocks.set n none }
  | _ => mem

/-- Write a byte string at the start of a buffer. -/
def Mem.write (mem : Mem) (ptr : Ptr) (src : Bytes) : Mem :=
  match ptr with
  | .null => mem
  | .caller a => { mem with
      bytes := fun x => if a ≤ x ∧ x < a + src.length then src.getD (x - a) 0 else mem.bytes x }
  | .block n => { mem with
      blocks := mem.blocks.modify n (Option.map fun old => src ++ old.drop src.length) }

/-- The first `n` bytes behind a pointer. -/
def Mem.read (mem : Mem) (ptr : Ptr) (n : Nat) : Bytes :=
  match ptr with
  | .null => []
  | .caller a => (List.range n).map fun i => mem.bytes (a + i)
  | .block b => ((mem.blocks[b]?).join.getD []).take n

/-! ## OpenSSL -/

/-- AES-128-GCM: the keystream of a key and IV, and the authentication tag of a
key, IV, additional data and ciphertext. -/
structure AesGcm : Type where
  keystream : Bytes → Bytes → Nat → UInt8
  mac : Bytes → Bytes → Bytes → Bytes → Bytes
  mac_length : ∀ key iv aad ciphertext, (mac key iv aad ciphertext).length = macLen

/-- What `cipher_update` leaves: the bytes written to `out` and its return value. -/
structure CipherOut : Type where
  out : Bytes
  ret : Int

def int32Max : Nat := 2 ^ 31 - 1

/-- The loop of `cipher_update` with `total` bytes processed. `report call n` is
the outcome of one `EVP_CipherUpdate` over `n` bytes: a failure, or the number
of bytes it says it processed. A call that reports nothing processed would be
repeated forever, so the fuel bounds the number of calls by the input size. -/
def cipherUpdateLoop (report : Nat → Nat → Option Int) (ks : Nat → UInt8) (pos : Nat)
    (input : Bytes) : Nat → Nat → Nat → CipherOut
  | 0, _, total => ⟨[], if total ≠ input.length then -1 else 0⟩
  | fuel + 1, call, total =>
      if total < input.length then
        match report call (min int32Max (input.length - total)) with
        | none => ⟨[], -1⟩
        | some processed =>
            if processed < 0 then ⟨[], -1⟩
            else
              let rest := cipherUpdateLoop report ks pos input fuel (call + 1)
                (total + processed.toNat)
              ⟨xorStream ks (pos + total) ((input.drop total).take processed.toNat) ++ rest.out,
                rest.ret⟩
      else ⟨[], if total ≠ input.length then -1 else 0⟩

/-- `cipher_update`, from keystream position `pos` on. -/
def cipherUpdate (report : Nat → Nat → Option Int) (ks : Nat → UInt8) (pos : Nat)
    (input : Bytes) : CipherOut :=
  cipherUpdateLoop report ks pos input input.length 0 0

/-- A GCM update either fails or processes everything it is given. -/
def gcmReport (ok : Nat → Bool) (call n : Nat) : Option Int :=
  if ok call then some n else none

/-! ## `encrypt_message` -/

/-- The global IV: its first word is the counter, zero while it is not seeded. -/
structure Iv : Type where
  word : UInt64
  rest : Bytes
  rest_length : rest.length = 4

def Iv.bytes (iv : Iv) : Bytes := toLE 8 iv.word.toNat ++ iv.rest

/-- `next_iv` -/
def Iv.nextIv (iv : Iv) : Iv := { iv with word := iv.word + 1 }

@[simp] theorem Iv.length_bytes (iv : Iv) : iv.bytes.length = ivLen := by
  simp [Iv.bytes, iv.rest_length, ivLen]

/-- Outcomes of the fallible calls of one `encrypt_message`. -/
structure EncEnv : Type where
  prealloc : Bool
  malloc : Bool
  ctxNew : Bool
  rand : Option Iv
  initEx : Bool
  setIvLen : Bool
  headerUpdate : Bool
  keyUpdate : Nat → Bool
  valueUpdate : Nat → Bool
  final : Bool
  getTag : Bool

/-- The key or the value of a message: encrypted if there is a length and a buffer. -/
def encryptPart (update : Nat → Bool) (ks : Nat → UInt8) (pos : Nat) (src : Option Bytes)
    (len : Nat) : CipherOut :=
  match src with
  | some bytes =>
      if 0 < len then cipherUpdate (gcmReport update) ks pos (bytes.take len) else ⟨[], 0⟩
  | none => ⟨[], 0⟩

/-- The part of `encrypt_message` after the IV is chosen. -/
def encryptBody (gcm : AesGcm) (encKey : Bytes) (e : EncEnv) (iv : Iv)
    (header : RdmaMsgHeader) (payload : RdmaEncPayload) : Option Bytes :=
  if !e.initEx then none
  else if !e.setIvLen then none
  else if !e.headerUpdate then none
  else
    let ks := gcm.keystream encKey iv.bytes
    let head := xorStream ks 0 header.toBytes
    let key := encryptPart e.keyUpdate ks headerLen payload.key header.keyLen.toNat
    if key.ret < 0 then none
    else
      let value := encryptPart e.valueUpdate ks (headerLen + key.out.length) payload.value
        payload.valueLen
      if value.ret < 0 then none
      else if !e.final then none
      else if !e.getTag then none
      else
        let body := head ++ (key.out ++ value.out)
        some (iv.bytes ++ (body ++ gcm.mac encKey iv.bytes [] body))

/-- `encrypt_message`: the global IV afterwards, and the ciphertext unless -1 is
returned. -/
def encryptMessage (gcm : AesGcm) (encKey : Bytes) (e : EncEnv) (iv : Iv)
    (header : RdmaMsgHeader) (payload : RdmaEncPayload) : Iv × Option Bytes :=
  if !e.prealloc && !e.malloc then (iv, none)
  else if !e.ctxNew then (iv, none)
  else
    match if iv.word = 0 then e.rand else some iv with
    | none => (iv, none)
    | some seeded => (seeded.nextIv, encryptBody gcm encKey e seeded.nextIv header payload)

/-! ## `decrypt_message` -/

/-- Outcomes of the fallible calls of one `decrypt_message`. -/
structure DecEnv : Type where
  ctxNew : Bool
  initEx : Bool
  setTag : Bool
  setIvLen : Bool
  headerUpdate : Bool
  keyMalloc : Bool
  keyUpdate : Nat → Bool
  valueMalloc : Bool
  valueUpdate : Nat → Bool
  final : Bool

/-- What `allocate_and_decrypt` leaves behind. -/
structure AllocOut : Type where
  ret : Int
  ptr : Ptr
  mem : Mem
  toFree : Bool

/-- `allocate_and_decrypt` -/
def allocateAndDecrypt (malloc : Bool) (update : Nat → Bool) (ks : Nat → UInt8) (pos : Nat)
    (payload : Ptr) (mem : Mem) (ciphertext : Bytes) : AllocOut :=
  if payload = .null ∧ malloc = false then ⟨-1, payload, mem, false⟩
  else
    let fresh := mem.malloc ciphertext.length
    let toFree := decide (payload = .null)
    let ptr := if toFree then fresh.1 else payload
    let mem := if toFree then fresh.2 else mem
    let r := cipherUpdate (gcmReport update) ks pos ciphertext
    let mem := mem.write ptr r.out
    if r.ret < 0 then
      if toFree then ⟨-1, .null, mem.free ptr, false⟩ else ⟨-1, ptr, mem, false⟩
    else ⟨0, ptr, mem, toFree⟩

/-- What `decrypt_message` leaves behind. -/
structure DecResult : Type where
  ret : Int
  header : RdmaMsgHeader
  payload : RdmaDecPayload
  mem : Mem

/-- The failing path through `end_decrypt`. -/
def endDecrypt (header : RdmaMsgHeader) (payload : RdmaDecPayload) (mem : Mem)
    (freeKey freeValue : Bool) : DecResult :=
  let mem := if freeKey then mem.free payload.key else mem
  let mem := if freeValue then mem.free payload.value else mem
  { ret := -1
    header := header
    payload := { payload with
      key := if freeKey then .null else payload.key
      value := if freeValue then .null else payload.value }
    mem := mem }

/-- The header as `decrypt_message` reads it, before anything is authenticated. -/
def rawHeader (gcm : AesGcm) (encKey ciphertext : Bytes) : RdmaMsgHeader :=
  .ofBytes (xorStream (gcm.keystream encKey (ciphertext.take ivLen)) 0
    ((ciphertext.drop ivLen).take headerLen))

/-- The key of a message: decrypted unless `header->key_len` is 0. -/
def decryptKey (gcm : AesGcm) (encKey : Bytes) (e : DecEnv) (header : RdmaMsgHeader)
    (payload : RdmaDecPayload) (mem : Mem) (ciphertext : Bytes) : AllocOut :=
  if 0 < header.keyLen.toNat then
    allocateAndDecrypt e.keyMalloc e.keyUpdate
      (gcm.keystream encKey (ciphertext.take ivLen)) headerLen payload.key mem
      ((ciphertext.drop (ivLen + headerLen)).take header.keyLen.toNat)
  else ⟨0, payload.key, mem, false⟩

/-- `expected_value_len` -/
def expectedValueLen (header : RdmaMsgHeader) (ciphertext : Bytes) : Int :=
  (payloadSize ciphertext.length : Int) - (header.keyLen.toNat : Int)

/-- The value of a message: what is left after the key, unless that is nothing. -/
def decryptValue (gcm : AesGcm) (encKey : Bytes) (e : DecEnv) (header : RdmaMsgHeader)
    (payload : RdmaDecPayload) (mem : Mem) (ciphertext : Bytes) : AllocOut :=
  if 0 < expectedValueLen header ciphertext then
    allocateAndDecrypt e.valueMalloc e.valueUpdate
      (gcm.keystream encKey (ciphertext.take ivLen)) (headerLen + header.keyLen.toNat)
      payload.value mem
      ((ciphertext.drop (ivLen + headerLen + header.keyLen.toNat)).take
        (expectedValueLen header ciphertext).toNat)
  else ⟨0, payload.value, mem, false⟩

/-- `EVP_DecryptFinal_ex` compares the tag at the end of the message. -/
def tagMatches (gcm : AesGcm) (encKey ciphertext : Bytes) : Bool :=
  gcm.mac encKey (ciphertext.take ivLen) []
      ((ciphertext.drop ivLen).take (ciphertext.length - ivLen - macLen)) =
    ciphertext.drop (ciphertext.length - macLen)

/-- The part of `decrypt_message` after the header is read and its key length checked. -/
def decryptBody (gcm : AesGcm) (encKey : Bytes) (e : DecEnv) (header : RdmaMsgHeader)
    (payload : RdmaDecPayload) (mem : Mem) (ciphertext : Bytes) : DecResult :=
  let key := decryptKey gcm encKey e header payload mem ciphertext
  if key.ret < 0 then
    endDecrypt header { payload with key := key.ptr } key.mem key.toFree false
  else
    let value := decryptValue gcm encKey e header payload key.mem ciphertext
    let payload := { payload with key := key.ptr, value := value.ptr }
    if value.ret < 0 then endDecrypt header payload value.mem key.toFree value.toFree
    else if !(tagMatches gcm encKey ciphertext && e.final) then
      endDecrypt header payload value.mem key.toFree value.toFree
    else
      { ret := 0
        header := header
        payload := { payload with valueLen := (expectedValueLen header ciphertext).toNat }
        mem := value.mem }

/-- `decrypt_message`; `header` is the content of the header struct at entry,
which the early exits leave as it is. -/
def decryptMessage (gcm : AesGcm) (encKey : Bytes) (e : DecEnv) (header : RdmaMsgHeader)
    (payload : RdmaDecPayload) (mem : Mem) (ciphertext : Bytes) : DecResult :=
  if ciphertext.length < minMsgLen then ⟨-1, header, payload, mem⟩
  else if !e.ctxNew then ⟨-1, header, payload, mem⟩
  else if !e.initEx then ⟨-1, header, payload, mem⟩
  else if !e.setTag then ⟨-1, header, payload, mem⟩
  else if !e.setIvLen then ⟨-1, header, payload, mem⟩
  else if !e.headerUpdate then ⟨-1, header, payload, mem⟩
  else
    let header := rawHeader gcm encKey ciphertext
    if header.keyLen.toNat > payloadSize ciphertext.length then ⟨-1, header, payload, mem⟩
    else decryptBody gcm encKey e header payload mem ciphertext

end NetworkStack
