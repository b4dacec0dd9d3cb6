import NetworkStack.CodecSpec
import NetworkStack.Lib.FlatMemory
import NetworkStack.Lib.SealedFrame

/-!
# The blocks of the one-sided store

`encrypt_key_value_data` and `decrypt_key_value_data` of
`client_server_utils.c`. A block of the store is an IV, the enciphered sequence
number and value, and a tag that also covers the key and the offset of the
entry. Every fallible OpenSSL call reads its outcome from an environment record.
A caller's pointer to a value to store is the memory from that pointer on, and
does not overlap the block.

`sealBlock` and `openBlock` say what the two functions are for.
-/

namespace NetworkStack.OneSided

open ByteStream FlatMemory SealedFrame

/-! ## Format -/

def ivSize : Nat := 12
def seqSize : Nat := 8
def macSize : Nat := 16
def minValueSize : Nat := ivSize + seqSize + macSize

/-- `VALUE_ENTRY_SIZE`, a `size_t` -/
def valueEntrySize (valueSize : UInt64) : UInt64 := UInt64.ofNat minValueSize + valueSize

/-- What client and server keep for each key; `key_size` is the length of `key`. -/
structure LocalKeyInfo : Type where
  sequenceNumber : UInt64
  key : Bytes
  valueOffset : UInt64
deriving DecidableEq

/-- The fields of `ep_data` that the store operations read; `memoryRegion` says whether
a region is registered. -/
structure EndpointData : Type where
  memoryRegion : Bool
  memoryRegionSize : UInt64
  blockSize : UInt64
  encKey : Option Bytes
  encKeyLength : UInt64

/-- The `int` that a `size_t` argument is converted to. -/
def toInt (n : Nat) : Int := Int.bmod n (2 ^ 32)

/-- The `size_t` that an `int` is converted to. -/
def toSizeT (n : Int) : Nat := (n % 2 ^ 64).toNat

/-- `setup_encryption` -/
def setupEncryption (ep : EndpointData) (encKey : Option Bytes) (keyLength maxValueSize : UInt64) :
    EndpointData × Int :=
  let ep := { ep with encKey := encKey }
  match encKey with
  | some _ =>
      if keyLength < 16 then (ep, -1)
      else ({ ep with
        blockSize := valueEntrySize maxValueSize
        encKeyLength := keyLength }, 0)
  | none => ({ ep with
        blockSize := maxValueSize
        encKeyLength := keyLength }, 0)

/-! ## `init_crypt` -/

structure InitEnv : Type where
  setIvLen : Bool
  setKeyLength : Bool
  aadKey : Bool
  aadOffset : Bool

/-- `init_crypt`: the additional data the context holds afterwards. AES-128-GCM has a
fixed key length, so that `EVP_CIPHER_CTX_set_key_length` refuses every other one. -/
def initCrypt (e : InitEnv) (encKeyLength : UInt64) (info : LocalKeyInfo) : Option Bytes :=
  if !e.setIvLen then none
  else if !(e.setKeyLength && toInt encKeyLength.toNat = 16) then none
  else if !(e.aadKey && 0 ≤ toInt info.key.length) then none
  else if !e.aadOffset then none
  else some (info.key.take (toInt info.key.length).toNat ++ toLE 8 info.valueOffset.toNat)

/-! ## `encrypt_key_value_data` -/

/-- An IV as `RAND_bytes` returns it. -/
structure BlockIv : Type where
  bytes : Bytes
  length_bytes : bytes.length = ivSize

structure EncryptEnv : Type where
  rand : Option BlockIv
  ctxNew : Bool
  initEx : Bool
  init : InitEnv
  seqUpdate : Bool
  valueUpdate : Bool
  final : Bool
  getTag : Bool

/-- What `encrypt_key_value_data` leaves: the bytes it wrote from the start of the entry on,
and its return value. -/
structure EncryptOut : Type where
  written : Bytes
  ret : Int
deriving DecidableEq

/-- The third argument of `EVP_EncryptUpdate` for the value. -/
def EndpointData.valueLength (ep : EndpointData) : Int :=
  toInt (ep.blockSize - UInt64.ofNat minValueSize).toNat

/-- The part of `encrypt_key_value_data` after `init_crypt`. OpenSSL takes a negative length for
the number of bytes that it is as a `size_t`: if the call does not refuse it, it runs out of the
value and of the entry, and reports a failure at the end. -/
def encryptEntry (gcm : AesGcm) (encKey iv aad : Bytes) (ep : EndpointData) (e : EncryptEnv)
    (info : LocalKeyInfo) (newValue : Memory) : EncryptOut :=
  let ks := gcm.keystream encKey iv
  if !e.seqUpdate then ⟨iv, -1⟩
  else
    let seq := xorStream ks 0 (toLE seqSize info.sequenceNumber.toNat)
    if !e.valueUpdate then ⟨iv ++ seq, -1⟩
    else if ep.valueLength < 0 then
      ⟨iv ++ (seq ++ xorStream ks seqSize (read newValue 0 (toSizeT ep.valueLength))), -1⟩
    else
      let body := seq ++ xorStream ks seqSize (read newValue 0 ep.valueLength.toNat)
      if !e.final then ⟨iv ++ body, -1⟩
      else if !e.getTag then ⟨iv ++ body, -1⟩
      else ⟨iv ++ (body ++ gcm.mac encKey iv aad body), 0⟩

/-- `encrypt_key_value_data` -/
def encryptKeyValueData (gcm : AesGcm) (ep : EndpointData) (e : EncryptEnv) (info : LocalKeyInfo)
    (newValue : Memory) : EncryptOut :=
  match ep.encKey with
  | none => ⟨read newValue 0 ep.blockSize.toNat, 0⟩
  | some encKey =>
      match e.rand with
      | none => ⟨[], -1⟩
      | some iv =>
          if !e.ctxNew then ⟨iv.bytes, -1⟩
          else if !e.initEx then ⟨iv.bytes, -1⟩
          else
            match initCrypt e.init ep.encKeyLength info with
            | none => ⟨iv.bytes, -1⟩
            | some aad => encryptEntry gcm encKey iv.bytes aad ep e info newValue

/-! ## `decrypt_key_value_data` -/

structure DecryptEnv : Type where
  malloc : Bool
  ctxNew : Bool
  initEx : Bool
  setTag : Bool
  init : InitEnv
  seqUpdate : Bool
  valueUpdate : Bool
  final : Bool

/-- The fields of `struct key_value_data` that are used. -/
structure KeyValueData : Type where
  sequenceNumber : UInt64
  value : Ptr
deriving DecidableEq

/-- What `decrypt_key_value_data` leaves. -/
structure DecryptOut : Type where
  ret : Int
  data : KeyValueData
  mem : Mem

/-- The failing path through `end_decrypt`, which does not reset the pointer it frees. -/
def endDecrypt (data : KeyValueData) (mem : Mem) (toFree : Bool) : DecryptOut :=
  ⟨-1, data, if toFree then mem.free data.value else mem⟩

/-- `EVP_DecryptFinal_ex` compares the tag at the end of the block. -/
def tagMatches (gcm : AesGcm) (encKey aad ciphertext : Bytes) : Bool :=
  gcm.mac encKey (ivOf ivSize ciphertext) aad (bodyOf ivSize macSize ciphertext) =
    tagOf macSize ciphertext

/-- The part of `decrypt_key_value_data` from `finish_decryption` on. -/
def finishDecryption (gcm : AesGcm) (encKey aad : Bytes) (e : DecryptEnv) (ciphertext : Bytes)
    (info : LocalKeyInfo) (data : KeyValueData) (mem : Mem) (toFree : Bool) : DecryptOut :=
  if !(e.final && tagMatches gcm encKey aad ciphertext) then endDecrypt data mem toFree
  else if info.sequenceNumber ≠ data.sequenceNumber then endDecrypt data mem toFree
  else ⟨0, data, mem⟩

/-- The sequence number of a block, authentic or not. -/
def rawSeq (gcm : AesGcm) (encKey ciphertext : Bytes) : UInt64 :=
  UInt64.ofNat (ofLE (xorStream (gcm.keystream encKey (ivOf ivSize ciphertext)) 0
    ((ciphertext.drop ivSize).take seqSize)))

/-- The part of `decrypt_key_value_data` after the sequence number is read. What OpenSSL does
beyond the block and the buffer with a negative length is left out: the call fails. -/
def decryptEntry (gcm : AesGcm) (encKey aad : Bytes) (e : DecryptEnv) (ciphertext : Bytes)
    (info : LocalKeyInfo) (data : KeyValueData) (mem : Mem) : DecryptOut :=
  let valueSize := ciphertext.length - minValueSize
  if valueSize = 0 then
    finishDecryption gcm encKey aad e ciphertext info { data with value := .null } mem false
  else if data.value = .null ∧ e.malloc = false then endDecrypt data mem false
  else
    let toFree := decide (data.value = .null)
    let fresh := mem.malloc valueSize
    let data := if toFree then { data with value := fresh.1 } else data
    let mem := if toFree then fresh.2 else mem
    if !(e.valueUpdate && 0 ≤ toInt valueSize) then endDecrypt data mem toFree
    else
      let plain := xorStream (gcm.keystream encKey (ivOf ivSize ciphertext)) seqSize
        ((ciphertext.drop (ivSize + seqSize)).take (toInt valueSize).toNat)
      let mem := mem.write data.value plain
      if toInt valueSize ≠ valueSize then endDecrypt data mem toFree
      else finishDecryption gcm encKey aad e ciphertext info data mem toFree

/-- `decrypt_key_value_data`; `ciphertext` is the `ciphertext_size` bytes at the pointer. -/
def decryptKeyValueData (gcm : AesGcm) (ep : EndpointData) (e : DecryptEnv) (ciphertext : Bytes)
    (info : LocalKeyInfo) (data : KeyValueData) (mem : Mem) : DecryptOut :=
  if ciphertext.length < minValueSize then ⟨-1, data, mem⟩
  else
    match ep.encKey with
    | none =>
        if data.value = .null ∧ e.malloc = false then ⟨-1, data, mem⟩
        else
          let fresh := mem.malloc ciphertext.length
          let toCopy := if data.value = .null then ({ data with value := fresh.1 }, fresh.2)
            else (data, mem)
          ⟨0, toCopy.1, toCopy.2.write toCopy.1.value ciphertext⟩
    | some encKey =>
        if !e.ctxNew then ⟨-1, data, mem⟩
        else if !e.initEx then endDecrypt data mem false
        else if !e.setTag then endDecrypt data mem false
        else
          match initCrypt e.init ep.encKeyLength info with
          | none => endDecrypt data mem false
          | some aad =>
              if !e.seqUpdate then endDecrypt data mem false
              else
                decryptEntry gcm encKey aad e ciphertext info
                  { data with sequenceNumber := rawSeq gcm encKey ciphertext } mem

end NetworkStack.OneSided
