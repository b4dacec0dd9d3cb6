import NetworkStack.OneSided.BlockSpec

/-!
# The one-sided store

The store operations of `client_server_utils.c`, `onesided_server.c` and
`onesided_client.c`. `onesided_get` and `onesided_put` take the functions they
are handed as functions on the state they work in. The server encrypts straight
into the store; the client encrypts into `local_buf` and posts an RDMA write of
it. The outcomes of the librpma calls are inputs, and so is whether a posted
transfer took effect although its completion was not reported.
-/

namespace NetworkStack.OneSided

open FlatMemory

/-! ## `onesided_get` and `onesided_put` -/

/-- What a get leaves: the state, the returned pointer and the caller's memory. -/
structure GetOut (σ : Type) : Type where
  state : σ
  value : Ptr
  mem : Mem

section Operations

variable {σ : Type}

/-- `onesided_get`; `readFunction` returns the `block_size` bytes at its buffer. -/
def onesidedGet (gcm : AesGcm) (ep : EndpointData)
    (readFunction : σ → UInt64 → σ × Option Bytes) (e : DecryptEnv) (s : σ) (info : LocalKeyInfo)
    (value : Ptr) (mem : Mem) : GetOut σ :=
  if !ep.memoryRegion then ⟨s, .null, mem⟩
  else
    let r := readFunction s info.valueOffset
    match r.2 with
    | none => ⟨r.1, .null, mem⟩
    | some ciphertext =>
        let out := decryptKeyValueData gcm ep e ciphertext info ⟨0, value⟩ mem
        if out.ret < 0 then ⟨r.1, .null, out.mem⟩ else ⟨r.1, out.data.value, out.mem⟩

/-- `onesided_put`; `place` puts bytes at the start of `ciphertext_buf`. -/
def onesidedPut (gcm : AesGcm) (ep : EndpointData) (place : σ → Bytes → σ)
    (writeFunction : σ → UInt64 → σ × Int) (e : EncryptEnv) (s : σ) (info : LocalKeyInfo)
    (newValue : Memory) : σ × Int :=
  let out := encryptKeyValueData gcm ep e info newValue
  let s := place s out.written
  if out.ret < 0 then (s, -1) else writeFunction s info.valueOffset

end Operations

/-! ## `setup_kv_store` -/

/-- `server_write` -/
def serverWrite {σ : Type} (s : σ) (_ : UInt64) : σ × Int := (s, 0)

/-- The loop of `setup_kv_store` from entry `i` on, with `todo` entries left. -/
def setupLoop (gcm : AesGcm) (ep : EndpointData) (env : Nat → EncryptEnv) (plain : Memory)
    (valueSize : UInt64) (infos : Nat → LocalKeyInfo) : Nat → Nat → Memory → Memory × Int
  | 0, _, dest => (dest, 0)
  | todo + 1, i, dest =>
      let r := onesidedPut gcm ep
        (fun dest src => write dest (UInt64.ofNat i * valueEntrySize valueSize).toNat src)
        serverWrite (env i) dest (infos i)
        (fun x => plain ((UInt64.ofNat i * valueSize).toNat + x))
      if r.2 < 0 then (r.1, -1) else setupLoop gcm ep env plain valueSize infos todo (i + 1) r.1

/-- Where `setup_kv_store` puts the store: into a region of the caller's with its size, or
into a new one, if `malloc_aligned` has memory. -/
inductive Destination : Type
  | caller (region : Memory) (size : UInt64)
  | fresh (region : Option Memory)

def Destination.region (needed : UInt64) : Destination → Option Memory
  | .caller region size => if size < needed then none else some region
  | .fresh region => region

/-- `setup_kv_store`: `ep_data` afterwards, and the store unless NULL is returned. -/
def setupKvStore (gcm : AesGcm) (ep : EndpointData) (env : Nat → EncryptEnv)
    (encKey : Option Bytes) (encKeyLength : UInt64) (dest : Destination) (plain : Memory)
    (numValues valueSize : UInt64) (infos : Nat → LocalKeyInfo) : EndpointData × Option Memory :=
  let ep := { ep with memoryRegionSize := numValues * valueEntrySize valueSize }
  match dest.region ep.memoryRegionSize with
  | none => (ep, none)
  | some region =>
      let ep := { ep with
        blockSize := valueEntrySize valueSize
        encKey := encKey
        encKeyLength := encKeyLength }
      let r := setupLoop gcm ep env plain valueSize infos numValues.toNat 0 region
      (ep, if r.2 < 0 then none else some r.1)

/-! ## Endpoints -/

/-- An endpoint: `ep_data`, the client's `local_buf`, and the store, which is
`key_store_local` on the server and the region behind `shared_remote` on the client. -/
structure Endpoint : Type where
  ep : EndpointData
  localBuf : Memory
  store : Memory

/-- `host_server`, its librpma calls succeeding; the store has been set up before. -/
def hostServer (ep : EndpointData) (sharedRegion : Memory) (maxValSize : UInt64)
    (encKey : Option Bytes) (encKeyLength : UInt64) : Option Endpoint :=
  let r := setupEncryption { ep with memoryRegion := true } encKey encKeyLength maxValSize
  if r.2 < 0 then none else some ⟨r.1, fun _ => 0, sharedRegion⟩

/-- `rdma_client_connect` to a server with the given store, its librpma calls succeeding;
`localBuf` is what `malloc_aligned` returns. -/
def rdmaClientConnect (ep : EndpointData) (localBuf sharedRemote : Memory)
    (encKey : Option Bytes) (encKeyLength maxValSize : UInt64) : Option Endpoint :=
  let r := setupEncryption ep encKey encKeyLength maxValSize
  if r.2 < 0 then none
  else some ⟨{ r.1 with
    memoryRegion := true
    memoryRegionSize := r.1.blockSize }, localBuf, sharedRemote⟩

/-- The `info` that `rdma_put` encrypts with. -/
def LocalKeyInfo.next (info : LocalKeyInfo) : LocalKeyInfo :=
  { info with sequenceNumber := info.sequenceNumber + 1 }

namespace Endpoint

variable (gcm : AesGcm)

/-! ## The server -/

/-- `server_read` -/
def serverRead (s : Endpoint) (offset : UInt64) : Endpoint × Option Bytes :=
  (s, some (read s.store offset.toNat s.ep.blockSize.toNat))

/-- `server_get` -/
def serverGet (e : DecryptEnv) (s : Endpoint) (info : LocalKeyInfo) (value : Ptr) (mem : Mem) :
    GetOut Endpoint :=
  onesidedGet gcm s.ep serverRead e s info value mem

/-- `server_put` -/
def serverPut (e : EncryptEnv) (s : Endpoint) (info : LocalKeyInfo) (newValue : Memory) :
    Endpoint × Int :=
  onesidedPut gcm s.ep
    (fun s src => { s with store := write s.store info.valueOffset.toNat src })
    serverWrite e s info newValue

end Endpoint

/-! ## librpma -/

inductive RpmaOp : Type
  | read
  | write
  | flush
  | send
  | recv
deriving DecidableEq

inductive RpmaConnEvent : Type
  | undefined
  | established
  | closed
  | lost
  | rejected
deriving DecidableEq

def ibvWcSuccess : Nat := 0

/-- Outcomes of the librpma calls of one transfer: the posting call, the wait for its
completion and the completion itself. `landed` says that the transfer takes effect even if
no success is reported. -/
structure TransferEnv : Type where
  post : Bool
  wait : Bool
  completionGet : Bool
  op : RpmaOp
  opStatus : Nat
  landed : Bool
  nextEvent : Option RpmaConnEvent

/-- The completion reports that an operation of kind `op` succeeded. -/
def TransferEnv.completes (e : TransferEnv) (op : RpmaOp) : Bool :=
  e.wait && e.completionGet && e.op = op && e.opStatus = ibvWcSuccess

/-- A posted transfer takes effect when its success is reported, and maybe without. -/
def TransferEnv.takesEffect (e : TransferEnv) (op : RpmaOp) : Bool :=
  e.post && (e.completes op || e.landed)

/-- A transfer of kind `op` that succeeds. -/
def TransferEnv.ok (op : RpmaOp) : TransferEnv :=
  ⟨true, true, true, op, ibvWcSuccess, false, none⟩

namespace Endpoint

variable (gcm : AesGcm)

/-! ## The client -/

/-- `rdma_read_from_server` -/
def rdmaReadFromServer (e : TransferEnv) (s : Endpoint) (srcOffset : UInt64) :
    Endpoint × Option Bytes :=
  let s := if e.takesEffect .read then
      { s with localBuf :=
          write s.localBuf 0 (read s.store srcOffset.toNat s.ep.blockSize.toNat) }
    else s
  let localBuf := read s.localBuf 0 s.ep.blockSize.toNat
  if !e.wait then (s, none)
  else if !e.completionGet then (s, none)
  else if e.op ≠ .read then (s, none)
  else if e.opStatus ≠ ibvWcSuccess then
    match e.nextEvent with
    | none => (s, none)
    | some event =>
        if event = .closed ∨ event = .lost then (s, none) else (s, some localBuf)
  else (s, some localBuf)

/-- `rdma_get` -/
def rdmaGet (t : TransferEnv) (e : DecryptEnv) (s : Endpoint) (info : LocalKeyInfo) (value : Ptr)
    (mem : Mem) : GetOut Endpoint :=
  onesidedGet gcm s.ep (rdmaReadFromServer t) e s info value mem

/-- `rdma_write_to_server` -/
def rdmaWriteToServer (e : TransferEnv) (s : Endpoint) (offset : UInt64) : Endpoint × Int :=
  let s := if e.takesEffect .write then
      { s with store :=
          write s.store offset.toNat (read s.localBuf 0 s.ep.blockSize.toNat) }
    else s
  if !e.post then (s, -1)
  else if !e.wait then (s, -1)
  else if !e.completionGet then (s, -1)
  else if e.op ≠ .write then (s, -1)
  else if e.opStatus ≠ ibvWcSuccess then (s, -1)
  else (s, 0)

/-- `rdma_put`: the endpoint, the caller's `info` and the return value. -/
def rdmaPut (t : TransferEnv) (e : EncryptEnv) (s : Endpoint) (info : LocalKeyInfo)
    (newValue : Memory) : Endpoint × LocalKeyInfo × Int :=
  let info := { info with sequenceNumber := info.sequenceNumber + 1 }
  let r := onesidedPut gcm s.ep (fun s src => { s with localBuf := write s.localBuf 0 src })
    (rdmaWriteToServer t) e s info newValue
  if r.2 < 0 then (r.1, { info with sequenceNumber := info.sequenceNumber - 1 }, -1)
  else (r.1, info, 0)

/-! ## What the operations do -/

variable {gcm : AesGcm} {s : Endpoint} {info : LocalKeyInfo} {newValue : Memory} {mem : Mem}

/-- The block of an entry. -/
def blockAt (s : Endpoint) (info : LocalKeyInfo) : Bytes :=
  read s.store info.valueOffset.toNat s.ep.blockSize.toNat

@[simp] theorem length_blockAt (s : Endpoint) (info : LocalKeyInfo) :
    (s.blockAt info).length = s.ep.blockSize.toNat :=
  length_read ..

theorem serverPut_eq (e : EncryptEnv) :
    s.serverPut gcm e info newValue =
      ({ s with
          store := write s.store info.valueOffset.toNat
            (encryptKeyValueData gcm s.ep e info newValue).written },
        (encryptKeyValueData gcm s.ep e info newValue).ret) := by
  unfold serverPut onesidedPut serverWrite
  dsimp only
  rcases encryptKeyValueData_ret gcm s.ep e info newValue with ok | failed
  · rw [if_neg (by omega), ok]
  · rw [if_pos (by omega), failed]

/-- A write succeeds exactly when it is posted and its success is reported. -/
theorem rdmaWriteToServer_eq (t : TransferEnv) (offset : UInt64) :
    s.rdmaWriteToServer t offset =
      (if t.takesEffect .write then
          { s with store :=
              write s.store offset.toNat (read s.localBuf 0 s.ep.blockSize.toNat) }
        else s,
        if t.post && t.completes .write then 0 else -1) := by
  unfold rdmaWriteToServer TransferEnv.completes
  cases t.post <;> cases t.wait <;> cases t.completionGet <;> by_cases op : t.op = .write <;>
    by_cases status : t.opStatus = ibvWcSuccess <;> simp [op, status]

/-- `rdma_put` stops when the encryption fails, and the store and the caller's `info` are as
before. -/
theorem rdmaPut_of_failed (t : TransferEnv) {e : EncryptEnv}
    (failed : (encryptKeyValueData gcm s.ep e info.next newValue).ret < 0) :
    s.rdmaPut gcm t e info newValue =
      ({ s with
          localBuf := write s.localBuf 0
            (encryptKeyValueData gcm s.ep e info.next newValue).written }, info, -1) := by
  have back : info.sequenceNumber + 1 - 1 = info.sequenceNumber := UInt64.add_sub_cancel ..
  unfold LocalKeyInfo.next at failed ⊢
  unfold rdmaPut onesidedPut
  dsimp only
  rw [back, if_pos failed, if_pos (by simp)]

/-- After an encryption `rdma_put` writes, and takes the sequence number back unless the
write was posted and reported as successful. -/
theorem rdmaPut_of_encrypted (t : TransferEnv) {e : EncryptEnv}
    (encrypted : ¬ (encryptKeyValueData gcm s.ep e info.next newValue).ret < 0) :
    s.rdmaPut gcm t e info newValue =
      ((rdmaWriteToServer t { s with
          localBuf := write s.localBuf 0
            (encryptKeyValueData gcm s.ep e info.next newValue).written } info.valueOffset).1,
        if t.post && t.completes .write then (info.next, 0) else (info, -1)) := by
  have back : info.sequenceNumber + 1 - 1 = info.sequenceNumber := UInt64.add_sub_cancel ..
  unfold LocalKeyInfo.next at encrypted ⊢
  unfold rdmaPut onesidedPut
  dsimp only
  rw [back, if_neg encrypted, rdmaWriteToServer_eq]
  by_cases reported : (t.post && t.completes .write) = true
  · rw [if_pos reported, if_pos reported, if_neg (by simp)]
  · rw [if_neg reported, if_neg reported, if_pos (by simp)]

/-- What `onesided_get` makes of the bytes it read. -/
def decrypted (gcm : AesGcm) (ep : EndpointData) (e : DecryptEnv) (ciphertext : Bytes)
    (info : LocalKeyInfo) (value : Ptr) (mem : Mem) : Ptr × Mem :=
  let out := decryptKeyValueData gcm ep e ciphertext info ⟨0, value⟩ mem
  (if out.ret < 0 then .null else out.data.value, out.mem)

theorem onesidedGet_eq {σ : Type} {ep : EndpointData} (region : ep.memoryRegion = true)
    {readFunction : σ → UInt64 → σ × Option Bytes} {t t' : σ} {ciphertext : Bytes}
    (fetches : readFunction t info.valueOffset = (t', some ciphertext)) (e : DecryptEnv)
    (value : Ptr) :
    onesidedGet gcm ep readFunction e t info value mem =
      let r := decrypted gcm ep e ciphertext info value mem
      ⟨t', r.1, r.2⟩ := by
  unfold onesidedGet decrypted
  simp only [region, Bool.not_true, Bool.false_eq_true, if_false, fetches]
  by_cases failed : (decryptKeyValueData gcm ep e ciphertext info ⟨0, value⟩ mem).ret < 0
  · rw [if_pos failed, if_pos failed]
  · rw [if_neg failed, if_neg failed]

/-- A get that does not return NULL read a block that opens to the sequence number of its
`info`, and returns the value of the block. -/
theorem onesidedGet_value {σ : Type} {ep : EndpointData} {encKey : Bytes}
    (key : ep.encKey = some encKey) {readFunction : σ → UInt64 → σ × Option Bytes}
    {e : DecryptEnv} {t : σ} {buffer : Option Nat}
    (returned : (onesidedGet gcm ep readFunction e t info (callerPtr buffer) mem).value ≠ .null) :
    ∃ ciphertext v, (readFunction t info.valueOffset).2 = some ciphertext ∧
      openBlock gcm encKey info.aad ciphertext = some (info.sequenceNumber, v) ∧
      (onesidedGet gcm ep readFunction e t info (callerPtr buffer) mem).mem.read
        (onesidedGet gcm ep readFunction e t info (callerPtr buffer) mem).value v.length = v := by
  unfold onesidedGet at returned ⊢
  split at returned
  · exact (returned rfl).elim
  rename_i region
  rw [if_neg region]
  dsimp only at returned ⊢
  cases fetched : (readFunction t info.valueOffset).2 with
  | none =>
      rw [fetched] at returned
      exact (returned rfl).elim
  | some ciphertext =>
      simp only [fetched] at returned ⊢
      split at returned
      · exact (returned rfl).elim
      rename_i ok
      rw [if_neg ok]
      have done : (decryptKeyValueData gcm ep e ciphertext info ⟨0, callerPtr buffer⟩ mem).ret =
          0 := by
        rcases decryptKeyValueData_ret gcm ep e ciphertext info ⟨0, callerPtr buffer⟩ mem with
          zero | failed
        · exact zero
        · omega
      obtain ⟨v, opens, -, holds⟩ := decryptKeyValueData_ok key rfl done
      refine ⟨ciphertext, v, rfl, opens, ?_⟩
      unfold DecryptOut.Holds at holds
      split at holds
      · exact (returned holds.1).elim
      · rw [holds.1, holds.2]
        exact mem.read_store buffer v

/-- In plain mode a get that does not return NULL returns the bytes it read. -/
theorem onesidedGet_plain {σ : Type} {ep : EndpointData} (plain : ep.encKey = none)
    {readFunction : σ → UInt64 → σ × Option Bytes} {e : DecryptEnv} {t : σ} {buffer : Option Nat}
    (returned : (onesidedGet gcm ep readFunction e t info (callerPtr buffer) mem).value ≠ .null) :
    ∃ bytes, (readFunction t info.valueOffset).2 = some bytes ∧
      (onesidedGet gcm ep readFunction e t info (callerPtr buffer) mem).mem.read
        (onesidedGet gcm ep readFunction e t info (callerPtr buffer) mem).value bytes.length =
          bytes := by
  unfold onesidedGet at returned ⊢
  split at returned
  · exact (returned rfl).elim
  rename_i region
  rw [if_neg region]
  dsimp only at returned ⊢
  cases fetched : (readFunction t info.valueOffset).2 with
  | none =>
      rw [fetched] at returned
      exact (returned rfl).elim
  | some bytes =>
      simp only [fetched] at returned ⊢
      split at returned
      · exact (returned rfl).elim
      rename_i ok
      rw [if_neg ok]
      refine ⟨bytes, rfl, ?_⟩
      have long : minValueSize ≤ bytes.length := by
        by_contra short
        unfold decryptKeyValueData at ok
        rw [if_pos (by omega)] at ok
        simp at ok
      have allocates : buffer = none → e.malloc = true := by
        rintro rfl
        by_contra failed
        unfold decryptKeyValueData at ok
        rw [if_neg (by omega), plain] at ok
        simp [callerPtr, failed] at ok
      obtain ⟨-, value, memory⟩ :=
        decryptKeyValueData_plain gcm plain info ⟨0, callerPtr buffer⟩ mem rfl allocates long
      rw [value, memory]
      exact mem.read_store buffer bytes

theorem serverGet_eq (region : s.ep.memoryRegion = true) (e : DecryptEnv) (value : Ptr) :
    s.serverGet gcm e info value mem =
      let r := decrypted gcm s.ep e (s.blockAt info) info value mem
      ⟨s, r.1, r.2⟩ :=
  onesidedGet_eq region rfl e value

/-- A read that is posted and whose success is reported fetches the block. -/
theorem rdmaGet_eq (region : s.ep.memoryRegion = true) {t : TransferEnv} (posted : t.post = true)
    (completes : t.completes .read = true) (e : DecryptEnv) (value : Ptr) :
    s.rdmaGet gcm t e info value mem =
      let r := decrypted gcm s.ep e (s.blockAt info) info value mem
      ⟨{ s with localBuf := write s.localBuf 0 (s.blockAt info) }, r.1, r.2⟩ := by
  have effect : t.takesEffect .read = true := by
    simp [TransferEnv.takesEffect, posted, completes]
  have fetched := read_write_self s.localBuf 0 (s.blockAt info)
  rw [length_blockAt] at fetched
  simp only [TransferEnv.completes, Bool.and_eq_true, decide_eq_true_eq] at completes
  obtain ⟨⟨⟨wait, got⟩, op⟩, status⟩ := completes
  have bytes : rdmaReadFromServer t s info.valueOffset =
      ({ s with localBuf := write s.localBuf 0 (s.blockAt info) }, some (s.blockAt info)) := by
    unfold rdmaReadFromServer
    dsimp only
    rw [if_pos effect, if_neg (by simp [wait]), if_neg (by simp [got]), if_neg (by simp [op]),
      if_neg (by simp [status])]
    exact congrArg (fun bytes => (_, some bytes)) fetched
  exact onesidedGet_eq region bytes e value

end Endpoint

/-! ## Either endpoint -/

inductive Role : Type
  | client
  | server
deriving DecidableEq

/-- The transfer is posted and its success is reported. -/
def TransferEnv.Succeeds (t : TransferEnv) (op : RpmaOp) : Prop :=
  t.post = true ∧ t.completes op = true

/-- `rdma_put` or `server_put` -/
def Role.put (gcm : AesGcm) (t : TransferEnv) (e : EncryptEnv) (s : Endpoint) (info : LocalKeyInfo)
    (newValue : Memory) : Role → Endpoint × LocalKeyInfo × Int
  | .client => s.rdmaPut gcm t e info newValue
  | .server =>
      let r := s.serverPut gcm e info newValue
      (r.1, info, r.2)

/-- `rdma_get` or `server_get` -/
def Role.get (gcm : AesGcm) (t : TransferEnv) (e : DecryptEnv) (s : Endpoint) (info : LocalKeyInfo)
    (value : Ptr) (mem : Mem) : Role → GetOut Endpoint
  | .client => s.rdmaGet gcm t e info value mem
  | .server => s.serverGet gcm e info value mem

/-- A put does not change `ep_data`. -/
@[simp] theorem Role.ep_put (gcm : AesGcm) (role : Role) (t : TransferEnv) (e : EncryptEnv)
    (s : Endpoint) (info : LocalKeyInfo) (newValue : Memory) :
    (role.put gcm t e s info newValue).1.ep = s.ep := by
  cases role with
  | server => rw [Role.put, Endpoint.serverPut_eq]
  | client =>
      rw [Role.put]
      by_cases failed : (encryptKeyValueData gcm s.ep e info.next newValue).ret < 0
      · rw [Endpoint.rdmaPut_of_failed t failed]
      · rw [Endpoint.rdmaPut_of_encrypted t failed, Endpoint.rdmaWriteToServer_eq]
        dsimp only
        split <;> rfl

/-- The endpoint of a role once it is up: the server that hosts the store, or a client that
is connected to it. -/
def Role.begin (ep : EndpointData) (localBuf store : Memory) (encKey : Option Bytes)
    (encKeyLength valueSize : UInt64) : Role → Option Endpoint
  | .server => hostServer ep store valueSize encKey encKeyLength
  | .client => rdmaClientConnect ep localBuf store encKey encKeyLength valueSize

namespace Sample

def encKey : Bytes := List.replicate 16 7

/-- Entries with values of four bytes. -/
def infos (i : Nat) : LocalKeyInfo := ⟨UInt64.ofNat i, [1, UInt8.ofNat i], UInt64.ofNat (40 * i)⟩

def plain : Memory := fun x => UInt8.ofNat x

def endpointData : EndpointData := ⟨false, 0, 0, none, 0⟩

end Sample

end NetworkStack.OneSided
