import NetworkStack.Lib.Run
import NetworkStack.OneSided.Store

/-!
# What a block is bound to

A history records every block that `encrypt_key_value_data` completed. With an
ideal AEAD the tag of a block is right only if the history has a block of the
same key, IV, additional data and ciphertext; the additional data then gives
the key and the offset, and the comparison after the tag check the sequence
number. Where the block lies, who put it there and when do not matter.
-/

namespace NetworkStack.OneSided

open ByteStream FlatMemory SealedFrame Machine

/-! ## The history of encryptions -/

/-- A completed call of `encrypt_key_value_data` in encrypted mode. -/
structure Encryption : Type where
  encKey : Bytes
  iv : BlockIv
  info : LocalKeyInfo
  value : Bytes

/-- The block it wrote. -/
def Encryption.block (gcm : AesGcm) (x : Encryption) : Bytes :=
  sealBlock gcm x.encKey x.info.aad x.iv.bytes x.info.sequenceNumber x.value

/-- The part of the block that the tag covers. -/
def Encryption.body (gcm : AesGcm) (x : Encryption) : Bytes :=
  xorStream (gcm.keystream x.encKey x.iv.bytes) 0
    (toLE seqSize x.info.sequenceNumber.toNat ++ x.value)

/-- What one call of `encrypt_key_value_data` adds to the history. -/
def encryptions (gcm : AesGcm) (ep : EndpointData) (e : EncryptEnv) (info : LocalKeyInfo)
    (newValue : Memory) : List Encryption :=
  match ep.encKey, e.rand with
  | some encKey, some iv =>
      if (encryptKeyValueData gcm ep e info newValue).ret < 0 then []
      else [⟨encKey, iv, info, ep.valueAt newValue⟩]
  | _, _ => []

/-- What the loop of `setup_kv_store` adds, which stops at the first failure. -/
def setupEncryptions (gcm : AesGcm) (ep : EndpointData) (env : Nat → EncryptEnv) (plain : Memory)
    (valueSize : UInt64) (infos : Nat → LocalKeyInfo) : Nat → Nat → List Encryption
  | 0, _ => []
  | todo + 1, i =>
      let newValue : Memory := fun x => plain ((UInt64.ofNat i * valueSize).toNat + x)
      if (encryptKeyValueData gcm ep (env i) (infos i) newValue).ret < 0 then []
      else encryptions gcm ep (env i) (infos i) newValue ++
        setupEncryptions gcm ep env plain valueSize infos todo (i + 1)

/-- In encrypted mode a call either fails and adds nothing, or no OpenSSL call fails and it
writes the one block it adds. -/
theorem encryptions_cases (gcm : AesGcm) {ep : EndpointData} {encKey : Bytes}
    (key : ep.encKey = some encKey) (e : EncryptEnv) (info : LocalKeyInfo) (newValue : Memory) :
    (encryptKeyValueData gcm ep e info newValue).ret < 0 ∧
        encryptions gcm ep e info newValue = [] ∨
      ∃ x : Encryption, ¬ (encryptKeyValueData gcm ep e info newValue).ret < 0 ∧ e.Ok ∧
        encryptions gcm ep e info newValue = [x] ∧ x.encKey = encKey ∧ x.info = info ∧
        x.value = ep.valueAt newValue ∧
        (encryptKeyValueData gcm ep e info newValue).written = x.block gcm := by
  by_cases failed : (encryptKeyValueData gcm ep e info newValue).ret < 0
  · refine Or.inl ⟨failed, ?_⟩
    unfold encryptions
    split
    · rw [if_pos failed]
    · rfl
  · obtain ⟨iv, drawn, -, written⟩ := encryptKeyValueData_ok key failed
    refine Or.inr ⟨⟨encKey, iv, info, ep.valueAt newValue⟩, failed,
      EncryptEnv.ok_of_encrypt key failed, ?_, ?_⟩
    · unfold encryptions
      rw [key, drawn]
      dsimp only
      rw [if_neg failed]
    · dsimp only [Encryption.block]
      exact ⟨rfl, rfl, rfl, written⟩

theorem length_encryptions_le (gcm : AesGcm) (ep : EndpointData) (e : EncryptEnv)
    (info : LocalKeyInfo) (newValue : Memory) :
    (encryptions gcm ep e info newValue).length ≤ 1 := by
  unfold encryptions
  split
  · split
    · exact Nat.zero_le 1
    · exact Nat.le_refl 1
  · exact Nat.zero_le 1

/-- What is in the history was encrypted for the `info` of its call, with the IV it drew. -/
theorem of_mem_encryptions {gcm : AesGcm} {ep : EndpointData} {e : EncryptEnv}
    {info : LocalKeyInfo} {newValue : Memory} {x : Encryption}
    (member : x ∈ encryptions gcm ep e info newValue) : x.info = info ∧ e.rand = some x.iv := by
  unfold encryptions at member
  split at member
  · rename_i drawn
    split at member
    · cases member
    · rw [List.mem_singleton.mp member]
      exact ⟨rfl, drawn⟩
  · cases member

theorem mem_setupEncryptions {gcm : AesGcm} {ep : EndpointData} {env : Nat → EncryptEnv}
    {plain : Memory} {valueSize : UInt64} {infos : Nat → LocalKeyInfo} {todo i : Nat}
    {x : Encryption} (member : x ∈ setupEncryptions gcm ep env plain valueSize infos todo i) :
    ∃ j, i ≤ j ∧ j < i + todo ∧ x.info = infos j ∧ (env j).rand = some x.iv := by
  induction todo generalizing i with
  | zero => cases member
  | succ todo ih =>
      unfold setupEncryptions at member
      dsimp only at member
      split at member
      · cases member
      rcases List.mem_append.mp member with here | later
      · exact ⟨i, by omega, by omega, of_mem_encryptions here⟩
      · obtain ⟨j, low, high, eq⟩ := ih later
        exact ⟨j, by omega, by omega, eq⟩

/-! ## An ideal AEAD -/

/-- The AEAD is ideal on a block that is opened with a key and additional data: if the tag
is right, then the same IV, additional data and ciphertext were encrypted with that key. -/
def Authentic (gcm : AesGcm) (log : List Encryption) (encKey aad ciphertext : Bytes) : Prop :=
  tagMatches gcm encKey aad ciphertext = true →
    ∃ x ∈ log, x.encKey = encKey ∧ x.info.aad = aad ∧ x.iv.bytes = ivOf ivSize ciphertext ∧
      x.body gcm = bodyOf ivSize macSize ciphertext

instance (gcm : AesGcm) (log : List Encryption) (encKey aad ciphertext : Bytes) :
    Decidable (Authentic gcm log encKey aad ciphertext) :=
  inferInstanceAs (Decidable (_ → _))

/-- A block that opens opens to the sequence number and the value of an encryption. -/
theorem openBlock_of_authentic {gcm : AesGcm} {log : List Encryption}
    {encKey aad ciphertext : Bytes} {seq : UInt64} {value : Bytes}
    (ideal : Authentic gcm log encKey aad ciphertext)
    (opens : openBlock gcm encKey aad ciphertext = some (seq, value)) :
    ∃ x ∈ log, x.encKey = encKey ∧ x.info.aad = aad ∧ x.info.sequenceNumber = seq ∧
      x.value = value := by
  obtain ⟨-, -, length⟩ := eq_sealBlock_of_open opens
  have long : minValueSize ≤ ciphertext.length := by omega
  have reads := opens
  rw [openBlock_eq long] at reads
  split at reads
  · rename_i right
    obtain ⟨x, member, key, aadEq, iv, body⟩ := ideal right
    refine ⟨x, member, key, aadEq, ?_⟩
    have ofBlock : openBlock gcm encKey aad (x.block gcm) =
        some (x.info.sequenceNumber, x.value) := by
      rw [← key, ← aadEq]
      exact openBlock_sealBlock gcm _ _ _ _ x.iv.length_bytes
    have same : x.block gcm = ciphertext := by
      have frameLong : ivSize + macSize ≤ ciphertext.length := by
        simp only [minValueSize] at long
        omega
      have tag : gcm.mac encKey (ivOf ivSize ciphertext) aad (bodyOf ivSize macSize ciphertext) =
          tagOf macSize ciphertext := of_decide_eq_true right
      have parts : x.block gcm = x.iv.bytes ++ (x.body gcm ++
          gcm.mac x.encKey x.iv.bytes x.info.aad (x.body gcm)) := rfl
      rw [parts, key, aadEq, iv, body, tag]
      exact parts_append frameLong
    rw [same, opens] at ofBlock
    obtain ⟨seqEq, valueEq⟩ := Prod.mk.inj (Option.some.inj ofBlock)
    exact ⟨seqEq.symm, valueEq.symm⟩
  · cases reads

/-! ## Runs with an adversary -/

/-- A server and a client of one store, and the history of both. -/
structure World : Type where
  server : EndpointData
  client : EndpointData
  localBuf : Memory
  store : Memory
  log : List Encryption

namespace World

def serverEnd (w : World) : Endpoint := ⟨w.server, w.localBuf, w.store⟩

def clientEnd (w : World) : Endpoint := ⟨w.client, w.localBuf, w.store⟩

/-- The caller passes any `info` it likes to a put. The adversary replaces the store as a
whole, so that it moves, restores and alters blocks at will. -/
inductive Action : Type
  | setup (env : Nat → EncryptEnv) (encKey : Option Bytes) (encKeyLength : UInt64)
      (dest : Destination) (plain : Memory) (numValues valueSize : UInt64)
      (infos : Nat → LocalKeyInfo)
  | host (maxValSize : UInt64) (encKey : Option Bytes) (encKeyLength : UInt64)
  | connect (localBuf : Memory) (encKey : Option Bytes) (encKeyLength maxValSize : UInt64)
  | serverPut (e : EncryptEnv) (info : LocalKeyInfo) (newValue : Memory)
  | rdmaPut (t : TransferEnv) (e : EncryptEnv) (info : LocalKeyInfo) (newValue : Memory)
  | tamper (store : Memory)

/-- The `info` structs that are passed to `encrypt_key_value_data`, up to the sequence
number. -/
def Action.infos : Action → List LocalKeyInfo
  | .setup _ _ _ _ _ numValues _ infos => (List.range numValues.toNat).map infos
  | .serverPut _ info _ => [info]
  | .rdmaPut _ _ info _ => [info]
  | _ => []

/-- What an action adds to the history. -/
def encrypted (gcm : AesGcm) (w : World) : Action → List Encryption
  | .setup env encKey encKeyLength dest plain numValues valueSize infos =>
      let r := setupKvStore gcm w.server env encKey encKeyLength dest plain numValues valueSize
        infos
      match dest.region r.1.memoryRegionSize with
      | none => []
      | some _ => setupEncryptions gcm r.1 env plain valueSize infos numValues.toNat 0
  | .serverPut e info newValue => encryptions gcm w.server e info newValue
  | .rdmaPut _ e info newValue =>
      encryptions gcm w.client e info.next newValue
  | _ => []

def step (gcm : AesGcm) (w : World) (a : Action) : World :=
  let w' := match a with
    | .setup env encKey encKeyLength dest plain numValues valueSize infos =>
        let r := setupKvStore gcm w.server env encKey encKeyLength dest plain numValues valueSize
          infos
        { w with server := r.1, store := r.2.getD w.store }
    | .host maxValSize encKey encKeyLength =>
        match hostServer w.server w.store maxValSize encKey encKeyLength with
        | some s => { w with server := s.ep }
        -- `setup_encryption` refuses the key after it stored it, and the region is deregistered
        | none => { w with server :=
            { (setupEncryption w.server encKey encKeyLength maxValSize).1 with
              memoryRegion := false } }
    | .connect localBuf encKey encKeyLength maxValSize =>
        match rdmaClientConnect w.client localBuf w.store encKey encKeyLength maxValSize with
        | some s => { w with client := s.ep, localBuf := s.localBuf }
        | none => { w with client := (setupEncryption w.client encKey encKeyLength maxValSize).1 }
    | .serverPut e info newValue =>
        { w with store := (w.serverEnd.serverPut gcm e info newValue).1.store }
    | .rdmaPut t e info newValue =>
        let r := w.clientEnd.rdmaPut gcm t e info newValue
        { w with localBuf := r.1.localBuf, store := r.1.store }
    | .tamper store => { w with store := store }
  { w' with log := w.log ++ w.encrypted gcm a }

variable {gcm : AesGcm}

@[simp] theorem log_step (w : World) (a : Action) :
    (step gcm w a).log = w.log ++ w.encrypted gcm a := rfl

/-- An entry that an action adds has the key and the offset of an `info` of the action. -/
theorem info_of_mem_encrypted {w : World} {a : Action} {x : Encryption}
    (member : x ∈ w.encrypted gcm a) :
    ∃ info ∈ a.infos, x.info.key = info.key ∧ x.info.valueOffset = info.valueOffset := by
  cases a with
  | setup env encKey encKeyLength dest plain numValues valueSize infos =>
      simp only [encrypted] at member
      split at member
      · cases member
      · obtain ⟨j, -, lt, eq, -⟩ := mem_setupEncryptions member
        refine ⟨infos j, List.mem_map_of_mem (List.mem_range.mpr (by omega)), ?_⟩
        rw [eq]
        exact ⟨rfl, rfl⟩
  | serverPut e info newValue =>
      have eq := (of_mem_encryptions member).1
      refine ⟨info, List.mem_singleton_self _, ?_⟩
      rw [eq]
      exact ⟨rfl, rfl⟩
  | rdmaPut t e info newValue =>
      have eq := (of_mem_encryptions member).1
      refine ⟨info, List.mem_singleton_self _, ?_⟩
      rw [eq]
      exact ⟨rfl, rfl⟩
  | host maxValSize encKey encKeyLength => cases member
  | connect localBuf encKey encKeyLength maxValSize => cases member
  | tamper store => cases member

/-- Every entry of the history has a key that fits an `int`, if every `info` that was used
has. -/
theorem key_size_of_mem_log {w : World} (start : w.log = []) {acts : List Action}
    (sizes : ∀ a ∈ acts, ∀ info ∈ a.infos, info.key.length ≤ int32Max) :
    ∀ x ∈ (run (step gcm) w acts).log, x.info.key.length ≤ int32Max := by
  induction acts using List.reverseRecOn with
  | nil =>
      rw [run_nil, start]
      intro x member
      cases member
  | append_singleton acts a ih =>
      intro x member
      rw [run_snoc, log_step] at member
      rcases List.mem_append.mp member with old | new
      · apply ih (fun b inRun => sizes b (List.mem_append_left _ inRun))
        exact old
      · obtain ⟨info, used, key, -⟩ := info_of_mem_encrypted new
        rw [key]
        exact sizes a (List.mem_append_right _ (List.mem_singleton_self a)) info used

/-- Whatever the adversary made of the store, a block that `decrypt_key_value_data` accepts
for an `info` was encrypted for its key, its offset and its sequence number. -/
theorem decrypted_value_encrypted_for_info (gcm : AesGcm) (w : World) (start : w.log = [])
    (acts : List Action)
    (sizes : ∀ a ∈ acts, ∀ info ∈ a.infos, info.key.length ≤ int32Max)
    (ep : EndpointData) (encKey : Bytes) (key : ep.encKey = some encKey) (e : DecryptEnv)
    (ciphertext : Bytes) (info : LocalKeyInfo) (size : info.key.length ≤ int32Max)
    (seq : UInt64) (buffer : Option Nat) (mem : Mem)
    (ideal : Authentic gcm (run (step gcm) w acts).log encKey info.aad ciphertext)
    (ok : (decryptKeyValueData gcm ep e ciphertext info ⟨seq, callerPtr buffer⟩ mem).ret = 0) :
    ∃ x ∈ (run (step gcm) w acts).log,
      x.encKey = encKey ∧
      x.info.key = info.key ∧
      x.info.valueOffset = info.valueOffset ∧
      x.info.sequenceNumber = info.sequenceNumber ∧
      (decryptKeyValueData gcm ep e ciphertext info ⟨seq, callerPtr buffer⟩ mem).Holds mem buffer
        x.value := by
  obtain ⟨v, opens, -, holds⟩ := decryptKeyValueData_ok key rfl ok
  obtain ⟨x, member, keyEq, aadEq, seqEq, valueEq⟩ := openBlock_of_authentic ideal opens
  obtain ⟨sameKey, sameOffset⟩ :=
    LocalKeyInfo.aad_inj (key_size_of_mem_log start sizes x member) size aadEq
  refine ⟨x, member, keyEq, sameKey, sameOffset, seqEq, ?_⟩
  rw [valueEq]
  exact holds

end World

namespace Sample

def world : World := ⟨endpointData, endpointData, fun _ => 0, fun _ => 0, []⟩

/-- The store is set up and hosted, the client connects and writes to entry 1. -/
def written : List World.Action :=
  [.setup (fun i => .ok (.ofNat (i + 1))) (some encKey) 16 (.fresh (some fun _ => 0))
      plain 2 4 infos,
    .host 4 (some encKey) 16,
    .connect (fun _ => 0) (some encKey) 16 4,
    .rdmaPut (.ok .write) (.ok (.ofNat 3)) (infos 1) (fun _ => 9)]

/-- The adversary copies entry 1 over entry 0. -/
def copied : List World.Action :=
  written ++ [.tamper fun x => (run (World.step .checksum) world written).store (40 + x % 40)]

end Sample

/-- After a client's write the block of the entry was encrypted for it. -/
theorem written_block_encrypted_for_info :
    ∃ x ∈ (run (World.step .checksum) Sample.world Sample.copied).log,
      x.encKey = Sample.encKey ∧
      x.info.key = [1, 1] ∧
      x.info.valueOffset = 40 ∧
      x.info.sequenceNumber = 2 ∧
      (decryptKeyValueData .checksum
        (run (World.step .checksum) Sample.world Sample.copied).client .ok
        (read (run (World.step .checksum) Sample.world Sample.copied).store 40 40)
        ⟨2, [1, 1], 40⟩ ⟨0, callerPtr none⟩ .empty).Holds .empty none x.value := by
  refine World.decrypted_value_encrypted_for_info .checksum Sample.world rfl Sample.copied ?_
    (run (World.step .checksum) Sample.world Sample.copied).client Sample.encKey ?_ .ok
    (read (run (World.step .checksum) Sample.world Sample.copied).store 40 40) ⟨2, [1, 1], 40⟩ ?_
    0 none .empty ?_ ?_
  all_goals decide +kernel

end NetworkStack.OneSided
