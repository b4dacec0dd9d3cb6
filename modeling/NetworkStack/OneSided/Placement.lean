import NetworkStack.OneSided.Atomicity
import NetworkStack.OneSided.PutGet

/-!
# Where `setup_kv_store` places the values

The `infos` of `setup_kv_store` say where to place the values, and `server_get`
looks for an entry at its `value_offset`. But block `i` is written to the `i`-th
slot of the store, and only its tag knows the offset. Offsets that fill the
store are its slots in some order (`Packed`), so that an entry that is not at
its own slot finds the block of another one, made for another offset.
`infos_honoured_iff` says that all entries are found exactly if every one is at
its own slot.
-/

namespace NetworkStack.OneSided

open FlatMemory SealedFrame

/-- Every `server_get` without library failures returns the plaintext of its entry. -/
def InfosHonoured (gcm : AesGcm) (s : Endpoint) (plain : Memory) (num n : Nat)
    (infos : Nat → LocalKeyInfo) : Prop :=
  ∀ i, i < num → ∀ g : GetCall, g.Ok →
    s.getBytes gcm (infos i) g = some (read plain (i * n) n)

theorem infosHonoured_iff_content {gcm : AesGcm} {s : Endpoint} {plain : Memory} {num n : Nat}
    {infos : Nat → LocalKeyInfo} :
    InfosHonoured gcm s plain num n infos ↔
      ∀ i, i < num → s.content gcm (infos i) = some (read plain (i * n) n) := by
  constructor
  · intro honoured i lt
    rw [← Endpoint.getBytes_eq GetCall.ok_ok]
    exact honoured i lt .ok GetCall.ok_ok
  · intro content i lt g ok
    rw [Endpoint.getBytes_eq ok]
    exact content i lt

/-- A server that hosts the store with the same key, key length and value size. -/
structure Hosts (s : Endpoint) (encKey : Bytes) (encKeyLength valueSize : UInt64)
    (store : Memory) : Prop where
  region : s.ep.memoryRegion = true
  encKey : s.ep.encKey = some encKey
  encKeyLength : s.ep.encKeyLength = encKeyLength
  blockSize : s.ep.blockSize = valueEntrySize valueSize
  store : s.store = store

section Hosted

variable {gcm : AesGcm} {encKey : Bytes} {encKeyLength valueSize : UInt64} {ep : EndpointData}
  {store : Memory} {s : Endpoint}

/-- What `host_server` leaves. -/
theorem hostServer_some
    (hosted : hostServer ep store valueSize (some encKey) encKeyLength = some s) :
    Hosts s encKey encKeyLength valueSize store := by
  unfold hostServer at hosted
  dsimp only at hosted
  split at hosted
  · cases hosted
  rename_i accepted
  cases hosted
  have zero : (setupEncryption { ep with memoryRegion := true } (some encKey) encKeyLength
      valueSize).2 = 0 := by
    unfold setupEncryption at accepted ⊢
    dsimp only at accepted ⊢
    split at accepted
    · exact (accepted (by simp)).elim
    · rename_i long
      rw [if_neg long]
  rcases setupEncryption_some zero with ⟨key, block, length⟩
  exact ⟨setupEncryption_memoryRegion .., key, length, block, rfl⟩

/-- A value that is got fits an `int`. -/
theorem fits_of_content (key : s.ep.encKey = some encKey)
    (block : s.ep.blockSize = valueEntrySize valueSize) {info : LocalKeyInfo} {v : Bytes}
    (content : s.content gcm info = some v) : valueSize.toNat ≤ int32Max := by
  rcases (content_eq_some key (s.length_blockAt info)).mp content with ⟨-, -, opens, -, fits⟩
  have length := (eq_sealBlock_of_open opens).2.2
  have small := valueSize.toNat_lt
  rw [s.length_blockAt, block, valueEntrySize, UInt64.toNat_add, UInt64.toNat_ofNat'] at length
  simp only [minValueSize, ivSize, seqSize, macSize] at length
  omega

end Hosted

section Placement

variable {gcm : AesGcm} {encKey : Bytes} {env : Nat → EncryptEnv} {plain store : Memory}
  {valueSize : UInt64} {num : Nat} {infos : Nat → LocalKeyInfo} {s : Endpoint}

/-- The store after `setup_kv_store`: block `j` is in slot `j`. -/
def Slotted (gcm : AesGcm) (encKey : Bytes) (encKeyLength : UInt64) (env : Nat → EncryptEnv)
    (plain : Memory) (n num : Nat) (infos : Nat → LocalKeyInfo) (store : Memory) : Prop :=
  ∀ j, j < num → ∃ iv : BlockIv, (env j).rand = some iv ∧
    initCrypt .ok encKeyLength (infos j) = some (infos j).aad ∧
    read store (j * (minValueSize + n)) (minValueSize + n) =
      sealBlock gcm encKey (infos j).aad iv.bytes (infos j).sequenceNumber (read plain (j * n) n)

/-- Offsets that fill the store are below `2 ^ 64`, so no position wraps. -/
theorem slotted_of_setup {ep : EndpointData} {encKeyLength numValues : UInt64} {dest : Destination}
    (fits : valueSize.toNat ≤ int32Max)
    (packed : Packed (minValueSize + valueSize.toNat) numValues.toNat
      fun i => (infos i).valueOffset.toNat)
    (setup : (setupKvStore gcm ep env (some encKey) encKeyLength dest plain numValues valueSize
      infos).2 = some store) :
    Slotted gcm encKey encKeyLength env plain valueSize.toNat numValues.toNat infos store := by
  have pos : 0 < minValueSize + valueSize.toNat := Nat.add_pos_left (by decide) _
  have positions : ∀ k, k < numValues.toNat →
      (UInt64.ofNat k * valueEntrySize valueSize).toNat = k * (minValueSize + valueSize.toNat) ∧
        (UInt64.ofNat k * valueSize).toNat = k * valueSize.toNat := by
    intro k lt
    rcases packed.exists_window pos lt with ⟨i, -, start⟩
    refine toNat_position (toNat_valueEntrySize fits) ?_
    rw [← start]
    exact (infos i).valueOffset.toNat_lt
  rcases setupKvStore_some setup with ⟨ep', region, -, key, keyLength, block, ok, rfl⟩
  obtain ⟨blocks, -⟩ := setupLoop_blocks key block fits positions (by omega) ok
  intro j lt
  rw [← keyLength]
  exact blocks j (Nat.zero_le j) (by omega)

section Slots

variable {encKeyLength : UInt64} (hosts : Hosts s encKey encKeyLength valueSize store)
  (fits : valueSize.toNat ≤ int32Max)
  (slotted : Slotted gcm encKey encKeyLength env plain valueSize.toNat num infos store)
include hosts fits slotted

/-- `server_get` finds block `k` at the offset of slot `k`. -/
theorem blockAt_slot {i k : Nat} (lt : k < num)
    (offset : (infos i).valueOffset.toNat = k * (minValueSize + valueSize.toNat)) :
    ∃ iv : BlockIv, (env k).rand = some iv ∧
      initCrypt .ok encKeyLength (infos k) = some (infos k).aad ∧
      s.blockAt (infos i) = sealBlock gcm encKey (infos k).aad iv.bytes (infos k).sequenceNumber
        (read plain (k * valueSize.toNat) valueSize.toNat) := by
  rcases slotted k lt with ⟨iv, drawn, begun, sealed⟩
  refine ⟨iv, drawn, begun, ?_⟩
  rw [Endpoint.blockAt, hosts.store, hosts.blockSize, toNat_valueEntrySize fits, offset, sealed]

/-- An entry at its own slot is found. -/
theorem content_of_own_slot (nonempty : 1 ≤ valueSize.toNat) {i : Nat} (lt : i < num)
    (offset : (infos i).valueOffset.toNat = i * (minValueSize + valueSize.toNat)) :
    s.content gcm (infos i) = some (read plain (i * valueSize.toNat) valueSize.toNat) := by
  rcases blockAt_slot hosts fits slotted lt offset with ⟨iv, -, begun, block⟩
  have length : (read plain (i * valueSize.toNat) valueSize.toNat).length = valueSize.toNat :=
    length_read ..
  refine (content_eq_some hosts.encKey (s.length_blockAt _)).mpr ⟨hosts.region, ?_, ?_, ?_, ?_⟩
  · rw [hosts.encKeyLength]
    exact begun
  · rw [block, openBlock_sealBlock _ _ _ _ _ iv.length_bytes]
  · intro nil
    rw [nil, List.length_nil] at length
    omega
  · rw [length]
    exact fits

/-- An entry that is found is at its own slot: the tag of the block it reads was made for its
offset, so that this is the block of the entry itself. -/
theorem own_slot_of_content {log : List Encryption}
    (apart : ∀ i, i < num → ∀ j, j < num →
      (infos i).valueOffset = (infos j).valueOffset → i = j)
    (fresh : ∀ i, i < num → ∀ j, j < num → (env i).rand = (env j).rand → i = j)
    (logged : ∀ x ∈ log, ∃ j, j < num ∧ x.info = infos j ∧ (env j).rand = some x.iv)
    {i k : Nat} (lt : i < num) (lt' : k < num)
    (offset : (infos i).valueOffset.toNat = k * (minValueSize + valueSize.toNat))
    (ideal : Authentic gcm log encKey (infos i).aad (s.blockAt (infos i))) {v : Bytes}
    (content : s.content gcm (infos i) = some v) : i = k := by
  rcases blockAt_slot hosts fits slotted lt' offset with ⟨iv, drawn, -, block⟩
  rcases (content_eq_some hosts.encKey (s.length_blockAt _)).mp content with ⟨-, -, opens, -⟩
  have right : tagMatches gcm encKey (infos i).aad (s.blockAt (infos i)) = true := by
    rw [openBlock_eq (by have := (eq_sealBlock_of_open opens).2.2; omega)] at opens
    split at opens
    · assumption
    · cases opens
  rcases ideal right with ⟨x, member, -, aad, ivEq, -⟩
  rcases logged x member with ⟨j, inStore, info, drawn'⟩
  rw [info] at aad
  have own : j = i := apart j inStore i lt (LocalKeyInfo.valueOffset_of_aad aad)
  have ivPart : ivOf ivSize (s.blockAt (infos i)) = iv.bytes := by
    rw [block]
    exact List.take_left' iv.length_bytes
  rw [ivPart] at ivEq
  have sameIv : x.iv = iv := by
    rcases x with ⟨_, ⟨_, _⟩, _, _⟩
    rcases iv with ⟨_, _⟩
    cases ivEq
    rfl
  rw [← own]
  exact fresh j inStore k lt' (by rw [drawn, drawn', sameIv])

end Slots

end Placement

/-- After `setup_kv_store` with offsets that fill the store and IVs that are all different,
`server_get` finds every value exactly if every entry is at its own slot and the value size
fits an `int`. -/
theorem infos_honoured_iff (gcm : AesGcm) (encKey : Bytes) (encKeyLength : UInt64)
    (ep : EndpointData) (env : Nat → EncryptEnv) (dest : Destination) (plain : Memory)
    (numValues valueSize : UInt64) (infos : Nat → LocalKeyInfo) (nonempty : 1 ≤ valueSize.toNat)
    (packed : Packed (valueEntrySize valueSize).toNat numValues.toNat
      fun i => (infos i).valueOffset.toNat)
    (store : Memory)
    (setup : (setupKvStore gcm ep env (some encKey) encKeyLength dest plain numValues valueSize
      infos).2 = some store)
    (ep' : EndpointData) (s : Endpoint)
    (hosted : hostServer ep' store valueSize (some encKey) encKeyLength = some s)
    (fresh : ∀ i, i < numValues.toNat → ∀ j, j < numValues.toNat →
      (env i).rand = (env j).rand → i = j)
    (ideal : ∀ i, i < numValues.toNat → Authentic gcm
      (setupEncryptions gcm (setupKvStore gcm ep env (some encKey) encKeyLength dest plain
        numValues valueSize infos).1 env plain valueSize infos numValues.toNat 0)
      encKey (infos i).aad (s.blockAt (infos i))) :
    InfosHonoured gcm s plain numValues.toNat valueSize.toNat infos ↔
      ∀ i, i < numValues.toNat →
        (infos i).valueOffset.toNat = i * (valueEntrySize valueSize).toNat ∧
          valueSize.toNat ≤ int32Max := by
  have hosts := hostServer_some hosted
  have pos : 0 < minValueSize + valueSize.toNat := Nat.add_pos_left (by decide) _
  rw [infosHonoured_iff_content]
  constructor
  · intro content i lt
    have fits := fits_of_content hosts.encKey hosts.blockSize (content i lt)
    rw [toNat_valueEntrySize fits] at packed ⊢
    have apart : ∀ i, i < numValues.toNat → ∀ j, j < numValues.toNat →
        (infos i).valueOffset = (infos j).valueOffset → i = j := by
      intro i lt j lt' eq
      by_contra ne
      have windows := packed.apart i lt j lt' ne
      rw [eq] at windows
      omega
    have logged : ∀ x ∈ setupEncryptions gcm (setupKvStore gcm ep env (some encKey) encKeyLength
        dest plain numValues valueSize infos).1 env plain valueSize infos numValues.toNat 0,
        ∃ j, j < numValues.toNat ∧ x.info = infos j ∧ (env j).rand = some x.iv := by
      intro x member
      rcases mem_setupEncryptions member with ⟨j, -, inStore, of⟩
      exact ⟨j, by omega, of⟩
    rcases packed.exists_slot pos lt with ⟨k, lt', offset⟩
    have own := own_slot_of_content hosts fits (slotted_of_setup fits packed setup) apart fresh
      logged lt lt' offset (ideal i lt) (content i lt)
    rw [own] at offset ⊢
    exact ⟨offset, fits⟩
  · intro placed i lt
    rcases placed i lt with ⟨offset, fits⟩
    rw [toNat_valueEntrySize fits] at packed offset
    exact content_of_own_slot hosts fits (slotted_of_setup fits packed setup) nonempty lt offset

namespace Sample

/-- The server that hosts two values of four bytes with the given `infos`. -/
def hostedStore (infos : Nat → LocalKeyInfo) : Memory :=
  (setupKvStore .checksum endpointData (fun i => .ok (.ofNat (i + 1))) (some encKey) 16
    (.fresh (some fun _ => 0)) plain 2 4 infos).2.getD fun _ => 0

def hosted (infos : Nat → LocalKeyInfo) : Endpoint :=
  (hostServer endpointData (hostedStore infos) 4 (some encKey) 16).getD
    ⟨endpointData, fun _ => 0, fun _ => 0⟩

/-- The entries with their offsets exchanged. -/
def exchanged (i : Nat) : LocalKeyInfo :=
  { infos i with valueOffset := (infos (1 - i)).valueOffset }

/-- The IVs of the two blocks differ. -/
theorem rand_inj (i : Nat) (lt : i < 2) (j : Nat) (lt' : j < 2)
    (eq : (EncryptEnv.ok (.ofNat (i + 1))).rand = (EncryptEnv.ok (.ofNat (j + 1))).rand) :
    i = j := by
  have bytes : (BlockIv.ofNat (i + 1)).bytes = (BlockIv.ofNat (j + 1)).bytes :=
    congrArg BlockIv.bytes (Option.some.inj eq)
  clear eq
  revert i j
  decide

end Sample

/-- Both values are found where the offsets are the slots. -/
theorem hosted_infos_honoured :
    InfosHonoured .checksum (Sample.hosted Sample.infos) Sample.plain 2 4 Sample.infos :=
  (infos_honoured_iff .checksum Sample.encKey 16 Sample.endpointData
    (fun i => .ok (.ofNat (i + 1))) (.fresh (some fun _ => 0)) Sample.plain 2 4 Sample.infos
    (by decide) ⟨by decide, by decide⟩ (Sample.hostedStore Sample.infos) rfl Sample.endpointData
    (Sample.hosted Sample.infos) rfl Sample.rand_inj (by decide +kernel)).mpr (by decide)

/-- With the offsets exchanged they still fill the store, which is set up and hosted, but
entry 0 is not found. -/
theorem exchanged_offsets_not_honoured :
    Packed (valueEntrySize 4).toNat 2 (fun i => (Sample.exchanged i).valueOffset.toNat) ∧
      (setupKvStore .checksum Sample.endpointData (fun i => .ok (.ofNat (i + 1)))
        (some Sample.encKey) 16 (.fresh (some fun _ => 0)) Sample.plain 2 4 Sample.exchanged).2 =
          some (Sample.hostedStore Sample.exchanged) ∧
      hostServer Sample.endpointData (Sample.hostedStore Sample.exchanged) 4 (some Sample.encKey)
        16 = some (Sample.hosted Sample.exchanged) ∧
      GetCall.ok.Ok ∧
      (Sample.hosted Sample.exchanged).getBytes .checksum (Sample.exchanged 0) .ok = none ∧
      ¬ InfosHonoured .checksum (Sample.hosted Sample.exchanged) Sample.plain 2 4
        Sample.exchanged := by
  have null : (Sample.hosted Sample.exchanged).getBytes .checksum (Sample.exchanged 0) .ok =
      none := by
    decide +kernel
  refine ⟨⟨by decide, by decide⟩, rfl, rfl, GetCall.ok_ok, null, ?_⟩
  intro honoured
  have found := honoured 0 (by decide) .ok GetCall.ok_ok
  rw [null] at found
  cases found

end NetworkStack.OneSided
