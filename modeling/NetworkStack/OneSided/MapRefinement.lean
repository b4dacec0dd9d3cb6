import NetworkStack.Lib.Run
import NetworkStack.OneSided.Store

/-!
# The store is a map

One endpoint acting alone on a store that `setup_kv_store` made, with no library
call failing: every get returns the value of the latest put to its entry, or the
plaintext the entry was set up with. The invariant `Represents` says that the
block of each entry opens to the sequence number in its `info` and to the value
the map has there; a put keeps it because the blocks of two entries do not
overlap and because the block and the `info` get the same sequence number.
-/

namespace NetworkStack.OneSided

open ByteStream FlatMemory Machine

/-! ## Calls of one endpoint -/

/-- One endpoint, with the `info` of each entry and the memory of its caller. -/
structure Instance : Type where
  endpoint : Endpoint
  infos : Nat → LocalKeyInfo
  mem : Mem

inductive Call : Type
  | put (entry : Nat) (t : TransferEnv) (e : EncryptEnv) (newValue : Memory)
  | get (entry : Nat) (t : TransferEnv) (e : DecryptEnv) (buffer : Option Nat)

/-- The return value of a put; the bytes behind the pointer a get returns, if it is not
NULL. -/
inductive Answer : Type
  | put (ret : Int)
  | get (value : Option Bytes)
deriving DecidableEq

/-- One call; the caller of a get reads `n` bytes. -/
def Instance.invoke (gcm : AesGcm) (role : Role) (n : Nat) (s : Instance) : Call → Instance × Answer
  | .put j t e newValue =>
      let r := role.put gcm t e s.endpoint (s.infos j) newValue
      ({ s with endpoint := r.1, infos := Function.update s.infos j r.2.1 }, .put r.2.2)
  | .get j t e buffer =>
      let r := role.get gcm t e s.endpoint (s.infos j) (callerPtr buffer) s.mem
      ({ s with endpoint := r.state, mem := r.mem },
        .get (if r.value = .null then none else some (r.mem.read r.value n)))

/-- The call is for an entry of the store, and no library call fails in it. -/
def Call.Ok (role : Role) (num : Nat) : Call → Prop
  | .put j t e _ => j < num ∧ e.Ok ∧ (role = .client → t.Succeeds .write)
  | .get j t e buffer =>
      j < num ∧ e.Ok ∧ (buffer = none → e.malloc = true) ∧ (role = .client → t.Succeeds .read)

/-! ## The map -/

/-- The value a call puts into an entry. -/
def Call.putTo (n j : Nat) : Call → Option Bytes
  | .put k _ _ newValue => if k = j then some (read newValue 0 n) else none
  | .get _ _ _ _ => none

/-- The value of the latest put to an entry, or its plaintext. -/
def latestPut (n : Nat) (plain : Memory) (calls : List Call) (j : Nat) : Bytes :=
  (calls.filterMap (Call.putTo n j)).getLast?.getD (read plain (j * n) n)

/-- The answer the map gives to a call. -/
def Call.answer (m : Nat → Bytes) : Call → Answer
  | .put _ _ _ _ => .put 0
  | .get j _ _ _ => .get (some (m j))

/-- What a call does to the map. -/
def Call.apply (n : Nat) (m : Nat → Bytes) : Call → Nat → Bytes
  | .put j _ _ newValue => Function.update m j (read newValue 0 n)
  | .get _ _ _ _ => m

theorem latestPut_snoc (n : Nat) (plain : Memory) (calls : List Call) (call : Call) :
    latestPut n plain (calls ++ [call]) = call.apply n (latestPut n plain calls) := by
  funext k
  cases call with
  | put j t e newValue =>
      rw [Call.apply]
      by_cases same : j = k
      · subst same
        simp [latestPut, Call.putTo]
      · rw [Function.update_of_ne (Ne.symm same)]
        simp [latestPut, Call.putTo, same]
  | get j t e buffer => simp [latestPut, Call.putTo, Call.apply]

theorem length_latestPut (n : Nat) (plain : Memory) (calls : List Call) (j : Nat) :
    (latestPut n plain calls j).length = n := by
  induction calls using List.reverseRecOn with
  | nil => exact length_read ..
  | append_singleton calls call ih =>
      rw [latestPut_snoc]
      cases call with
      | put k t e newValue =>
          rw [Call.apply]
          by_cases same : j = k
          · rw [same, Function.update_self, length_read]
          · rw [Function.update_of_ne same, ih]
      | get k t e buffer => exact ih

/-! ## Sizes -/

section Sizes

variable {ep : EndpointData} {valueSize : UInt64}

theorem toNat_valueEntrySize (fits : valueSize.toNat ≤ int32Max) :
    (valueEntrySize valueSize).toNat = minValueSize + valueSize.toNat := by
  rw [int32Max] at fits
  rw [valueEntrySize, UInt64.toNat_add, UInt64.toNat_ofNat']
  simp only [minValueSize, ivSize, seqSize, macSize]
  omega

theorem valueLength_eq (fits : valueSize.toNat ≤ int32Max)
    (block : ep.blockSize = valueEntrySize valueSize) : ep.valueLength = valueSize.toNat := by
  rw [EndpointData.valueLength, block, valueEntrySize, UInt64.add_comm, UInt64.add_sub_cancel]
  exact toInt_of_le fits

theorem valueAt_eq (fits : valueSize.toNat ≤ int32Max)
    (block : ep.blockSize = valueEntrySize valueSize) (newValue : Memory) :
    ep.valueAt newValue = read newValue 0 valueSize.toNat := by
  rw [EndpointData.valueAt, valueLength_eq fits block, Int.toNat_natCast]

/-- The blocks of two entries do not overlap. -/
theorem entries_disjoint {size j k : Nat} (ne : j ≠ k) :
    j * size + size ≤ k * size ∨ k * size + size ≤ j * size := by
  rcases Nat.lt_or_gt_of_ne ne with lt | gt
  · have le := Nat.mul_le_mul_right size lt
    rw [Nat.succ_mul] at le
    exact Or.inl le
  · have le := Nat.mul_le_mul_right size gt
    rw [Nat.succ_mul] at le
    exact Or.inr le

end Sizes

/-! ## The invariant -/

/-- The parameters of a store in encrypted mode. -/
structure Layout : Type where
  encKey : Bytes
  valueSize : UInt64
  num : Nat
  nonempty : 1 ≤ valueSize.toNat
  fits : valueSize.toNat ≤ int32Max

/-- `n` -/
def Layout.n (l : Layout) : Nat := l.valueSize.toNat

/-- Size of a block. -/
def Layout.size (l : Layout) : Nat := minValueSize + l.n

/-- `ep_data` belongs to the store. -/
structure Layout.Configures (l : Layout) (ep : EndpointData) : Prop where
  encKey : ep.encKey = some l.encKey
  encKeyLength : ep.encKeyLength = 16
  blockSize : ep.blockSize = valueEntrySize l.valueSize

/-- The entries have keys that fit an `int` and lie one after the other. -/
def Layout.Places (l : Layout) (infos : Nat → LocalKeyInfo) : Prop :=
  ∀ j, j < l.num → (infos j).key.length ≤ int32Max ∧ (infos j).valueOffset.toNat = j * l.size

/-- The block of each entry opens to the sequence number of its `info` and the value of the
map. -/
def Layout.Stores (l : Layout) (gcm : AesGcm) (infos : Nat → LocalKeyInfo) (store : Memory)
    (m : Nat → Bytes) : Prop :=
  ∀ j, j < l.num →
    openBlock gcm l.encKey (infos j).aad (read store (j * l.size) l.size) =
      some ((infos j).sequenceNumber, m j)

structure Layout.Represents (l : Layout) (gcm : AesGcm) (s : Instance) (m : Nat → Bytes) :
    Prop where
  region : s.endpoint.ep.memoryRegion = true
  configures : l.Configures s.endpoint.ep
  places : l.Places s.infos
  stores : l.Stores gcm s.infos s.endpoint.store m

section Steps

variable {gcm : AesGcm} {l : Layout} {m : Nat → Bytes}

theorem Layout.Configures.toNat_blockSize {ep : EndpointData} (c : l.Configures ep) :
    ep.blockSize.toNat = l.size := by
  rw [c.blockSize, toNat_valueEntrySize l.fits]
  rfl

/-- A sealed block of the right size, written to an entry whose `info` gets its sequence
number, changes the map there and nowhere else. -/
theorem Layout.Stores.write {infos : Nat → LocalKeyInfo} {store : Memory}
    (stores : l.Stores gcm infos store m) {j : Nat} (inStore : j < l.num) {iv : Bytes}
    (ivLength : iv.length = ivSize) (seq : UInt64) {value : Bytes} (length : value.length = l.n) :
    l.Stores gcm (Function.update infos j { infos j with sequenceNumber := seq })
      (FlatMemory.write store (j * l.size)
        (sealBlock gcm l.encKey (infos j).aad iv seq value))
      (Function.update m j value) := by
  have blockLength : (sealBlock gcm l.encKey (infos j).aad iv seq value).length = l.size := by
    rw [length_sealBlock _ _ _ _ _ ivLength, length]
    rfl
  intro k kInStore
  by_cases same : k = j
  · subst same
    have readBack := read_write_self store (k * l.size)
      (sealBlock gcm l.encKey (infos k).aad iv seq value)
    rw [blockLength] at readBack
    rw [Function.update_self, Function.update_self, readBack]
    exact openBlock_sealBlock gcm _ _ _ _ ivLength
  · rw [Function.update_of_ne same, Function.update_of_ne same, read_write_disjoint]
    · exact stores k kInStore
    · rw [blockLength]
      exact entries_disjoint same

theorem Layout.Places.update {infos : Nat → LocalKeyInfo} (places : l.Places infos) (j : Nat)
    (seq : UInt64) :
    l.Places (Function.update infos j { infos j with sequenceNumber := seq }) := by
  intro k inStore
  by_cases same : k = j
  · subst same
    rw [Function.update_self]
    exact places k inStore
  · rw [Function.update_of_ne same]
    exact places k inStore

/-- A put that succeeds writes a sealed block with the sequence number that the `info` has
afterwards. -/
theorem Role.put_ok (gcm : AesGcm) {role : Role} {t : TransferEnv} {e : EncryptEnv} {s : Endpoint}
    {info : LocalKeyInfo} (newValue : Memory) (c : l.Configures s.ep)
    (size : info.key.length ≤ int32Max) (env : e.Ok)
    (transfer : role = .client → t.Succeeds .write) :
    ∃ (iv : BlockIv) (seq : UInt64),
      (role.put gcm t e s info newValue).1.ep = s.ep ∧
      (role.put gcm t e s info newValue).1.store = write s.store info.valueOffset.toNat
        (sealBlock gcm l.encKey info.aad iv.bytes seq (read newValue 0 l.n)) ∧
      (role.put gcm t e s info newValue).2 = ({ info with sequenceNumber := seq }, 0) := by
  have length : 0 ≤ s.ep.valueLength := by
    rw [valueLength_eq l.fits c.blockSize]
    exact Int.natCast_nonneg _
  cases role with
  | server =>
      have done := encryptKeyValueData_succeeds gcm env length
        (initCrypt_succeeds c.encKeyLength size) newValue
      obtain ⟨iv, -, -, written⟩ := encryptKeyValueData_ok c.encKey (by rw [done]; simp)
      rw [valueAt_eq l.fits c.blockSize] at written
      refine ⟨iv, info.sequenceNumber, ?_⟩
      rw [Role.put, Endpoint.serverPut_eq, done, written]
      exact ⟨rfl, rfl, rfl⟩
  | client =>
      obtain ⟨posted, completes⟩ := transfer rfl
      have begun : initCrypt .ok s.ep.encKeyLength info.next = some info.next.aad :=
        initCrypt_succeeds c.encKeyLength size
      have done := encryptKeyValueData_succeeds gcm env length begun newValue
      have encrypted : ¬ (encryptKeyValueData gcm s.ep e info.next newValue).ret < 0 := by
        rw [done]
        simp
      obtain ⟨iv, -, -, written⟩ := encryptKeyValueData_ok c.encKey encrypted
      rw [valueAt_eq l.fits c.blockSize] at written
      refine ⟨iv, info.sequenceNumber + 1, ?_⟩
      have fetched := read_write_self s.localBuf 0
        (sealBlock gcm l.encKey info.aad iv.bytes (info.sequenceNumber + 1)
          (read newValue 0 l.n))
      rw [length_sealBlock _ _ _ _ _ iv.length_bytes, length_read] at fetched
      rw [Role.put, Endpoint.rdmaPut_of_encrypted t encrypted, written,
        if_pos (by simp [posted, completes]), Endpoint.rdmaWriteToServer_eq,
        if_pos (by simp [TransferEnv.takesEffect, posted, completes])]
      refine ⟨rfl, ?_, rfl⟩
      dsimp only
      rw [c.toNat_blockSize]
      exact congrArg (write s.store _) fetched

/-- A block that opens to the sequence number of its `info` is decrypted. -/
theorem Endpoint.decrypted_of_open {ep : EndpointData} {encKey ciphertext : Bytes}
    {info : LocalKeyInfo} {e : DecryptEnv} {buffer : Option Nat} (mem : Mem)
    (key : ep.encKey = some encKey)
    (begun : initCrypt .ok ep.encKeyLength info = some info.aad) (env : e.Ok)
    (allocates : buffer = none → e.malloc = true) {value : Bytes} (nonempty : value ≠ [])
    (fits : value.length ≤ int32Max)
    (opens : openBlock gcm encKey info.aad ciphertext = some (info.sequenceNumber, value)) :
    Endpoint.decrypted gcm ep e ciphertext info (callerPtr buffer) mem =
      mem.store buffer value := by
  have done := decryptKeyValueData_of_open env ⟨0, callerPtr buffer⟩ mem
    (fun null => allocates (callerPtr_eq_null null)) key begun opens fits
  obtain ⟨v, opens', -, holds⟩ := decryptKeyValueData_ok key rfl done
  rw [opens] at opens'
  obtain ⟨-, rfl⟩ := Prod.mk.inj (Option.some.inj opens')
  rw [DecryptOut.Holds, if_neg nonempty] at holds
  unfold Endpoint.decrypted
  dsimp only
  rw [if_neg (by rw [done]; simp), holds.1, holds.2]

/-- A get of a block that opens to the sequence number of its `info` returns the value. -/
theorem Role.get_ok {role : Role} {t : TransferEnv} {e : DecryptEnv} {s : Endpoint}
    {info : LocalKeyInfo} {buffer : Option Nat} (mem : Mem) (region : s.ep.memoryRegion = true)
    (c : l.Configures s.ep) (size : info.key.length ≤ int32Max) (env : e.Ok)
    (allocates : buffer = none → e.malloc = true) (transfer : role = .client → t.Succeeds .read)
    {value : Bytes} (length : value.length = l.n)
    (opens : openBlock gcm l.encKey info.aad (s.blockAt info) = some (info.sequenceNumber, value)) :
    (role.get gcm t e s info (callerPtr buffer) mem).state.ep = s.ep ∧
      (role.get gcm t e s info (callerPtr buffer) mem).state.store = s.store ∧
      (role.get gcm t e s info (callerPtr buffer) mem).value ≠ .null ∧
      (role.get gcm t e s info (callerPtr buffer) mem).mem.read
        (role.get gcm t e s info (callerPtr buffer) mem).value l.n = value := by
  have nonempty : value ≠ [] := by
    intro nil
    rw [nil, List.length_nil] at length
    have := l.nonempty
    rw [Layout.n] at length
    omega
  have result : (Endpoint.decrypted gcm s.ep e (s.blockAt info) info (callerPtr buffer) mem) =
      mem.store buffer value :=
    Endpoint.decrypted_of_open mem c.encKey (initCrypt_succeeds c.encKeyLength size) env allocates
      nonempty (by rw [length]; exact l.fits) opens
  have readBack := mem.read_store buffer value
  rw [length] at readBack
  have notNull := mem.store_ne_null buffer value
  cases role with
  | server =>
      rw [Role.get, Endpoint.serverGet_eq region, result]
      exact ⟨rfl, rfl, notNull, readBack⟩
  | client =>
      obtain ⟨posted, completes⟩ := transfer rfl
      rw [Role.get, Endpoint.rdmaGet_eq region posted completes, result]
      exact ⟨rfl, rfl, notNull, readBack⟩

/-- One call answers as the map does and keeps the invariant. -/
theorem Layout.Represents.invoke {s : Instance} (r : l.Represents gcm s m)
    (lengths : ∀ j, (m j).length = l.n) {role : Role} {call : Call} (ok : call.Ok role l.num) :
    l.Represents gcm (s.invoke gcm role l.n call).1 (call.apply l.n m) ∧
      (s.invoke gcm role l.n call).2 = call.answer m := by
  cases call with
  | put j t e newValue =>
      obtain ⟨inStore, env, transfer⟩ := ok
      obtain ⟨size, offset⟩ := r.places j inStore
      obtain ⟨iv, seq, ep, store, rest⟩ :=
        Role.put_ok gcm newValue r.configures size env transfer
      unfold Instance.invoke
      dsimp only
      rw [rest]
      refine ⟨⟨?_, ?_, r.places.update j seq, ?_⟩, rfl⟩
      · rw [ep]
        exact r.region
      · rw [ep]
        exact r.configures
      · dsimp only
        rw [store, offset]
        exact r.stores.write inStore iv.length_bytes seq (length_read ..)
  | get j t e buffer =>
      obtain ⟨inStore, env, allocates, transfer⟩ := ok
      obtain ⟨size, offset⟩ := r.places j inStore
      have opens : openBlock gcm l.encKey (s.infos j).aad (s.endpoint.blockAt (s.infos j)) =
          some ((s.infos j).sequenceNumber, m j) := by
        rw [Endpoint.blockAt, offset, r.configures.toNat_blockSize]
        exact r.stores j inStore
      obtain ⟨ep, store, notNull, readBack⟩ := Role.get_ok s.mem r.region r.configures size env
        allocates transfer (lengths j) opens
      unfold Instance.invoke
      dsimp only
      rw [if_neg notNull, readBack]
      refine ⟨⟨?_, ?_, r.places, ?_⟩, rfl⟩
      · rw [ep]
        exact r.region
      · rw [ep]
        exact r.configures
      · rw [store]
        exact r.stores

end Steps

/-! ## Setting up -/

theorem toNat_ofNat_mul {i : Nat} {w : UInt64} (pos : 1 ≤ w.toNat) (lt : i * w.toNat < 2 ^ 64) :
    (UInt64.ofNat i * w).toNat = i * w.toNat := by
  have le : i ≤ i * w.toNat := Nat.le_mul_of_pos_right i pos
  rw [UInt64.toNat_mul, UInt64.toNat_ofNat', Nat.mod_eq_of_lt (by omega : i < 2 ^ 64),
    Nat.mod_eq_of_lt lt]

/-- Where the block and the plaintext of an entry start, computed as `size_t`. -/
theorem toNat_position {i : Nat} {valueSize : UInt64}
    (entry : (valueEntrySize valueSize).toNat = minValueSize + valueSize.toNat)
    (lt : i * (minValueSize + valueSize.toNat) < 2 ^ 64) :
    (UInt64.ofNat i * valueEntrySize valueSize).toNat = i * (minValueSize + valueSize.toNat) ∧
      (UInt64.ofNat i * valueSize).toNat = i * valueSize.toNat := by
  have shorter : i * valueSize.toNat ≤ i * (minValueSize + valueSize.toNat) :=
    Nat.mul_le_mul_left i (Nat.le_add_left ..)
  refine ⟨?_, ?_⟩
  · rw [toNat_ofNat_mul, entry]
    · rw [entry]
      exact Nat.le_add_right_of_le (by decide)
    · rw [entry]
      exact lt
  · rcases Nat.eq_zero_or_pos valueSize.toNat with zero | pos
    · rw [UInt64.toNat_mul, zero, Nat.mul_zero, Nat.mul_zero, Nat.zero_mod]
    · exact toNat_ofNat_mul pos (Nat.lt_of_le_of_lt shorter lt)

section Setup

variable {gcm : AesGcm} {l : Layout} {ep : EndpointData} {env : Nat → EncryptEnv} {plain : Memory}
  {infos : Nat → LocalKeyInfo}

/-- The block `setup_kv_store` makes for an entry. -/
def Layout.IsSetUp (l : Layout) (gcm : AesGcm) (plain : Memory) (infos : Nat → LocalKeyInfo)
    (j : Nat) (block : Bytes) : Prop :=
  ∃ iv : BlockIv, block = sealBlock gcm l.encKey (infos j).aad iv.bytes (infos j).sequenceNumber
    (read plain (j * l.n) l.n)

/-- The position of an entry and of its plaintext, computed as `size_t`. -/
theorem Layout.Places.toNat_mul (places : l.Places infos) {i : Nat} (inStore : i < l.num) :
    (UInt64.ofNat i * valueEntrySize l.valueSize).toNat = i * l.size ∧
      (UInt64.ofNat i * l.valueSize).toNat = i * l.n := by
  have lt := (infos i).valueOffset.toNat_lt
  rw [(places i inStore).2] at lt
  exact toNat_position (toNat_valueEntrySize l.fits) lt

/-- The loop writes the blocks of the entries it is left with one after the other, whatever
their offsets are, and does not touch those before. -/
theorem setupLoop_blocks {encKey : Bytes} {valueSize : UInt64} {num : Nat}
    (key : ep.encKey = some encKey) (block : ep.blockSize = valueEntrySize valueSize)
    (fits : valueSize.toNat ≤ int32Max)
    (positions : ∀ k, k < num →
      (UInt64.ofNat k * valueEntrySize valueSize).toNat = k * (minValueSize + valueSize.toNat) ∧
        (UInt64.ofNat k * valueSize).toNat = k * valueSize.toNat)
    {todo i : Nat} (inStore : i + todo ≤ num) {dest : Memory}
    (ok : ¬ (setupLoop gcm ep env plain valueSize infos todo i dest).2 < 0) :
    (∀ j, i ≤ j → j < i + todo → ∃ iv : BlockIv, (env j).rand = some iv ∧
      initCrypt .ok ep.encKeyLength (infos j) = some (infos j).aad ∧
      read (setupLoop gcm ep env plain valueSize infos todo i dest).1
          (j * (minValueSize + valueSize.toNat)) (minValueSize + valueSize.toNat) =
        sealBlock gcm encKey (infos j).aad iv.bytes (infos j).sequenceNumber
          (read plain (j * valueSize.toNat) valueSize.toNat)) ∧
    ∀ j, j < i →
      read (setupLoop gcm ep env plain valueSize infos todo i dest).1
          (j * (minValueSize + valueSize.toNat)) (minValueSize + valueSize.toNat) =
        read dest (j * (minValueSize + valueSize.toNat)) (minValueSize + valueSize.toNat) := by
  induction todo generalizing i dest with
  | zero => exact ⟨fun j low high => absurd high (by omega), fun _ _ => rfl⟩
  | succ todo ih =>
      obtain ⟨position, source⟩ := positions i (by omega)
      unfold setupLoop at ok ⊢
      unfold onesidedPut serverWrite at ok ⊢
      dsimp only at ok ⊢
      rw [position, source] at ok ⊢
      by_cases failed : (encryptKeyValueData gcm ep (env i) (infos i)
          fun x => plain (i * valueSize.toNat + x)).ret < 0
      · simp only [if_pos failed] at ok
        exact (ok (by simp)).elim
      · obtain ⟨iv, drawn, -, written⟩ := encryptKeyValueData_ok key failed
        have begun := initCrypt_of_encrypt key failed
        rw [valueAt_eq fits block, read_shift] at written
        simp only [if_neg failed, Int.lt_irrefl, if_false] at ok ⊢
        rw [written] at ok ⊢
        obtain ⟨after, before⟩ := ih (by omega) ok
        have blockLength : (sealBlock gcm encKey (infos i).aad iv.bytes
            (infos i).sequenceNumber (read plain (i * valueSize.toNat) valueSize.toNat)).length =
            minValueSize + valueSize.toNat := by
          rw [length_sealBlock _ _ _ _ _ iv.length_bytes, length_read]
        have here := read_write_self dest (i * (minValueSize + valueSize.toNat))
          (sealBlock gcm encKey (infos i).aad iv.bytes (infos i).sequenceNumber
            (read plain (i * valueSize.toNat) valueSize.toNat))
        rw [blockLength] at here
        refine ⟨fun j low high => ?_, fun j lt => ?_⟩
        · rcases Nat.eq_or_lt_of_le low with rfl | later
          · refine ⟨iv, drawn, begun, ?_⟩
            rw [before i (by omega), here]
          · exact after j later (by omega)
        · rw [before j (by omega), read_write_disjoint]
          rw [blockLength]
          exact entries_disjoint (by omega)

/-- The loop sets up the entries it is left with. -/
theorem setupLoop_ok (c : l.Configures ep) (places : l.Places infos) {todo i : Nat}
    (inStore : i + todo ≤ l.num) {dest : Memory}
    (ok : ¬ (setupLoop gcm ep env plain l.valueSize infos todo i dest).2 < 0) (j : Nat)
    (low : i ≤ j) (high : j < i + todo) : l.IsSetUp gcm plain infos j
      (read (setupLoop gcm ep env plain l.valueSize infos todo i dest).1 (j * l.size) l.size) := by
  obtain ⟨iv, -, -, sealed⟩ := (setupLoop_blocks c.encKey c.blockSize l.fits
    (fun _ lt => places.toNat_mul lt) inStore ok).1 j low high
  exact ⟨iv, sealed⟩

/-- A store that is returned is what the loop made of the destination. -/
theorem setupKvStore_some {encKey : Option Bytes} {encKeyLength : UInt64} {dest : Destination}
    {numValues valueSize : UInt64} {store : Memory}
    (setup : (setupKvStore gcm ep env encKey encKeyLength dest plain numValues valueSize
      infos).2 = some store) :
    ∃ ep' region, (setupKvStore gcm ep env encKey encKeyLength dest plain numValues valueSize
        infos).1 = ep' ∧
      ep'.encKey = encKey ∧ ep'.encKeyLength = encKeyLength ∧
      ep'.blockSize = valueEntrySize valueSize ∧
      ¬ (setupLoop gcm ep' env plain valueSize infos numValues.toNat 0 region).2 < 0 ∧
      (setupLoop gcm ep' env plain valueSize infos numValues.toNat 0 region).1 = store := by
  unfold setupKvStore at setup ⊢
  dsimp only at setup ⊢
  split at setup
  · cases setup
  · rename_i region _
    dsimp only at setup
    split at setup
    · cases setup
    rename_i ok
    cases setup
    exact ⟨_, region, rfl, rfl, rfl, rfl, ok, rfl⟩

/-- A store that was set up holds the plaintext values. -/
theorem stores_of_setup {dest : Destination} {numValues : UInt64} {store : Memory}
    (num : l.num = numValues.toNat) (places : l.Places infos)
    (setup : (setupKvStore gcm ep env (some l.encKey) 16 dest plain numValues l.valueSize
      infos).2 = some store) :
    l.Stores gcm infos store (latestPut l.n plain []) := by
  obtain ⟨ep', region, -, key, keyLength, block, ok, rfl⟩ := setupKvStore_some setup
  intro j inStore
  obtain ⟨iv, sealed⟩ :=
    setupLoop_ok ⟨key, keyLength, block⟩ places (by omega) ok j (Nat.zero_le j) (by omega)
  rw [sealed, openBlock_sealBlock _ _ _ _ _ iv.length_bytes]
  rfl

theorem Role.begin_ok {role : Role} {localBuf store : Memory} {s : Endpoint}
    (begun : role.begin ep localBuf store (some l.encKey) 16 l.valueSize = some s) :
    s.ep.memoryRegion = true ∧ l.Configures s.ep ∧ s.store = store := by
  have accepted : ¬ (16 : UInt64) < 16 := by decide
  cases role with
  | server =>
      simp only [Role.begin, hostServer, setupEncryption, if_neg accepted, Int.lt_irrefl,
        if_false] at begun
      cases begun
      exact ⟨rfl, ⟨rfl, rfl, rfl⟩, rfl⟩
  | client =>
      simp only [Role.begin, rdmaClientConnect, setupEncryption, if_neg accepted, Int.lt_irrefl,
        if_false] at begun
      cases begun
      exact ⟨rfl, ⟨rfl, rfl, rfl⟩, rfl⟩

end Setup

/-- The invariant after any run. -/
theorem Layout.Represents.execute {gcm : AesGcm} {l : Layout} {plain : Memory} {s : Instance}
    (start : l.Represents gcm s (latestPut l.n plain [])) (role : Role) {calls : List Call}
    (ok : ∀ call ∈ calls, call.Ok role l.num) :
    l.Represents gcm (Machine.execute (Instance.invoke gcm role l.n) s calls).1
      (latestPut l.n plain calls) := by
  induction calls using List.reverseRecOn with
  | nil => exact start
  | append_singleton calls call ih =>
      have before := ih fun c member => ok c (List.mem_append_left _ member)
      have here := ok call (List.mem_append_right _ (List.mem_singleton_self call))
      rw [execute_snoc, latestPut_snoc]
      exact (before.invoke (length_latestPut l.n plain calls) here).1

/-- One endpoint acting alone on a store that was set up sees a map: every put succeeds, and
every get returns the value of the latest put to its entry, or the plaintext of the entry. -/
theorem get_returns_latest_put (gcm : AesGcm) (encKey : Bytes) (ep : EndpointData)
    (env : Nat → EncryptEnv) (dest : Destination) (plain : Memory) (numValues valueSize : UInt64)
    (infos : Nat → LocalKeyInfo) (nonempty : 1 ≤ valueSize.toNat)
    (fits : valueSize.toNat ≤ int32Max)
    (keys : ∀ i, i < numValues.toNat → (infos i).key.length ≤ int32Max)
    (offsets : ∀ i, i < numValues.toNat →
      (infos i).valueOffset.toNat = i * (minValueSize + valueSize.toNat))
    (store : Memory)
    (setup : (setupKvStore gcm ep env (some encKey) 16 dest plain numValues valueSize infos).2 =
      some store)
    (role : Role) (ep' : EndpointData) (localBuf : Memory) (s : Endpoint)
    (begun : role.begin ep' localBuf store (some encKey) 16 valueSize = some s)
    (mem : Mem) (calls : List Call) (ok : ∀ call ∈ calls, call.Ok role numValues.toNat)
    (i : Nat) (call : Call) (at_ : calls[i]? = some call) :
    (execute (Instance.invoke gcm role valueSize.toNat) ⟨s, infos, mem⟩ calls).2[i]? =
      some (call.answer (latestPut valueSize.toNat plain (calls.take i))) := by
  let l : Layout := ⟨encKey, valueSize, numValues.toNat, nonempty, fits⟩
  have places : l.Places infos := fun j inStore => ⟨keys j inStore, offsets j inStore⟩
  obtain ⟨region, configures, rfl⟩ := Role.begin_ok (l := l) begun
  have start : l.Represents gcm ⟨s, infos, mem⟩ (latestPut l.n plain []) :=
    ⟨region, configures, places, stores_of_setup rfl places setup⟩
  have upTo : ∀ c ∈ calls.take i, c.Ok role l.num :=
    fun c member => ok c (List.mem_of_mem_take member)
  have before := start.execute role upTo
  have here := (before.invoke (length_latestPut l.n plain _)
    (ok call (List.mem_of_getElem? at_))).2
  rw [getElem?_execute _ _ at_]
  exact congrArg some here

namespace Sample

/-- The client writes to entry 1 and reads both entries. -/
def calls : List Call :=
  [.put 1 (.ok .write) (.ok (.ofNat 3)) (fun _ => 9), .get 0 (.ok .read) .ok none,
    .get 1 (.ok .read) .ok (some 100)]

theorem calls_ok : ∀ call ∈ calls, call.Ok .client 2 := by
  intro call member
  simp only [calls, List.mem_cons, List.not_mem_nil, or_false] at member
  rcases member with rfl | rfl | rfl
  · exact ⟨by decide, EncryptEnv.ok_ok _, fun _ => ⟨rfl, by decide⟩⟩
  · exact ⟨by decide, DecryptEnv.ok_ok, fun _ => rfl, fun _ => ⟨rfl, by decide⟩⟩
  · exact ⟨by decide, DecryptEnv.ok_ok, fun _ => rfl, fun _ => ⟨rfl, by decide⟩⟩

/-- The store of the sample, and the client that connects to it. -/
def setUp : Memory :=
  (setupKvStore .checksum endpointData (fun i => .ok (.ofNat (i + 1)))
    (some encKey) 16 (.fresh (some fun _ => 0)) plain 2 4 infos).2.getD fun _ => 0

def connected : Endpoint :=
  (Role.client.begin endpointData (fun _ => 0) setUp (some encKey) 16 4).getD
    ⟨endpointData, fun _ => 0, fun _ => 0⟩

end Sample

/-- The client reads back what it wrote. -/
theorem connected_get_returns_put :
    (execute (Instance.invoke .checksum .client 4) ⟨Sample.connected, Sample.infos, .empty⟩
      Sample.calls).2[2]? = some (.get (some [9, 9, 9, 9])) :=
  get_returns_latest_put .checksum Sample.encKey Sample.endpointData
    (fun i => .ok (.ofNat (i + 1))) (.fresh (some fun _ => 0)) Sample.plain 2 4 Sample.infos
    (by decide) (by decide) (by decide) (by decide) Sample.setUp rfl .client Sample.endpointData
    (fun _ => 0) Sample.connected rfl .empty Sample.calls Sample.calls_ok 2
    (.get 1 (.ok .read) .ok (some 100)) rfl

end NetworkStack.OneSided
