import NetworkStack.OneSided.MapRefinement

/-!
# What was put is got

`onesided_put` and `onesided_get` of one entry, with whatever functions they are
handed, as long as the write took effect: a read at the offset of the entry
returns the block that was placed. `put_got_iff` says for which sizes and in
which modes the get returns the value that was put. In plain mode a block has no
overhead, but `decrypt_key_value_data` refuses blocks shorter than the overhead;
in encrypted mode the value of length 0 is returned as NULL, which is also what
a failed get returns.
-/

namespace NetworkStack.OneSided

open FlatMemory

/-- Every put that returns 0 and took effect is got: the get returns the caller's buffer with
the `n` bytes that were put. -/
def PutsAreGot (gcm : AesGcm) (ep : EndpointData) (n : Nat) : Prop :=
  ∀ (σ : Type) (place : σ → Bytes → σ) (writeFunction : σ → UInt64 → σ × Int)
    (readFunction : σ → UInt64 → σ × Option Bytes) (e : EncryptEnv) (d : DecryptEnv) (s s' : σ)
    (info : LocalKeyInfo) (newValue : Memory) (buffer : Nat) (mem : Mem), d.Ok →
    onesidedPut gcm ep place writeFunction e s info newValue = (s', 0) →
    (readFunction s' info.valueOffset).2 =
      some (encryptKeyValueData gcm ep e info newValue).written →
    (onesidedGet gcm ep readFunction d s' info (.caller buffer) mem).value = .caller buffer ∧
      (onesidedGet gcm ep readFunction d s' info (.caller buffer) mem).mem.read
        (.caller buffer) n = read newValue 0 n

/-- The sizes at which it works: in plain mode those of at least the overhead of a block; in
encrypted mode all but 0, and with a key length that AES-128-GCM refuses no put returns 0. -/
def Supported (encKey : Option Bytes) (keyLength maxValSize : UInt64) : Prop :=
  match encKey with
  | none => minValueSize ≤ maxValSize.toNat
  | some _ => 1 ≤ maxValSize.toNat ∨ toInt keyLength.toNat ≠ 16

/-! ## The configuration -/

section Configuration

variable {ep : EndpointData} {keyLength maxValSize : UInt64}

theorem setupEncryption_memoryRegion (ep : EndpointData) (encKey : Option Bytes)
    (keyLength maxValSize : UInt64) :
    (setupEncryption ep encKey keyLength maxValSize).1.memoryRegion = ep.memoryRegion := by
  unfold setupEncryption
  cases encKey with
  | none => rfl
  | some key =>
      dsimp only
      split
      · rfl
      · rfl

theorem setupEncryption_some {key : Bytes}
    (accepted : (setupEncryption ep (some key) keyLength maxValSize).2 = 0) :
    (setupEncryption ep (some key) keyLength maxValSize).1.encKey = some key ∧
      (setupEncryption ep (some key) keyLength maxValSize).1.blockSize =
        valueEntrySize maxValSize ∧
      (setupEncryption ep (some key) keyLength maxValSize).1.encKeyLength = keyLength := by
  unfold setupEncryption at accepted ⊢
  dsimp only at accepted ⊢
  split at accepted
  · cases accepted
  · rename_i long
    rw [if_neg long]
    exact ⟨rfl, rfl, rfl⟩

/-- A key length that is not 16 as an `int` is refused. -/
theorem toInt_of_initCrypt {i : InitEnv} {encKeyLength : UInt64} {info : LocalKeyInfo}
    {aad : Bytes} (begun : initCrypt i encKeyLength info = some aad) :
    toInt encKeyLength.toNat = 16 := by
  unfold initCrypt at begun
  iterate 2
    split at begun
    · cases begun
  rename_i keyLength
  simp only [Bool.not_eq_true', Bool.not_eq_false, Bool.and_eq_true, decide_eq_true_eq]
    at keyLength
  exact keyLength.2

end Configuration

/-! ## When it works -/

section Works

variable {gcm : AesGcm} {ep : EndpointData} {σ : Type} {place : σ → Bytes → σ}
  {writeFunction : σ → UInt64 → σ × Int} {readFunction : σ → UInt64 → σ × Option Bytes}
  {e : EncryptEnv} {s s' : σ} {info : LocalKeyInfo} {newValue : Memory}

theorem encrypts_of_put
    (put : onesidedPut gcm ep place writeFunction e s info newValue = (s', 0)) :
    ¬ (encryptKeyValueData gcm ep e info newValue).ret < 0 := by
  intro failed
  unfold onesidedPut at put
  dsimp only at put
  rw [if_pos failed] at put
  cases put

/-- What a get makes of the block that was placed. -/
theorem get_of_effect (gcm : AesGcm) (region : ep.memoryRegion = true) {block : Bytes}
    (effect : (readFunction s' info.valueOffset).2 = some block) (d : DecryptEnv) (value : Ptr)
    (mem : Mem) :
    (onesidedGet gcm ep readFunction d s' info value mem).value =
        (Endpoint.decrypted gcm ep d block info value mem).1 ∧
      (onesidedGet gcm ep readFunction d s' info value mem).mem =
        (Endpoint.decrypted gcm ep d block info value mem).2 := by
  have fetches : readFunction s' info.valueOffset =
      ((readFunction s' info.valueOffset).1, some block) := Prod.ext rfl effect
  rw [Endpoint.onesidedGet_eq region fetches]
  exact ⟨rfl, rfl⟩

theorem read_store_caller (mem : Mem) (buffer : Nat) (src : Bytes) :
    (mem.store (some buffer) src).2.read (.caller buffer) src.length = src :=
  mem.read_store (some buffer) src

/-- In plain mode the block is copied back. -/
theorem putsAreGot_plain (region : ep.memoryRegion = true) (plain : ep.encKey = none)
    (long : minValueSize ≤ ep.blockSize.toNat) : PutsAreGot gcm ep ep.blockSize.toNat := by
  intro σ place writeFunction readFunction e d s s' info newValue buffer mem _ _ effect
  have written : (encryptKeyValueData gcm ep e info newValue).written =
      read newValue 0 ep.blockSize.toNat := by
    unfold encryptKeyValueData
    rw [plain]
  rw [written] at effect
  rcases get_of_effect gcm region effect d (.caller buffer) mem with ⟨value, memory⟩
  have caller : (⟨0, .caller buffer⟩ : KeyValueData).value = callerPtr (some buffer) := rfl
  have longBlock : minValueSize ≤ (read newValue 0 ep.blockSize.toNat).length := by
    rw [length_read]
    exact long
  obtain ⟨ret, pointer, filled⟩ :=
    decryptKeyValueData_plain (e := d) gcm plain info _ mem caller (by simp) longBlock
  have copied := read_store_caller mem buffer (read newValue 0 ep.blockSize.toNat)
  rw [length_read] at copied
  rw [value, memory]
  unfold Endpoint.decrypted
  dsimp only
  rw [ret, if_neg (Int.lt_irrefl 0), pointer, filled]
  exact ⟨rfl, copied⟩

/-- In encrypted mode a value of at least one byte is decrypted. -/
theorem putsAreGot_encrypted (region : ep.memoryRegion = true) {encKey : Bytes}
    (key : ep.encKey = some encKey) {n : UInt64} (block : ep.blockSize = valueEntrySize n)
    (fits : n.toNat ≤ int32Max) (nonempty : 1 ≤ n.toNat) : PutsAreGot gcm ep n.toNat := by
  intro σ place writeFunction readFunction e d s s' info newValue buffer mem ok put effect
  have encrypted := encrypts_of_put put
  rcases encryptKeyValueData_ok key encrypted with ⟨iv, -, -, written⟩
  rw [valueAt_eq fits block] at written
  rw [written] at effect
  have opens := openBlock_sealBlock gcm encKey info.aad info.sequenceNumber
    (read newValue 0 n.toNat) iv.length_bytes
  have size : (read newValue 0 n.toNat).length ≤ int32Max := by
    rw [length_read]
    exact fits
  have some_ : read newValue 0 n.toNat ≠ [] := by
    intro nil
    have zero := congrArg List.length nil
    rw [length_read, List.length_nil] at zero
    omega
  have result : Endpoint.decrypted gcm ep d (sealBlock gcm encKey info.aad iv.bytes
      info.sequenceNumber (read newValue 0 n.toNat)) info (callerPtr (some buffer)) mem =
        mem.store (some buffer) (read newValue 0 n.toNat) :=
    Endpoint.decrypted_of_open mem key (initCrypt_of_encrypt key encrypted) ok (by simp) some_ size
      opens
  rcases get_of_effect gcm region effect d (callerPtr (some buffer)) mem with ⟨value, memory⟩
  have copied := read_store_caller mem buffer (read newValue 0 n.toNat)
  rw [length_read] at copied
  rw [result] at value memory
  refine ⟨value, ?_⟩
  change (onesidedGet gcm ep readFunction d s' info (callerPtr (some buffer)) mem).mem.read _ _ = _
  rw [memory]
  exact copied

/-- With a key length that is refused, no put returns 0. -/
theorem putsAreGot_refused {encKey : Bytes} (key : ep.encKey = some encKey)
    (refused : toInt ep.encKeyLength.toNat ≠ 16) (n : Nat) : PutsAreGot gcm ep n := by
  intro σ place writeFunction readFunction e d s s' info newValue buffer mem _ put _
  exact (refused (toInt_of_initCrypt (initCrypt_of_encrypt key (encrypts_of_put put)))).elim

end Works

/-! ## When it does not -/

section Fails

variable {gcm : AesGcm} {ep : EndpointData} {n : Nat}

/-- A block whose decryption returns NULL is not got; here the block is kept as it is. -/
theorem not_putsAreGot (region : ep.memoryRegion = true) {e : EncryptEnv} {info : LocalKeyInfo}
    {newValue : Memory} (encrypts : (encryptKeyValueData gcm ep e info newValue).ret = 0)
    (null : ∀ mem, (Endpoint.decrypted gcm ep .ok
      (encryptKeyValueData gcm ep e info newValue).written info (.caller 0) mem).1 = .null) :
    ¬ PutsAreGot gcm ep n := by
  intro all
  have put : onesidedPut gcm ep (fun _ block => block) serverWrite e [] info newValue =
      ((encryptKeyValueData gcm ep e info newValue).written, 0) := by
    unfold onesidedPut serverWrite
    dsimp only
    rw [if_neg (by rw [encrypts]; simp)]
  have got := (all Bytes _ _ (fun block _ => (block, some block)) e .ok _ _ info newValue 0 .empty
    DecryptEnv.ok_ok put rfl).1
  have effect : ((fun (block : Bytes) (_ : UInt64) => (block, some block))
      (encryptKeyValueData gcm ep e info newValue).written info.valueOffset).2 =
        some (encryptKeyValueData gcm ep e info newValue).written := rfl
  rw [(get_of_effect gcm region effect .ok (.caller 0) .empty).1, null] at got
  cases got

/-- A plain block that is shorter than the overhead is refused. -/
theorem not_putsAreGot_plain (region : ep.memoryRegion = true) (plain : ep.encKey = none)
    (short : ep.blockSize.toNat < minValueSize) : ¬ PutsAreGot gcm ep n := by
  have copied : encryptKeyValueData gcm ep (.ok (.ofNat 0)) ⟨0, [], 0⟩ (fun _ => 0) =
      ⟨read (fun _ => 0) 0 ep.blockSize.toNat, 0⟩ := by
    unfold encryptKeyValueData
    rw [plain]
  apply not_putsAreGot region (e := .ok (.ofNat 0))
  · rw [copied]
  · intro mem
    rw [copied]
    unfold Endpoint.decrypted decryptKeyValueData
    dsimp only
    rw [length_read, if_pos short, if_pos (by simp)]

/-- A value of length 0 is returned as NULL. -/
theorem not_putsAreGot_empty (region : ep.memoryRegion = true) {encKey : Bytes}
    (key : ep.encKey = some encKey) (block : ep.blockSize = valueEntrySize 0)
    (sixteen : toInt ep.encKeyLength.toNat = 16) : ¬ PutsAreGot gcm ep n := by
  have length : 0 ≤ ep.valueLength := by
    rw [valueLength_eq (by decide) block]
    decide
  have begun : initCrypt .ok ep.encKeyLength ⟨0, [], 0⟩ = some _ :=
    initCrypt_of_toInt sixteen (Nat.zero_le _)
  have encrypts := encryptKeyValueData_succeeds gcm (EncryptEnv.ok_ok (.ofNat 0)) length begun
    (fun _ => 0)
  obtain ⟨iv, -, -, written⟩ := encryptKeyValueData_ok key (by rw [encrypts]; simp)
  apply not_putsAreGot region encrypts
  intro mem
  have caller : (⟨0, .caller 0⟩ : KeyValueData).value = callerPtr (some 0) := rfl
  unfold Endpoint.decrypted
  dsimp only
  split
  · rfl
  · rename_i ok
    have done := (decryptKeyValueData_ret ..).resolve_right
      fun failed => ok (by rw [failed]; simp)
    rcases decryptKeyValueData_ok key caller done with ⟨v, opens, -, holds⟩
    rw [written, openBlock_sealBlock _ _ _ _ _ iv.length_bytes,
      valueAt_eq (by decide) block] at opens
    rcases Prod.mk.inj (Option.some.inj opens) with ⟨-, rfl⟩
    rw [DecryptOut.Holds, if_pos (by rfl)] at holds
    exact holds.1

end Fails

/-- For every mode and size that `setup_encryption` accepts: whatever is put is got exactly at
the supported sizes. -/
theorem put_got_iff (gcm : AesGcm) (ep : EndpointData) (encKey : Option Bytes)
    (keyLength maxValSize : UInt64) (bound : maxValSize.toNat ≤ int32Max - minValueSize)
    (region : ep.memoryRegion = true)
    (accepted : (setupEncryption ep encKey keyLength maxValSize).2 = 0) :
    PutsAreGot gcm (setupEncryption ep encKey keyLength maxValSize).1 maxValSize.toNat ↔
      Supported encKey keyLength maxValSize := by
  have fits : maxValSize.toNat ≤ int32Max := by omega
  rw [← setupEncryption_memoryRegion ep encKey keyLength maxValSize] at region
  cases encKey with
  | none =>
      have plain : (setupEncryption ep none keyLength maxValSize).1.encKey = none := rfl
      have block : (setupEncryption ep none keyLength maxValSize).1.blockSize = maxValSize := rfl
      generalize (setupEncryption ep none keyLength maxValSize).1 = ep' at region plain block ⊢
      subst block
      unfold Supported
      constructor
      · intro got
        by_contra short
        exact not_putsAreGot_plain region plain (by omega) got
      · intro long
        exact putsAreGot_plain region plain long
  | some key =>
      rcases setupEncryption_some accepted with ⟨keyEq, block, keyLengthEq⟩
      generalize (setupEncryption ep (some key) keyLength maxValSize).1 = ep'
        at region keyEq block keyLengthEq ⊢
      subst keyLengthEq
      unfold Supported
      constructor
      · intro got
        by_contra neither
        rw [not_or, not_not] at neither
        have zero : maxValSize = 0 := by
          have small := neither.1
          apply UInt64.toNat_inj.mp
          rw [UInt64.toNat_zero]
          omega
        rw [zero] at block
        exact not_putsAreGot_empty region keyEq block neither.2 got
      · rintro (nonempty | refused)
        · exact putsAreGot_encrypted region keyEq block fits nonempty
        · exact putsAreGot_refused keyEq refused _

namespace Sample

/-- A server in the given mode. -/
def server (encKey : Option Bytes) (maxValSize : UInt64) : Endpoint :=
  ⟨(setupEncryption { endpointData with memoryRegion := true } encKey 16 maxValSize).1,
    fun _ => 0, fun _ => 0⟩

/-- What a get returns right after a put of entry 1. -/
def putThenGet (s : Endpoint) : Int × GetOut Endpoint :=
  let r := s.serverPut .checksum (.ok (.ofNat 3)) (infos 1) plain
  (r.2, r.1.serverGet .checksum .ok (infos 1) (.caller 100) .empty)

end Sample

/-- A server that encrypts returns the four bytes that were put. -/
theorem server_returns_four_bytes :
    (Sample.putThenGet (Sample.server (some Sample.encKey) 4)).2.mem.read (.caller 100) 4 =
      [0, 1, 2, 3] := by
  have got := (put_got_iff .checksum { Sample.endpointData with memoryRegion := true }
    (some Sample.encKey) 16 4 (by decide) rfl rfl).mpr (Or.inl (by decide))
  have returned : (Sample.putThenGet (Sample.server (some Sample.encKey) 4)).1 = 0 := by
    decide +kernel
  have effect : (Endpoint.serverRead ((Sample.server (some Sample.encKey) 4).serverPut .checksum
      (.ok (.ofNat 3)) (Sample.infos 1) Sample.plain).1 (Sample.infos 1).valueOffset).2 =
        some (encryptKeyValueData .checksum (Sample.server (some Sample.encKey) 4).ep
          (.ok (.ofNat 3)) (Sample.infos 1) Sample.plain).written := by
    decide +kernel
  have bytes : read Sample.plain 0 (4 : UInt64).toNat = [0, 1, 2, 3] := by decide
  rw [← bytes]
  exact (got Endpoint (fun s src => { s with
      store := write s.store (Sample.infos 1).valueOffset.toNat src }) serverWrite
    Endpoint.serverRead (.ok (.ofNat 3)) .ok (Sample.server (some Sample.encKey) 4) _
    (Sample.infos 1) Sample.plain 100 .empty DecryptEnv.ok_ok (Prod.ext rfl returned) effect).2

/-- Without a key a value of four bytes is put and not got, and neither is one of length 0
with a key. -/
theorem short_values_not_got :
    (Sample.putThenGet (Sample.server none 4)).1 = 0 ∧
      (Sample.putThenGet (Sample.server none 4)).2.value = .null ∧
      (Sample.putThenGet (Sample.server (some Sample.encKey) 0)).1 = 0 ∧
      (Sample.putThenGet (Sample.server (some Sample.encKey) 0)).2.value = .null := by
  decide +kernel

end NetworkStack.OneSided
