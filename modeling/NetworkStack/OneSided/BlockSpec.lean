import NetworkStack.OneSided.Block

/-!
# What the blocks are for

`sealBlock` is the block of a sequence number and a value under an IV and the
additional data of an entry, and `openBlock` the sequence number and the value
a block authentically carries. A successful `encrypt_key_value_data` writes a
sealed block; a successful `decrypt_key_value_data` returns the value of a block
that opens to the sequence number of its `info`, and succeeds on every such
block when no library call fails. The additional data determines the key and
the offset it was made from.
-/

namespace NetworkStack.OneSided

open ByteStream FlatMemory SealedFrame

/-! ## Sealing and opening -/

def sealBlock (gcm : AesGcm) (encKey aad iv : Bytes) (seq : UInt64) (value : Bytes) : Bytes :=
  sealFrame (gcm.keystream encKey) (fun iv body => gcm.mac encKey iv aad body) iv
    (toLE seqSize seq.toNat ++ value)

def openBlock (gcm : AesGcm) (encKey aad ciphertext : Bytes) : Option (UInt64 × Bytes) :=
  if ciphertext.length < minValueSize then none
  else
    (openFrame (gcm.keystream encKey) (fun iv body => gcm.mac encKey iv aad body) ivSize macSize
      ciphertext).map fun plain =>
        (UInt64.ofNat (ofLE (plain.take seqSize)), plain.drop seqSize)

theorem length_mac (gcm : AesGcm) (encKey iv aad body : Bytes) :
    (gcm.mac encKey iv aad body).length = macSize :=
  gcm.mac_length encKey iv aad body

section Sealing

variable (gcm : AesGcm) (encKey aad : Bytes) {iv : Bytes} (seq : UInt64) (value : Bytes)

theorem length_sealBlock (ivLength : iv.length = ivSize) :
    (sealBlock gcm encKey aad iv seq value).length = minValueSize + value.length := by
  rw [sealBlock, length_sealFrame _ _ _ ivLength fun body => length_mac gcm encKey iv aad body,
    List.length_append, length_toLE]
  simp only [minValueSize]
  omega

/-- A sealed block opens to its sequence number and value. -/
theorem openBlock_sealBlock (ivLength : iv.length = ivSize) :
    openBlock gcm encKey aad (sealBlock gcm encKey aad iv seq value) = some (seq, value) := by
  have opened : openFrame (gcm.keystream encKey) (fun iv body => gcm.mac encKey iv aad body)
      ivSize macSize (sealBlock gcm encKey aad iv seq value) =
        some (toLE seqSize seq.toNat ++ value) :=
    openFrame_sealFrame _ ivLength fun body => length_mac gcm encKey iv aad body
  have long : ¬ (sealBlock gcm encKey aad iv seq value).length < minValueSize := by
    rw [length_sealBlock gcm encKey aad seq value ivLength]
    omega
  rw [openBlock, if_neg long, opened, Option.map_some,
    List.take_left' (length_toLE _ _), List.drop_left' (length_toLE _ _), seqSize,
    ofNat_ofLE_toLE]

end Sealing

/-- A block that opens is the seal of what it opens to. -/
theorem eq_sealBlock_of_open {gcm : AesGcm} {encKey aad ciphertext : Bytes} {seq : UInt64}
    {value : Bytes} (opens : openBlock gcm encKey aad ciphertext = some (seq, value)) :
    ciphertext = sealBlock gcm encKey aad (ivOf ivSize ciphertext) seq value ∧
      (ivOf ivSize ciphertext).length = ivSize ∧
      ciphertext.length = minValueSize + value.length := by
  unfold openBlock at opens
  split at opens
  · cases opens
  rename_i short
  obtain ⟨plain, opened, parts⟩ := Option.map_eq_some_iff.mp opens
  obtain ⟨long, frame⟩ := eq_sealFrame_of_open opened
  have ivLength := length_ivOf long
  have length := length_sealFrame (gcm.keystream encKey)
    (fun iv body => gcm.mac encKey iv aad body) plain ivLength
    fun body => length_mac gcm encKey _ aad body
  rw [← frame] at length
  have seqLength : (plain.take seqSize).length = seqSize := by
    rw [List.length_take]
    simp only [minValueSize] at *
    omega
  obtain ⟨rfl, rfl⟩ := Prod.mk.inj parts
  refine ⟨?_, ivLength, ?_⟩
  · have stored : toLE seqSize (UInt64.ofNat (ofLE (plain.take seqSize))).toNat =
        plain.take seqSize := toLE_ofNat_ofLE seqLength
    rw [sealBlock, stored, List.take_append_drop]
    exact frame
  · rw [List.length_drop]
    simp only [minValueSize] at *
    omega

/-! ## Sizes as `int` -/

theorem toInt_of_le {n : Nat} (le : n ≤ int32Max) : toInt n = n := by
  rw [int32Max] at le
  unfold toInt
  rw [Int.bmod_def]
  omega

theorem le_of_toInt_eq {n : Nat} (eq : toInt n = n) : n ≤ int32Max := by
  have lt := Int.bmod_lt (x := (n : Int)) (m := 2 ^ 32) (by decide)
  unfold toInt at eq
  rw [eq] at lt
  rw [int32Max]
  omega

/-! ## Additional data -/

/-- The additional data of an entry: its key, then its offset. -/
def LocalKeyInfo.aad (info : LocalKeyInfo) : Bytes :=
  info.key.take (toInt info.key.length).toNat ++ toLE 8 info.valueOffset.toNat

theorem initCrypt_eq_some {e : InitEnv} {encKeyLength : UInt64} {info : LocalKeyInfo}
    {aad : Bytes} (some : initCrypt e encKeyLength info = some aad) : aad = info.aad := by
  unfold initCrypt at some
  iterate 4
    split at some
    · cases some
  exact (Option.some.inj some).symm

/-- The additional data ends with the offset. -/
theorem LocalKeyInfo.valueOffset_of_aad {info info' : LocalKeyInfo} (eq : info.aad = info'.aad) :
    info.valueOffset = info'.valueOffset :=
  UInt64.toNat_inj.mp
    (append_toLE_inj info.valueOffset.toNat_lt info'.valueOffset.toNat_lt eq).2

/-- The additional data determines key and offset. -/
theorem LocalKeyInfo.aad_inj {info info' : LocalKeyInfo} (size : info.key.length ≤ int32Max)
    (size' : info'.key.length ≤ int32Max) (eq : info.aad = info'.aad) :
    info.key = info'.key ∧ info.valueOffset = info'.valueOffset := by
  simp only [LocalKeyInfo.aad, toInt_of_le size, toInt_of_le size', Int.toNat_natCast,
    List.take_length] at eq
  obtain ⟨key, offset⟩ := append_toLE_inj info.valueOffset.toNat_lt info'.valueOffset.toNat_lt eq
  exact ⟨key, UInt64.toNat_inj.mp offset⟩

/-! ## `encrypt_key_value_data` -/

/-- No call of `init_crypt` fails. -/
structure InitEnv.Ok (e : InitEnv) : Prop where
  setIvLen : e.setIvLen = true
  setKeyLength : e.setKeyLength = true
  aadKey : e.aadKey = true
  aadOffset : e.aadOffset = true

instance (e : InitEnv) : Decidable e.Ok :=
  decidable_of_iff
    (e.setIvLen = true ∧ e.setKeyLength = true ∧ e.aadKey = true ∧ e.aadOffset = true)
    ⟨fun ⟨a, b, c, d⟩ => ⟨a, b, c, d⟩, fun ⟨a, b, c, d⟩ => ⟨a, b, c, d⟩⟩

/-- `init_crypt` without failures. -/
def InitEnv.ok : InitEnv := ⟨true, true, true, true⟩

theorem InitEnv.Ok.eq_ok {e : InitEnv} (env : e.Ok) : e = .ok := by
  rcases e with ⟨a, b, c, d⟩
  obtain ⟨rfl, rfl, rfl, rfl⟩ := env
  rfl

/-- With a key length that is 16 as an `int` and an entry whose key fits one, nothing else is
refused. -/
theorem initCrypt_of_toInt {encKeyLength : UInt64} {info : LocalKeyInfo}
    (fixed : toInt encKeyLength.toNat = 16) (size : info.key.length ≤ int32Max) :
    initCrypt .ok encKeyLength info = some info.aad := by
  unfold initCrypt InitEnv.ok
  rw [if_neg (by simp), if_neg (by simp [fixed]), if_neg (by simp [toInt_of_le size]),
    if_neg (by simp)]
  rfl

theorem initCrypt_succeeds {encKeyLength : UInt64} {info : LocalKeyInfo}
    (keyLength : encKeyLength = 16) (size : info.key.length ≤ int32Max) :
    initCrypt .ok encKeyLength info = some info.aad := by
  have fixed : toInt encKeyLength.toNat = 16 := by
    rw [keyLength]
    exact toInt_of_le (n := 16) (by decide)
  exact initCrypt_of_toInt fixed size

theorem InitEnv.ok_of_initCrypt {e : InitEnv} {encKeyLength : UInt64} {info : LocalKeyInfo}
    {aad : Bytes} (some : initCrypt e encKeyLength info = some aad) : e.Ok := by
  unfold initCrypt at some
  iterate 4
    split at some
    · cases some
  rename_i ivLen keyLength aadKey offset
  simp only [Bool.not_eq_true', Bool.not_eq_false] at ivLen offset
  simp only [Bool.not_eq_true', Bool.not_eq_false, Bool.and_eq_true] at keyLength aadKey
  exact ⟨ivLen, keyLength.1, aadKey.1, offset⟩

/-- No OpenSSL call fails. -/
structure EncryptEnv.Ok (e : EncryptEnv) : Prop where
  rand : e.rand ≠ none
  ctxNew : e.ctxNew = true
  initEx : e.initEx = true
  init : e.init.Ok
  seqUpdate : e.seqUpdate = true
  valueUpdate : e.valueUpdate = true
  final : e.final = true
  getTag : e.getTag = true

instance (e : EncryptEnv) : Decidable e.Ok :=
  decidable_of_iff
    (e.rand ≠ none ∧ e.ctxNew = true ∧ e.initEx = true ∧ e.init.Ok ∧ e.seqUpdate = true ∧
      e.valueUpdate = true ∧ e.final = true ∧ e.getTag = true)
    ⟨fun ⟨a, b, c, d, f, g, h, i⟩ => ⟨a, b, c, d, f, g, h, i⟩,
      fun ⟨a, b, c, d, f, g, h, i⟩ => ⟨a, b, c, d, f, g, h, i⟩⟩

/-- The length of the value in a block whose value fits an `int`. -/
theorem EndpointData.valueLength_of_size {ep : EndpointData} {n : Nat} (fits : n ≤ int32Max)
    (size : ep.blockSize.toNat = minValueSize + n) : ep.valueLength = n := by
  have le : UInt64.ofNat minValueSize ≤ ep.blockSize := by
    apply UInt64.le_iff_toNat_le.mpr
    have small : (UInt64.ofNat minValueSize).toNat = minValueSize := rfl
    omega
  have rest : (ep.blockSize - UInt64.ofNat minValueSize).toNat = n := by
    rw [UInt64.toNat_sub_of_le _ _ le, size]
    exact Nat.add_sub_cancel_left ..
  rw [EndpointData.valueLength, rest]
  exact toInt_of_le fits

section Encrypt

variable {gcm : AesGcm} {encKey iv aad : Bytes} {ep : EndpointData} {e : EncryptEnv}
  {info : LocalKeyInfo} {newValue : Memory}

/-- The value that is enciphered. -/
def EndpointData.valueAt (ep : EndpointData) (newValue : Memory) : Bytes :=
  read newValue 0 ep.valueLength.toNat

theorem encryptEntry_ok
    (ok : ¬ (encryptEntry gcm encKey iv aad ep e info newValue).ret < 0) :
    (encryptEntry gcm encKey iv aad ep e info newValue).written =
        sealBlock gcm encKey aad iv info.sequenceNumber (ep.valueAt newValue) ∧
      0 ≤ ep.valueLength := by
  unfold encryptEntry at ok ⊢
  dsimp only at ok ⊢
  split at ok
  · exact (ok (by simp)).elim
  rename_i seqOk
  split at ok
  · exact (ok (by simp)).elim
  rename_i valueOk
  split at ok
  · exact (ok (by simp)).elim
  rename_i lengthOk
  split at ok
  · exact (ok (by simp)).elim
  rename_i finalOk
  split at ok
  · exact (ok (by simp)).elim
  rename_i tagOk
  rw [if_neg seqOk, if_neg valueOk, if_neg lengthOk, if_neg finalOk, if_neg tagOk]
  refine ⟨?_, Int.not_lt.mp lengthOk⟩
  simp only [sealBlock, sealFrame, EndpointData.valueAt, xorStream_append, length_toLE,
    Nat.zero_add]

/-- A successful `encrypt_key_value_data` writes a sealed block. -/
theorem encryptKeyValueData_ok (key : ep.encKey = some encKey)
    (ok : ¬ (encryptKeyValueData gcm ep e info newValue).ret < 0) :
    ∃ iv, e.rand = some iv ∧ 0 ≤ ep.valueLength ∧
      (encryptKeyValueData gcm ep e info newValue).written =
        sealBlock gcm encKey info.aad iv.bytes info.sequenceNumber (ep.valueAt newValue) := by
  unfold encryptKeyValueData at ok ⊢
  simp only [key] at ok ⊢
  cases drawn : e.rand with
  | none => simp [drawn] at ok
  | some iv =>
      simp only [drawn] at ok ⊢
      split at ok
      · exact (ok (by simp)).elim
      rename_i ctxOk
      split at ok
      · exact (ok (by simp)).elim
      rename_i initOk
      rw [if_neg ctxOk, if_neg initOk]
      cases begun : initCrypt e.init ep.encKeyLength info with
      | none => simp [begun] at ok
      | some aad =>
          simp only [begun] at ok ⊢
          obtain ⟨written, length⟩ := encryptEntry_ok ok
          rw [written, initCrypt_eq_some begun]
          exact ⟨iv, rfl, length, rfl⟩

/-- Without an IV nothing is written. -/
theorem encryptKeyValueData_of_rand_none (key : ep.encKey = some encKey) (drawn : e.rand = none) :
    (encryptKeyValueData gcm ep e info newValue).written = [] := by
  unfold encryptKeyValueData
  simp only [key, drawn]

/-- Once an IV is drawn, what is written starts with it, also if a later call fails. -/
theorem encryptKeyValueData_of_rand (gcm : AesGcm) (key : ep.encKey = some encKey) {iv : BlockIv}
    (drawn : e.rand = some iv) (info : LocalKeyInfo) (newValue : Memory) :
    ∃ rest, (encryptKeyValueData gcm ep e info newValue).written = iv.bytes ++ rest := by
  have alone : ∃ rest, iv.bytes = iv.bytes ++ rest := ⟨[], (List.append_nil _).symm⟩
  unfold encryptKeyValueData
  simp only [key, drawn]
  split
  · exact alone
  split
  · exact alone
  split
  · exact alone
  · unfold encryptEntry
    dsimp only
    split
    · exact alone
    iterate 4
      split
      · exact ⟨_, rfl⟩
    exact ⟨_, rfl⟩

/-- In encrypted mode `encrypt_key_value_data` succeeds only if no OpenSSL call fails. -/
theorem EncryptEnv.ok_of_encrypt (key : ep.encKey = some encKey)
    (ok : ¬ (encryptKeyValueData gcm ep e info newValue).ret < 0) : e.Ok := by
  unfold encryptKeyValueData at ok
  simp only [key] at ok
  cases drawn : e.rand with
  | none => simp [drawn] at ok
  | some iv =>
      simp only [drawn] at ok
      iterate 2
        split at ok
        · exact (ok (by simp)).elim
      rename_i ctxOk initOk
      cases begun : initCrypt e.init ep.encKeyLength info with
      | none => simp [begun] at ok
      | some aad =>
          simp only [begun, encryptEntry] at ok
          iterate 5
            split at ok
            · exact (ok (by simp)).elim
          rename_i seqOk valueOk _ finalOk tagOk
          simp only [Bool.not_eq_true', Bool.not_eq_false]
            at ctxOk initOk seqOk valueOk finalOk tagOk
          exact ⟨by rw [drawn]; simp, ctxOk, initOk, InitEnv.ok_of_initCrypt begun, seqOk,
            valueOk, finalOk, tagOk⟩

/-- `encrypt_key_value_data` succeeds only after `init_crypt`. -/
theorem initCrypt_of_encrypt (key : ep.encKey = some encKey)
    (ok : ¬ (encryptKeyValueData gcm ep e info newValue).ret < 0) :
    initCrypt .ok ep.encKeyLength info = some info.aad := by
  have env := EncryptEnv.ok_of_encrypt key ok
  obtain ⟨iv, drawn⟩ := Option.ne_none_iff_exists'.mp env.rand
  unfold encryptKeyValueData at ok
  simp only [key, drawn, env.ctxNew, env.initEx, Bool.not_true, Bool.false_eq_true,
    if_false] at ok
  cases begun : initCrypt e.init ep.encKeyLength info with
  | none => simp [begun] at ok
  | some aad => rw [← env.init.eq_ok, begun, initCrypt_eq_some begun]

/-- When no library call fails, `encrypt_key_value_data` succeeds. -/
theorem encryptKeyValueData_succeeds (gcm : AesGcm) {ep : EndpointData} (env : e.Ok)
    (length : 0 ≤ ep.valueLength) {info : LocalKeyInfo} {aad : Bytes}
    (begun : initCrypt .ok ep.encKeyLength info = some aad) (newValue : Memory) :
    (encryptKeyValueData gcm ep e info newValue).ret = 0 := by
  unfold encryptKeyValueData
  cases ep.encKey with
  | none => rfl
  | some encKey =>
      obtain ⟨iv, drawn⟩ := Option.ne_none_iff_exists'.mp env.rand
      rw [← env.init.eq_ok] at begun
      simp only [drawn, begun]
      unfold encryptEntry
      dsimp only
      rw [if_neg (by simp [env.ctxNew]), if_neg (by simp [env.initEx]),
        if_neg (by simp [env.seqUpdate]), if_neg (by simp [env.valueUpdate]),
        if_neg (Int.not_lt.mpr length), if_neg (by simp [env.final]),
        if_neg (by simp [env.getTag])]

/-- The sizes are ones that OpenSSL takes: of the encryption key, of the key of the entry, and of
the value. -/
def EndpointData.Accepts (ep : EndpointData) (info : LocalKeyInfo) : Prop :=
  initCrypt .ok ep.encKeyLength info ≠ none ∧ 0 ≤ ep.valueLength

instance (ep : EndpointData) (info : LocalKeyInfo) : Decidable (ep.Accepts info) :=
  inferInstanceAs (Decidable (_ ∧ _))

/-- In encrypted mode `encrypt_key_value_data` succeeds exactly if no OpenSSL call fails and the
sizes are accepted. -/
theorem encryptKeyValueData_succeeds_iff (key : ep.encKey = some encKey) :
    ¬ (encryptKeyValueData gcm ep e info newValue).ret < 0 ↔ e.Ok ∧ ep.Accepts info := by
  constructor
  · intro ok
    obtain ⟨-, -, length, -⟩ := encryptKeyValueData_ok key ok
    refine ⟨EncryptEnv.ok_of_encrypt key ok, ?_, length⟩
    rw [initCrypt_of_encrypt key ok]
    exact Option.some_ne_none _
  · rintro ⟨env, begins, length⟩
    obtain ⟨aad, begun⟩ := Option.ne_none_iff_exists'.mp begins
    rw [encryptKeyValueData_succeeds gcm env length begun newValue]
    exact Int.lt_irrefl 0

theorem encryptKeyValueData_ret (gcm : AesGcm) (ep : EndpointData) (e : EncryptEnv)
    (info : LocalKeyInfo) (newValue : Memory) :
    (encryptKeyValueData gcm ep e info newValue).ret = 0 ∨
      (encryptKeyValueData gcm ep e info newValue).ret = -1 := by
  unfold encryptKeyValueData encryptEntry
  dsimp only
  split
  · exact Or.inl rfl
  split
  · exact Or.inr rfl
  iterate 2
    split
    · exact Or.inr rfl
  split
  · exact Or.inr rfl
  iterate 5
    split
    · exact Or.inr rfl
  exact Or.inl rfl

end Encrypt

/-! ## `decrypt_key_value_data` -/

/-- No OpenSSL call fails. -/
structure DecryptEnv.Ok (e : DecryptEnv) : Prop where
  ctxNew : e.ctxNew = true
  initEx : e.initEx = true
  setTag : e.setTag = true
  init : e.init.Ok
  seqUpdate : e.seqUpdate = true
  valueUpdate : e.valueUpdate = true
  final : e.final = true

section Decrypt

variable {gcm : AesGcm} {encKey aad ciphertext : Bytes} {ep : EndpointData} {e : DecryptEnv}
  {info : LocalKeyInfo} {data : KeyValueData} {mem : Mem}

/-- The value of a block, authentic or not. -/
def rawValue (gcm : AesGcm) (encKey ciphertext : Bytes) : Bytes :=
  xorStream (gcm.keystream encKey (ivOf ivSize ciphertext)) seqSize
    ((ciphertext.drop (ivSize + seqSize)).take (ciphertext.length - minValueSize))

theorem length_rawValue (gcm : AesGcm) (encKey ciphertext : Bytes) :
    (rawValue gcm encKey ciphertext).length = ciphertext.length - minValueSize := by
  rw [rawValue, length_xorStream, List.length_take, List.length_drop]
  simp only [minValueSize]
  omega

/-- A block that is long enough opens to what is read from it if its tag is right. -/
theorem openBlock_eq (long : minValueSize ≤ ciphertext.length) :
    openBlock gcm encKey aad ciphertext =
      if tagMatches gcm encKey aad ciphertext then
        some (rawSeq gcm encKey ciphertext, rawValue gcm encKey ciphertext)
      else none := by
  have frameLong : ¬ ciphertext.length < ivSize + macSize := by
    simp only [minValueSize] at long
    omega
  have seqPart : (bodyOf ivSize macSize ciphertext).take seqSize =
      (ciphertext.drop ivSize).take seqSize := by
    rw [bodyOf, List.take_take]
    congr 1
    simp only [minValueSize] at long
    omega
  have valuePart : (bodyOf ivSize macSize ciphertext).drop seqSize =
      (ciphertext.drop (ivSize + seqSize)).take (ciphertext.length - minValueSize) := by
    have size : ciphertext.length - ivSize - macSize - seqSize =
        ciphertext.length - minValueSize := by
      simp only [minValueSize]
      omega
    rw [bodyOf, List.drop_take, List.drop_drop, size]
  rw [openBlock, if_neg (by omega), openFrame, if_neg frameLong]
  unfold tagMatches
  by_cases right : gcm.mac encKey (ivOf ivSize ciphertext) aad (bodyOf ivSize macSize ciphertext) =
      tagOf macSize ciphertext
  · rw [if_pos right, if_pos (decide_eq_true right), Option.map_some, take_xorStream,
      drop_xorStream, Nat.zero_add, seqPart, valuePart]
    rfl
  · rw [if_neg right, if_neg (by simpa using right), Option.map_none]

theorem finishDecryption_ok {toFree : Bool}
    (ok : (finishDecryption gcm encKey aad e ciphertext info data mem toFree).ret = 0) :
    tagMatches gcm encKey aad ciphertext = true ∧ info.sequenceNumber = data.sequenceNumber ∧
      finishDecryption gcm encKey aad e ciphertext info data mem toFree = ⟨0, data, mem⟩ := by
  unfold finishDecryption endDecrypt at ok ⊢
  split at ok
  · cases ok
  rename_i final
  split at ok
  · cases ok
  rename_i seq
  rw [if_neg final, if_neg seq]
  simp only [Bool.not_eq_true', Bool.not_eq_false, Bool.and_eq_true] at final
  exact ⟨final.2, not_not.mp seq, rfl⟩

/-- What a successful `decrypt_key_value_data` leaves: nothing for an empty value, and
otherwise the value in the caller's buffer or in a new block. -/
def DecryptOut.Holds (out : DecryptOut) (mem : Mem) (buffer : Option Nat) (value : Bytes) : Prop :=
  if value = [] then out.data.value = .null ∧ out.mem = mem
  else out.data.value = (mem.store buffer value).1 ∧ out.mem = (mem.store buffer value).2

theorem decryptEntry_ok {buffer : Option Nat} (value : data.value = callerPtr buffer)
    (ok : (decryptEntry gcm encKey aad e ciphertext info data mem).ret = 0) :
    tagMatches gcm encKey aad ciphertext = true ∧ info.sequenceNumber = data.sequenceNumber ∧
      ciphertext.length - minValueSize ≤ int32Max ∧
      (decryptEntry gcm encKey aad e ciphertext info data mem).Holds mem buffer
        (rawValue gcm encKey ciphertext) := by
  have length := length_rawValue gcm encKey ciphertext
  unfold decryptEntry at ok ⊢
  dsimp only at ok ⊢
  split at ok
  · rename_i empty
    obtain ⟨right, seq, result⟩ := finishDecryption_ok ok
    have nil : rawValue gcm encKey ciphertext = [] :=
      List.eq_nil_of_length_eq_zero (by rw [length, empty])
    rw [if_pos empty, result, DecryptOut.Holds, if_pos nil]
    exact ⟨right, seq, by omega, rfl, rfl⟩
  rename_i nonempty
  split at ok
  · cases ok
  rename_i allocated
  split at ok
  · cases ok
  rename_i updated
  split at ok
  · cases ok
  rename_i whole
  rw [if_neg nonempty, if_neg allocated, if_neg updated, if_neg whole]
  obtain ⟨right, seq, result⟩ := finishDecryption_ok ok
  have whole' := not_not.mp whole
  have cons : rawValue gcm encKey ciphertext ≠ [] := by
    intro nil
    rw [nil] at length
    exact nonempty length.symm
  rw [result, DecryptOut.Holds, if_neg cons, whole', Int.toNat_natCast]
  have plain : xorStream (gcm.keystream encKey (ivOf ivSize ciphertext)) seqSize
      ((ciphertext.drop (ivSize + seqSize)).take (ciphertext.length - minValueSize)) =
        rawValue gcm encKey ciphertext := rfl
  rw [plain]
  refine ⟨right, ?_, le_of_toInt_eq whole', ?_⟩
  · rw [seq]
    split <;> rfl
  · cases buffer with
    | none =>
        have fill := mem.write_malloc (rawValue gcm encKey ciphertext)
        rw [length] at fill
        simp only [value, callerPtr, decide_true, if_true]
        exact ⟨rfl, fill⟩
    | some a =>
        simp only [value, callerPtr, reduceCtorEq, decide_false, Bool.false_eq_true, if_false]
        exact ⟨rfl, rfl⟩

/-- A successful `decrypt_key_value_data` returns the value of a block that opens to the
sequence number of `info`. -/
theorem decryptKeyValueData_ok (key : ep.encKey = some encKey) {buffer : Option Nat}
    (value : data.value = callerPtr buffer)
    (ok : (decryptKeyValueData gcm ep e ciphertext info data mem).ret = 0) :
    ∃ v, openBlock gcm encKey info.aad ciphertext = some (info.sequenceNumber, v) ∧
      v.length ≤ int32Max ∧
      (decryptKeyValueData gcm ep e ciphertext info data mem).Holds mem buffer v := by
  unfold decryptKeyValueData at ok ⊢
  simp only [key] at ok ⊢
  split at ok
  · cases ok
  rename_i short
  have long : minValueSize ≤ ciphertext.length := by omega
  rw [if_neg short]
  iterate 3
    split at ok
    · cases ok
  rename_i ctxOk initOk tagOk
  rw [if_neg ctxOk, if_neg initOk, if_neg tagOk]
  cases begun : initCrypt e.init ep.encKeyLength info with
  | none =>
      simp only [begun, endDecrypt] at ok
      cases ok
  | some aad =>
      simp only [begun, initCrypt_eq_some begun] at ok ⊢
      split at ok
      · cases ok
      rename_i seqOk
      rw [if_neg seqOk]
      have value' : ({ data with sequenceNumber := rawSeq gcm encKey ciphertext } :
          KeyValueData).value = callerPtr buffer := value
      obtain ⟨right, seq, size, holds⟩ := decryptEntry_ok value' ok
      refine ⟨rawValue gcm encKey ciphertext, ?_, ?_, holds⟩
      · rw [openBlock_eq long, if_pos right, seq]
      · rw [length_rawValue]
        exact size

/-- When no library call fails, `decrypt_key_value_data` succeeds on every block that opens
to the sequence number of `info` and has a value that fits an `int`. -/
theorem decryptKeyValueData_of_open (env : e.Ok) (data : KeyValueData) (mem : Mem)
    (allocates : data.value = .null → e.malloc = true) (key : ep.encKey = some encKey)
    (begun : initCrypt .ok ep.encKeyLength info = some info.aad) {v : Bytes}
    (opens : openBlock gcm encKey info.aad ciphertext = some (info.sequenceNumber, v))
    (size : v.length ≤ int32Max) :
    (decryptKeyValueData gcm ep e ciphertext info data mem).ret = 0 := by
  obtain ⟨-, -, length⟩ := eq_sealBlock_of_open opens
  have long : minValueSize ≤ ciphertext.length := by omega
  have valueSize : ciphertext.length - minValueSize = v.length := by omega
  have right : tagMatches gcm encKey info.aad ciphertext = true ∧
      rawSeq gcm encKey ciphertext = info.sequenceNumber := by
    rw [openBlock_eq long] at opens
    split at opens
    · rename_i right
      exact ⟨right, (Prod.mk.inj (Option.some.inj opens)).1⟩
    · cases opens
  have finish : ∀ (data : KeyValueData) (mem : Mem) (toFree : Bool),
      data.sequenceNumber = info.sequenceNumber →
      (finishDecryption gcm encKey info.aad e ciphertext info data mem toFree).ret = 0 := by
    intro data mem toFree seq
    unfold finishDecryption
    rw [if_neg (by simp [env.final, right.1]), if_neg (by simp [seq])]
  rw [← env.init.eq_ok] at begun
  unfold decryptKeyValueData
  simp only [key, begun]
  rw [if_neg (by omega), if_neg (by simp [env.ctxNew]), if_neg (by simp [env.initEx]),
    if_neg (by simp [env.setTag]), if_neg (by simp [env.seqUpdate])]
  unfold decryptEntry
  dsimp only
  rw [valueSize, toInt_of_le size]
  split
  · exact finish _ _ _ right.2
  · have allocated : ¬ (data.value = .null ∧ e.malloc = false) := by
      intro fails
      rw [allocates fails.1] at fails
      exact Bool.noConfusion fails.2
    rw [if_neg allocated, if_neg (by simp [env.valueUpdate]), if_neg (by simp)]
    apply finish
    split <;> exact right.2

/-- `decrypt_key_value_data` succeeds only after `init_crypt`. -/
theorem initCrypt_of_decrypt (key : ep.encKey = some encKey)
    (ok : (decryptKeyValueData gcm ep e ciphertext info data mem).ret = 0) :
    initCrypt .ok ep.encKeyLength info = some info.aad := by
  unfold decryptKeyValueData at ok
  simp only [key] at ok
  iterate 4
    split at ok
    · cases ok
  cases begun : initCrypt e.init ep.encKeyLength info with
  | none =>
      simp only [begun, endDecrypt] at ok
      cases ok
  | some aad => rw [← (InitEnv.ok_of_initCrypt begun).eq_ok, begun, initCrypt_eq_some begun]

/-- In plain mode `decrypt_key_value_data` copies the block. -/
theorem decryptKeyValueData_plain (gcm : AesGcm) (plain : ep.encKey = none)
    (info : LocalKeyInfo) (data : KeyValueData) (mem : Mem) {buffer : Option Nat}
    (value : data.value = callerPtr buffer) (allocates : buffer = none → e.malloc = true)
    (long : minValueSize ≤ ciphertext.length) :
    (decryptKeyValueData gcm ep e ciphertext info data mem).ret = 0 ∧
      (decryptKeyValueData gcm ep e ciphertext info data mem).data.value =
        (mem.store buffer ciphertext).1 ∧
      (decryptKeyValueData gcm ep e ciphertext info data mem).mem =
        (mem.store buffer ciphertext).2 := by
  unfold decryptKeyValueData
  simp only [plain, if_neg (Nat.not_lt.mpr long), value]
  cases buffer with
  | none =>
      have fill := mem.write_malloc ciphertext
      simp only [callerPtr, allocates rfl, Bool.true_eq_false, and_false, if_false, if_true,
        true_and]
      exact ⟨rfl, fill⟩
  | some a =>
      simp only [callerPtr, reduceCtorEq, false_and, if_false, value, true_and]
      exact ⟨rfl, rfl⟩

theorem decryptKeyValueData_ret (gcm : AesGcm) (ep : EndpointData) (e : DecryptEnv)
    (ciphertext : Bytes) (info : LocalKeyInfo) (data : KeyValueData) (mem : Mem) :
    (decryptKeyValueData gcm ep e ciphertext info data mem).ret = 0 ∨
      (decryptKeyValueData gcm ep e ciphertext info data mem).ret = -1 := by
  have finish : ∀ (encKey aad : Bytes) (data : KeyValueData) (mem : Mem) (toFree : Bool),
      (finishDecryption gcm encKey aad e ciphertext info data mem toFree).ret = 0 ∨
        (finishDecryption gcm encKey aad e ciphertext info data mem toFree).ret = -1 := by
    intro encKey aad data mem toFree
    unfold finishDecryption endDecrypt
    iterate 2
      split
      · exact Or.inr rfl
    exact Or.inl rfl
  unfold decryptKeyValueData
  split
  · exact Or.inr rfl
  split
  · split
    · exact Or.inr rfl
    · exact Or.inl rfl
  iterate 3
    split
    · exact Or.inr rfl
  split
  · exact Or.inr rfl
  split
  · exact Or.inr rfl
  unfold decryptEntry
  dsimp only
  split
  · apply finish
  iterate 3
    split
    · exact Or.inr rfl
  apply finish

end Decrypt

/-! ## Environments without failures -/

theorem InitEnv.ok_ok : InitEnv.ok.Ok := ⟨rfl, rfl, rfl, rfl⟩

def EncryptEnv.ok (iv : BlockIv) : EncryptEnv := ⟨some iv, true, true, .ok, true, true, true, true⟩

theorem EncryptEnv.ok_ok (iv : BlockIv) : (EncryptEnv.ok iv).Ok :=
  ⟨Option.some_ne_none iv, rfl, rfl, InitEnv.ok_ok, rfl, rfl, rfl, rfl⟩

def DecryptEnv.ok : DecryptEnv := ⟨true, true, true, true, .ok, true, true, true⟩

theorem DecryptEnv.ok_ok : DecryptEnv.ok.Ok :=
  ⟨rfl, rfl, rfl, InitEnv.ok_ok, rfl, rfl, rfl⟩

/-- An IV that spells a number. -/
def BlockIv.ofNat (n : Nat) : BlockIv := ⟨toLE ivSize n, length_toLE _ _⟩

end NetworkStack.OneSided
