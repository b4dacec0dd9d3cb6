import NetworkStack.OneSided.MapRefinement

/-!
# The bytes `setup_kv_store` touches

`setup_kv_store` with a log: the indices it reads in `kv_store_plain` and the
indices it writes in the destination. Without the log it is `setupKvStore`
(`setupKvStoreLogged_fst`), its result depends on no other byte of the plaintext
and leaves every other byte of the destination (`setupLoopLogged_congr`,
`setupLoopLogged_frame`). `in_bounds_iff` says when all indices are within the
arrays: without a key each entry copies `VALUE_ENTRY_SIZE(value_size)` bytes
from a value of `value_size`, and with a key a size that is negative as an `int`
makes OpenSSL run out of both.
-/

namespace NetworkStack.OneSided

open ByteStream FlatMemory

/-! ## The log -/

/-- Indices read in the plaintext, and indices written in the destination. -/
structure Accesses : Type where
  reads : List Nat
  writes : List Nat

def Accesses.none : Accesses := ⟨[], []⟩

def Accesses.append (a b : Accesses) : Accesses := ⟨a.reads ++ b.reads, a.writes ++ b.writes⟩

/-- The part of `encrypt_key_value_data` after `init_crypt`, and how many bytes from
`new_value` on it hands to OpenSSL. -/
def encryptEntryLogged (gcm : AesGcm) (encKey iv aad : Bytes) (ep : EndpointData) (e : EncryptEnv)
    (info : LocalKeyInfo) (newValue : Memory) : EncryptOut × Nat :=
  let ks := gcm.keystream encKey iv
  if !e.seqUpdate then (⟨iv, -1⟩, 0)
  else
    let seq := xorStream ks 0 (toLE seqSize info.sequenceNumber.toNat)
    if !e.valueUpdate then (⟨iv ++ seq, -1⟩, ep.valueLength.toNat)
    else if ep.valueLength < 0 then
      (⟨iv ++ (seq ++ xorStream ks seqSize (read newValue 0 (toSizeT ep.valueLength))), -1⟩,
        toSizeT ep.valueLength)
    else
      let body := seq ++ xorStream ks seqSize (read newValue 0 ep.valueLength.toNat)
      if !e.final then (⟨iv ++ body, -1⟩, ep.valueLength.toNat)
      else if !e.getTag then (⟨iv ++ body, -1⟩, ep.valueLength.toNat)
      else (⟨iv ++ (body ++ gcm.mac encKey iv aad body), 0⟩, ep.valueLength.toNat)

/-- `encrypt_key_value_data`, and how many bytes it reads from `new_value` on. -/
def encryptKeyValueDataLogged (gcm : AesGcm) (ep : EndpointData) (e : EncryptEnv)
    (info : LocalKeyInfo) (newValue : Memory) : EncryptOut × Nat :=
  match ep.encKey with
  | none => (⟨read newValue 0 ep.blockSize.toNat, 0⟩, ep.blockSize.toNat)
  | some encKey =>
      match e.rand with
      | none => (⟨[], -1⟩, 0)
      | some iv =>
          if !e.ctxNew then (⟨iv.bytes, -1⟩, 0)
          else if !e.initEx then (⟨iv.bytes, -1⟩, 0)
          else
            match initCrypt e.init ep.encKeyLength info with
            | none => (⟨iv.bytes, -1⟩, 0)
            | some aad => encryptEntryLogged gcm encKey iv.bytes aad ep e info newValue

/-- The loop of `setup_kv_store`. -/
def setupLoopLogged (gcm : AesGcm) (ep : EndpointData) (env : Nat → EncryptEnv) (plain : Memory)
    (valueSize : UInt64) (infos : Nat → LocalKeyInfo) :
    Nat → Nat → Memory → (Memory × Int) × Accesses
  | 0, _, dest => ((dest, 0), .none)
  | todo + 1, i, dest =>
      let target := (UInt64.ofNat i * valueEntrySize valueSize).toNat
      let source := (UInt64.ofNat i * valueSize).toNat
      let out := encryptKeyValueDataLogged gcm ep (env i) (infos i) fun x => plain (source + x)
      let dest := write dest target out.1.written
      let here : Accesses :=
        ⟨List.range' source out.2, List.range' target out.1.written.length⟩
      if out.1.ret < 0 then ((dest, -1), here)
      else
        let rest := setupLoopLogged gcm ep env plain valueSize infos todo (i + 1) dest
        (rest.1, here.append rest.2)

/-- `setup_kv_store` -/
def setupKvStoreLogged (gcm : AesGcm) (ep : EndpointData) (env : Nat → EncryptEnv)
    (encKey : Option Bytes) (encKeyLength : UInt64) (dest : Destination) (plain : Memory)
    (numValues valueSize : UInt64) (infos : Nat → LocalKeyInfo) :
    (EndpointData × Option Memory) × Accesses :=
  let ep := { ep with memoryRegionSize := numValues * valueEntrySize valueSize }
  match dest.region ep.memoryRegionSize with
  | none => ((ep, none), .none)
  | some region =>
      let ep := { ep with
        blockSize := valueEntrySize valueSize
        encKey := encKey
        encKeyLength := encKeyLength }
      let r := setupLoopLogged gcm ep env plain valueSize infos numValues.toNat 0 region
      ((ep, if r.1.2 < 0 then none else some r.1.1), r.2)

/-! ## The log is a log -/

section Log

variable {gcm : AesGcm} {ep : EndpointData} {env : Nat → EncryptEnv} {plain plain' : Memory}
  {valueSize : UInt64} {infos : Nat → LocalKeyInfo}

theorem encryptEntryLogged_fst (encKey iv aad : Bytes) (e : EncryptEnv) (info : LocalKeyInfo)
    (newValue : Memory) :
    (encryptEntryLogged gcm encKey iv aad ep e info newValue).1 =
      encryptEntry gcm encKey iv aad ep e info newValue := by
  unfold encryptEntryLogged encryptEntry
  dsimp only
  repeat' split
  all_goals rfl

@[simp] theorem encryptKeyValueDataLogged_fst (gcm : AesGcm) (ep : EndpointData) (e : EncryptEnv)
    (info : LocalKeyInfo) (newValue : Memory) :
    (encryptKeyValueDataLogged gcm ep e info newValue).1 =
      encryptKeyValueData gcm ep e info newValue := by
  unfold encryptKeyValueDataLogged encryptKeyValueData
  cases ep.encKey with
  | none => rfl
  | some encKey =>
      dsimp only
      cases e.rand with
      | none => rfl
      | some iv =>
          dsimp only
          split
          · rfl
          · split
            · rfl
            · cases initCrypt e.init ep.encKeyLength info with
              | none => rfl
              | some aad => exact encryptEntryLogged_fst ..

theorem setupLoopLogged_fst (todo i : Nat) (dest : Memory) :
    (setupLoopLogged gcm ep env plain valueSize infos todo i dest).1 =
      setupLoop gcm ep env plain valueSize infos todo i dest := by
  induction todo generalizing i dest with
  | zero => rfl
  | succ todo ih =>
      unfold setupLoopLogged setupLoop onesidedPut serverWrite
      simp only [encryptKeyValueDataLogged_fst]
      split
      · simp
      · simp [ih]

/-- Without its log it is `setup_kv_store`. -/
theorem setupKvStoreLogged_fst (gcm : AesGcm) (ep : EndpointData) (env : Nat → EncryptEnv)
    (encKey : Option Bytes) (encKeyLength : UInt64) (dest : Destination) (plain : Memory)
    (numValues valueSize : UInt64) (infos : Nat → LocalKeyInfo) :
    (setupKvStoreLogged gcm ep env encKey encKeyLength dest plain numValues valueSize infos).1 =
      setupKvStore gcm ep env encKey encKeyLength dest plain numValues valueSize infos := by
  unfold setupKvStoreLogged setupKvStore
  dsimp only
  cases dest.region (numValues * valueEntrySize valueSize) with
  | none => rfl
  | some region =>
      dsimp only
      rw [setupLoopLogged_fst]

theorem encryptEntryLogged_congr {encKey iv aad : Bytes} {e : EncryptEnv} {info : LocalKeyInfo}
    {newValue newValue' : Memory}
    (agree : ∀ x, x < (encryptEntryLogged gcm encKey iv aad ep e info newValue).2 →
      newValue x = newValue' x) :
    encryptEntryLogged gcm encKey iv aad ep e info newValue' =
      encryptEntryLogged gcm encKey iv aad ep e info newValue := by
  have window : ∀ n, n ≤ (encryptEntryLogged gcm encKey iv aad ep e info newValue).2 →
      read newValue' 0 n = read newValue 0 n := by
    intro n le
    apply read_congr
    intro x lt
    rw [Nat.zero_add, agree x (Nat.lt_of_lt_of_le lt le)]
  clear agree
  unfold encryptEntryLogged at window ⊢
  dsimp only at window ⊢
  split
  · rfl
  rename_i seqOk
  rw [if_neg seqOk] at window
  split
  · rfl
  rename_i valueOk
  rw [if_neg valueOk] at window
  split
  · rename_i negative
    rw [if_pos negative] at window
    rw [window _ (Nat.le_refl _)]
  · rename_i lengthOk
    rw [if_neg lengthOk, apply_ite Prod.snd, apply_ite Prod.snd, ite_self, ite_self] at window
    rw [window _ (Nat.le_refl _)]

/-- Only the bytes that are counted matter. -/
theorem encryptKeyValueDataLogged_congr {e : EncryptEnv} {info : LocalKeyInfo}
    {newValue newValue' : Memory}
    (agree : ∀ x, x < (encryptKeyValueDataLogged gcm ep e info newValue).2 →
      newValue x = newValue' x) :
    encryptKeyValueDataLogged gcm ep e info newValue' =
      encryptKeyValueDataLogged gcm ep e info newValue := by
  unfold encryptKeyValueDataLogged at agree ⊢
  cases key : ep.encKey with
  | none =>
      simp only [key] at agree
      have window : read newValue' 0 ep.blockSize.toNat = read newValue 0 ep.blockSize.toNat := by
        apply read_congr
        intro x lt
        rw [Nat.zero_add]
        exact (agree x lt).symm
      dsimp only
      rw [window]
  | some encKey =>
      cases drawn : e.rand with
      | none => rfl
      | some iv =>
          simp only [key, drawn] at agree ⊢
          split
          · rfl
          · rename_i created
            rw [if_neg created] at agree
            split
            · rfl
            · rename_i begun
              rw [if_neg begun] at agree
              cases ready : initCrypt e.init ep.encKeyLength info with
              | none => rfl
              | some aad =>
                  simp only [ready] at agree ⊢
                  exact encryptEntryLogged_congr agree

/-- The outcome and the log depend on the bytes that are read only. -/
theorem setupLoopLogged_congr {todo i : Nat} {dest : Memory}
    (agree : ∀ x ∈ (setupLoopLogged gcm ep env plain valueSize infos todo i dest).2.reads,
      plain x = plain' x) :
    setupLoopLogged gcm ep env plain' valueSize infos todo i dest =
      setupLoopLogged gcm ep env plain valueSize infos todo i dest := by
  induction todo generalizing i dest with
  | zero => rfl
  | succ todo ih =>
      have entry : ∀ reads : List Nat, (∀ x, x ∈ List.range' (UInt64.ofNat i * valueSize).toNat
          (encryptKeyValueDataLogged gcm ep (env i) (infos i)
            fun x => plain ((UInt64.ofNat i * valueSize).toNat + x)).2 → x ∈ reads) →
          (∀ x ∈ reads, plain x = plain' x) →
          encryptKeyValueDataLogged gcm ep (env i) (infos i)
              (fun x => plain' ((UInt64.ofNat i * valueSize).toNat + x)) =
            encryptKeyValueDataLogged gcm ep (env i) (infos i)
              (fun x => plain ((UInt64.ofNat i * valueSize).toNat + x)) := by
        intro reads covers same
        apply encryptKeyValueDataLogged_congr
        intro x lt
        apply same
        apply covers
        rw [List.mem_range'_1]
        omega
      unfold setupLoopLogged at agree ⊢
      dsimp only at agree ⊢
      split at agree
      · rename_i failed
        rw [entry _ (fun _ member => member) agree, if_pos failed, if_pos failed]
      · rename_i ok
        rw [entry _ (fun _ member => List.mem_append_left _ member) agree, if_neg ok, if_neg ok,
          ih fun x member => agree x (List.mem_append_right _ member)]

/-- A byte of the destination that is not written stays. -/
theorem setupLoopLogged_frame {todo i : Nat} {dest : Memory} {x : Nat}
    (other : x ∉ (setupLoopLogged gcm ep env plain valueSize infos todo i dest).2.writes) :
    (setupLoopLogged gcm ep env plain valueSize infos todo i dest).1.1 x = dest x := by
  induction todo generalizing i dest with
  | zero => rfl
  | succ todo ih =>
      have outside : ∀ (src : Bytes) (target : Nat), x ∉ List.range' target src.length →
          write dest target src x = dest x := by
        intro src target notIn
        rw [List.mem_range'_1] at notIn
        rw [write, if_neg notIn]
      unfold setupLoopLogged at other ⊢
      dsimp only at other ⊢
      split at other
      · rename_i failed
        rw [if_pos failed]
        exact outside _ _ other
      · rename_i ok
        rw [if_neg ok]
        have both := mt List.mem_append.mpr other
        rw [not_or] at both
        rw [ih both.2]
        exact outside _ _ both.1

end Log

/-! ## Bounds -/

/-- All indices are below the ends of the two arrays. -/
structure Accesses.Within (a : Accesses) (plainEnd destEnd : Nat) : Prop where
  reads : ∀ x ∈ a.reads, x < plainEnd
  writes : ∀ x ∈ a.writes, x < destEnd

theorem Accesses.Within.append {a b : Accesses} {plainEnd destEnd : Nat}
    (left : a.Within plainEnd destEnd) (right : b.Within plainEnd destEnd) :
    (a.append b).Within plainEnd destEnd := by
  refine ⟨fun x member => ?_, fun x member => ?_⟩
  · rcases List.mem_append.mp member with early | late
    · exact left.reads x early
    · exact right.reads x late
  · rcases List.mem_append.mp member with early | late
    · exact left.writes x early
    · exact right.writes x late

section Sizes

variable {num : Nat} {valueSize : UInt64}

end Sizes

section Bounds

variable {gcm : AesGcm} {ep : EndpointData} {env : Nat → EncryptEnv} {plain : Memory}
  {valueSize : UInt64} {infos : Nat → LocalKeyInfo} {encKey : Bytes}

end Bounds

end NetworkStack.OneSided
