import NetworkStack.OneSided.Channel
import NetworkStack.OneSided.Freshness

/-!
# A put that fails

`rdma_put` takes its sequence number back on every failure, also when its write
reached the store without being reported: the block then carries the number that
was taken back, and every get of the entry fails. It also leaves the completion
of a write that it did not fetch, and the next get takes that for its own.
`server_put` encrypts straight into the store, so that a failure after the IV
was drawn leaves a block that is neither the old nor the new one.
`EndpointData.content` is what gets without library failures make of a block,
and `failed_put_atomic_iff` says exactly when a failed put keeps what they
return.
-/

namespace NetworkStack.OneSided

open ByteStream FlatMemory SealedFrame

/-! ## What gets return -/

/-- Bytes of a value. -/
def EndpointData.valueBytes (ep : EndpointData) : Nat :=
  match ep.encKey with
  | some _ => ep.blockSize.toNat - minValueSize
  | none => ep.blockSize.toNat

/-- The outcomes of the OpenSSL calls of a get, the caller's buffer and the caller's memory. -/
structure GetCall : Type where
  e : DecryptEnv
  buffer : Option Nat
  mem : Mem

/-- No library call fails while the block is decrypted. -/
structure GetCall.Ok (g : GetCall) : Prop where
  env : g.e.Ok
  allocates : g.buffer = none → g.e.malloc = true

/-- The bytes behind a returned pointer, unless it is NULL. -/
def returnedBytes (n : Nat) (value : Ptr) (mem : Mem) : Option Bytes :=
  if value = .null then none else some (mem.read value n)

/-- The value `server_get` returns. -/
def Endpoint.getBytes (gcm : AesGcm) (s : Endpoint) (info : LocalKeyInfo) (g : GetCall) :
    Option Bytes :=
  let r := s.serverGet gcm g.e info (callerPtr g.buffer) g.mem
  returnedBytes s.ep.valueBytes r.value r.mem

/-- The value `rdma_get` returns. -/
def Channel.getBytes (gcm : AesGcm) (t : Transfer) (c : Channel) (info : LocalKeyInfo)
    (g : GetCall) : Option Bytes :=
  let r := c.rdmaGet gcm t g.e info (callerPtr g.buffer) g.mem
  returnedBytes c.endpoint.ep.valueBytes r.value r.mem

/-- The value of an entry with this block: the block itself in plain mode, and in encrypted mode
what it opens to, if that has the right sequence number. -/
def EndpointData.content (gcm : AesGcm) (ep : EndpointData) (info : LocalKeyInfo)
    (block : Bytes) : Option Bytes :=
  if ep.memoryRegion = true ∧ minValueSize ≤ ep.blockSize.toNat then
    match ep.encKey with
    | none => some block
    | some encKey =>
        if initCrypt .ok ep.encKeyLength info = none then none
        else
          (openBlock gcm encKey info.aad block).bind fun (seq, v) =>
            if seq = info.sequenceNumber ∧ v ≠ [] ∧ v.length ≤ int32Max then some v else none
  else none

/-- The value of an entry in the store. -/
def Endpoint.content (gcm : AesGcm) (s : Endpoint) (info : LocalKeyInfo) : Option Bytes :=
  s.ep.content gcm info (s.blockAt info)

/-- The value of an entry whose block is what `local_buf` holds. -/
def Channel.bufferContent (gcm : AesGcm) (c : Channel) (info : LocalKeyInfo) : Option Bytes :=
  c.endpoint.ep.content gcm info c.buffer

section Gets

variable {gcm : AesGcm} {ep : EndpointData} {info : LocalKeyInfo} {block : Bytes}

theorem returnedBytes_null (n : Nat) (mem : Mem) : returnedBytes n .null mem = none :=
  if_pos rfl

theorem returnedBytes_store (mem : Mem) (buffer : Option Nat) (src : Bytes) :
    returnedBytes src.length (mem.store buffer src).1 (mem.store buffer src).2 = some src := by
  rw [returnedBytes, if_neg (mem.store_ne_null buffer src), Mem.read_store]

/-- In encrypted mode an entry has a value exactly when its block opens to its sequence number
and to a value that is not empty and fits an `int`. -/
theorem content_eq_some {encKey : Bytes} (key : ep.encKey = some encKey)
    (size : block.length = ep.blockSize.toNat) {v : Bytes} :
    ep.content gcm info block = some v ↔
      ep.memoryRegion = true ∧ initCrypt .ok ep.encKeyLength info = some info.aad ∧
        openBlock gcm encKey info.aad block = some (info.sequenceNumber, v) ∧
        v ≠ [] ∧ v.length ≤ int32Max := by
  unfold EndpointData.content
  simp only [key]
  constructor
  · intro content
    split at content
    · rename_i long
      split at content
      · cases content
      rename_i begun
      obtain ⟨aad, begun⟩ := Option.ne_none_iff_exists'.mp begun
      obtain ⟨⟨seq, w⟩, opens, inner⟩ := Option.bind_eq_some_iff.mp content
      dsimp only at inner
      split at inner
      · rename_i fits
        cases inner
        rw [initCrypt_eq_some begun] at begun
        rw [fits.1] at opens
        exact ⟨long.1, begun, opens, fits.2⟩
      · cases inner
    · cases content
  · intro holds
    rcases holds with ⟨region, begun, opens, fits⟩
    have long := (eq_sealBlock_of_open opens).2.2
    rw [size] at long
    rw [if_pos ⟨region, by omega⟩, if_neg (by rw [begun]; simp), opens, Option.bind_some,
      if_pos ⟨rfl, fits⟩]

/-- A block that does not open to a value for the entry gives it none. -/
theorem content_eq_none {encKey : Bytes} (key : ep.encKey = some encKey)
    (size : block.length = ep.blockSize.toNat)
    (closed : ∀ v, initCrypt .ok ep.encKeyLength info = some info.aad →
      openBlock gcm encKey info.aad block = some (info.sequenceNumber, v) →
      v ≠ [] → v.length ≤ int32Max → False) :
    ep.content gcm info block = none := by
  apply Option.eq_none_iff_forall_ne_some.mpr
  intro v content
  obtain ⟨-, begun, opens, nonempty, fits⟩ := (content_eq_some key size).mp content
  exact closed v begun opens nonempty fits

section Decrypted

variable {e : DecryptEnv} {buffer : Option Nat}

/-- In plain mode a block that is long enough is copied. -/
theorem returnedBytes_plain (allocates : buffer = none → e.malloc = true) (mem : Mem)
    (region : ep.memoryRegion = true) (plain : ep.encKey = none)
    (size : block.length = ep.blockSize.toNat) :
    returnedBytes ep.valueBytes
        (Endpoint.decrypted gcm ep e block info (callerPtr buffer) mem).1
        (Endpoint.decrypted gcm ep e block info (callerPtr buffer) mem).2 =
      ep.content gcm info block := by
  unfold Endpoint.decrypted EndpointData.content
  simp only [plain, region, true_and]
  by_cases long : minValueSize ≤ ep.blockSize.toNat
  · have longBlock : minValueSize ≤ block.length := by
      rw [size]
      exact long
    obtain ⟨done, value, memory⟩ := decryptKeyValueData_plain gcm plain info
      ⟨0, callerPtr buffer⟩ mem rfl allocates longBlock
    have bytes : ep.valueBytes = block.length := by
      rw [size, EndpointData.valueBytes, plain]
    rw [done, value, memory, if_neg (by simp), bytes, returnedBytes_store, if_pos long]
  · have fails : (decryptKeyValueData gcm ep e block info ⟨0, callerPtr buffer⟩ mem).ret = -1 := by
      unfold decryptKeyValueData
      rw [if_pos (by rw [size]; omega)]
    rw [fails, if_pos (by simp), returnedBytes_null, if_neg long]

/-- A decryption that succeeds returns the content, and an empty value is no content. -/
theorem returnedBytes_of_ok {encKey : Bytes} (mem : Mem) (region : ep.memoryRegion = true)
    (key : ep.encKey = some encKey) (size : block.length = ep.blockSize.toNat)
    (done : (decryptKeyValueData gcm ep e block info ⟨0, callerPtr buffer⟩ mem).ret = 0) :
    returnedBytes ep.valueBytes
        (Endpoint.decrypted gcm ep e block info (callerPtr buffer) mem).1
        (Endpoint.decrypted gcm ep e block info (callerPtr buffer) mem).2 =
      ep.content gcm info block := by
  obtain ⟨v, opens, fits, holds⟩ := decryptKeyValueData_ok key rfl done
  unfold Endpoint.decrypted
  dsimp only
  rw [if_neg (by rw [done]; simp)]
  unfold DecryptOut.Holds at holds
  split at holds
  · rename_i empty
    rw [holds.1, returnedBytes_null]
    symm
    apply content_eq_none key size
    intro w _ opens' nonempty _
    rw [opens, empty] at opens'
    exact nonempty (Prod.mk.inj (Option.some.inj opens')).2.symm
  · rename_i nonempty
    have bytes : ep.valueBytes = v.length := by
      have long := (eq_sealBlock_of_open opens).2.2
      rw [size] at long
      rw [EndpointData.valueBytes, key]
      dsimp only
      omega
    rw [holds.1, holds.2, bytes, returnedBytes_store]
    exact ((content_eq_some key size).mpr
      ⟨region, initCrypt_of_decrypt key done, opens, nonempty, fits⟩).symm

/-- Where no library call fails, a decryption fails only for want of content. -/
theorem content_of_decrypt_failed {encKey : Bytes} (env : e.Ok)
    (allocates : buffer = none → e.malloc = true) (mem : Mem) (key : ep.encKey = some encKey)
    (size : block.length = ep.blockSize.toNat)
    (failed : (decryptKeyValueData gcm ep e block info ⟨0, callerPtr buffer⟩ mem).ret ≠ 0) :
    ep.content gcm info block = none := by
  apply content_eq_none key size
  intro w begun opens _ fits
  exact failed (decryptKeyValueData_of_open env ⟨0, callerPtr buffer⟩ mem
    (fun null => allocates (callerPtr_eq_null null)) key begun opens fits)

/-- What is decrypted from a block is its content. -/
theorem returnedBytes_decrypted (env : e.Ok) (allocates : buffer = none → e.malloc = true)
    (mem : Mem) (region : ep.memoryRegion = true) (size : block.length = ep.blockSize.toNat) :
    returnedBytes ep.valueBytes
        (Endpoint.decrypted gcm ep e block info (callerPtr buffer) mem).1
        (Endpoint.decrypted gcm ep e block info (callerPtr buffer) mem).2 =
      ep.content gcm info block := by
  cases key : ep.encKey with
  | none => exact returnedBytes_plain allocates mem region key size
  | some encKey =>
      rcases decryptKeyValueData_ret gcm ep e block info ⟨0, callerPtr buffer⟩ mem with
        done | failed
      · exact returnedBytes_of_ok mem region key size done
      · rw [content_of_decrypt_failed env allocates mem key size (by rw [failed]; decide)]
        unfold Endpoint.decrypted
        dsimp only
        rw [failed, if_pos (by decide), returnedBytes_null]

end Decrypted

/-- A get without failures returns the content of the block it reads, if it reads one. -/
theorem returnedBytes_onesidedGet {σ : Type} {readFunction : σ → UInt64 → σ × Option Bytes}
    {s : σ} {g : GetCall} (ok : g.Ok)
    (size : ∀ bytes, (readFunction s info.valueOffset).2 = some bytes →
      bytes.length = ep.blockSize.toNat) :
    returnedBytes ep.valueBytes
        (onesidedGet gcm ep readFunction g.e s info (callerPtr g.buffer) g.mem).value
        (onesidedGet gcm ep readFunction g.e s info (callerPtr g.buffer) g.mem).mem =
      (readFunction s info.valueOffset).2.bind (ep.content gcm info) := by
  by_cases region : ep.memoryRegion = true
  · cases fetched : (readFunction s info.valueOffset).2 with
    | none =>
        have null : (onesidedGet gcm ep readFunction g.e s info (callerPtr g.buffer) g.mem).value =
            .null := by
          simp [onesidedGet, region, fetched]
        rw [null, returnedBytes_null, Option.bind_none]
    | some bytes =>
        rw [Endpoint.onesidedGet_eq region (Prod.ext rfl fetched)]
        exact returnedBytes_decrypted ok.env ok.allocates g.mem region (size bytes fetched)
  · have nothing : ep.content gcm info = fun _ => none := by
      funext bytes
      exact if_neg fun both => region both.1
    have null : (onesidedGet gcm ep readFunction g.e s info (callerPtr g.buffer) g.mem).value =
        .null := by
      simp [onesidedGet, region]
    rw [null, returnedBytes_null, nothing, Option.bind_fun_none]

/-- Every get of the server without failures returns the content of the entry. -/
theorem Endpoint.getBytes_eq {s : Endpoint} {g : GetCall} (ok : g.Ok) :
    s.getBytes gcm info g = s.content gcm info := by
  apply returnedBytes_onesidedGet ok
  intro bytes fetched
  cases fetched
  exact s.length_blockAt info

/-- What a get of the client without failures returns depends on the completion it fetches. -/
theorem Channel.getBytes_eq {c : Channel} {t : Transfer} {g : GetCall} (fetches : t.Ok)
    (ok : g.Ok) :
    c.getBytes gcm t info g =
      (frontOf c.completions).shows t.landed t.nextEvent (c.endpoint.content gcm info)
        (c.bufferContent gcm info) := by
  have reads := c.rdmaReadFromServer_shows fetches info.valueOffset
  have size : ∀ bytes, (c.rdmaReadFromServer t info.valueOffset).2 = some bytes →
      bytes.length = c.endpoint.ep.blockSize.toNat := by
    intro bytes fetched
    rw [reads] at fetched
    rcases Front.eq_of_shows fetched with rfl | rfl
    · exact length_read ..
    · exact length_read ..
  rw [Channel.getBytes, Channel.rdmaGet, returnedBytes_onesidedGet ok size, reads,
    Front.bind_shows]
  rfl

end Gets

/-! ## Failed puts -/

/-- `rdma_put` or `server_put`; a server has no completions to fetch. -/
def Channel.put (gcm : AesGcm) (role : Role) (t : Transfer) (e : EncryptEnv) (c : Channel)
    (info : LocalKeyInfo) (newValue : Memory) : Channel × LocalKeyInfo × Int :=
  match role with
  | .client => c.rdmaPut gcm t e info newValue
  | .server =>
      let r := c.endpoint.serverPut gcm e info newValue
      ({ c with endpoint := r.1 }, info, r.2)

/-- What a get of either endpoint returns. -/
def Role.getBytes (gcm : AesGcm) (t : Transfer) (c : Channel) (info : LocalKeyInfo) (g : GetCall) :
    Role → Option Bytes
  | .client => c.getBytes gcm t info g
  | .server => c.endpoint.getBytes gcm info g

/-- If a put returns -1, the sequence number is as before, and every get of the entry that comes
next and in which no library call fails returns what it would have returned before the put. -/
def Role.Atomic (gcm : AesGcm) (role : Role) (t : Transfer) (e : EncryptEnv) (c : Channel)
    (info : LocalKeyInfo) (newValue : Memory) : Prop :=
  (c.put gcm role t e info newValue).2.2 = -1 →
    (c.put gcm role t e info newValue).2.1.sequenceNumber = info.sequenceNumber ∧
      ∀ (next : Transfer) (g : GetCall), next.Ok → g.Ok →
        role.getBytes gcm next (c.put gcm role t e info newValue).1
            (c.put gcm role t e info newValue).2.1 g =
          role.getBytes gcm next c info g

/-- The encryption succeeds, or there is none. -/
def EndpointData.Encrypts (ep : EndpointData) (e : EncryptEnv) (info : LocalKeyInfo) : Prop :=
  ep.encKey = none ∨ e.Ok ∧ ep.Accepts info

instance (ep : EndpointData) (e : EncryptEnv) (info : LocalKeyInfo) :
    Decidable (ep.Encrypts e info) :=
  inferInstanceAs (Decidable (_ ∨ _))

/-- `rdma_put` comes to its write, and posts it. -/
def EndpointData.Posts (ep : EndpointData) (t : Transfer) (e : EncryptEnv) (info : LocalKeyInfo) :
    Prop :=
  ep.Encrypts e info ∧ t.post = true

instance (ep : EndpointData) (t : Transfer) (e : EncryptEnv) (info : LocalKeyInfo) :
    Decidable (ep.Posts t e info) :=
  inferInstanceAs (Decidable (_ ∧ _))

/-- `rdma_put` fetches a completion. -/
def EndpointData.Fetches (ep : EndpointData) (t : Transfer) (e : EncryptEnv) (info : LocalKeyInfo) :
    Prop :=
  ep.Posts t e info ∧ t.wait = true ∧ t.completionGet = true

instance (ep : EndpointData) (t : Transfer) (e : EncryptEnv) (info : LocalKeyInfo) :
    Decidable (ep.Fetches t e info) :=
  inferInstanceAs (Decidable (_ ∧ _))

/-- The value an entry has under its old sequence number if its block is the new one: an encrypted
block is that of the next number. -/
def EndpointData.newContent (gcm : AesGcm) (ep : EndpointData) (info : LocalKeyInfo)
    (newValue : Memory) : Option Bytes :=
  match ep.encKey with
  | none => ep.content gcm info (read newValue 0 ep.blockSize.toNat)
  | some _ => none

namespace Channel

/-- The completions that `rdma_put` leaves. -/
def completionsAfter (t : Transfer) (e : EncryptEnv) (c : Channel) (info : LocalKeyInfo) :
    List RpmaCompletion :=
  if c.endpoint.ep.Encrypts e info then c.leftByWrite t else c.completions

/-- The value of the entry after a put of the client that fails. -/
def contentAfter (gcm : AesGcm) (t : Transfer) (e : EncryptEnv) (c : Channel) (info : LocalKeyInfo)
    (newValue : Memory) : Option Bytes :=
  if c.endpoint.ep.Posts t e info ∧ t.reaches = true then
    c.endpoint.ep.newContent gcm info newValue
  else c.endpoint.content gcm info

/-- The value the entry then has if its block is what `local_buf` holds. -/
def bufferContentAfter (gcm : AesGcm) (e : EncryptEnv) (c : Channel) (info : LocalKeyInfo)
    (newValue : Memory) : Option Bytes :=
  if c.endpoint.ep.Encrypts e info then c.endpoint.ep.newContent gcm info newValue
  else if e.rand = none then c.bufferContent gcm info
  else none

/-- When a put of the client that fails keeps what gets return.

If no completion is left, gets return what is in the block. Gets fail already, or nothing is
posted, or the completion of the write is fetched, and either the write succeeded or it left the
value as it was.

If the oldest completion is not that of a read, gets fail. So they do after the put, unless it
fetches that completion (and does not take it for its own success) and the next one is that of a
read.

If it is that of a read, gets take it for their own. The put keeps it, or the next one is like
it, and the value in the block and that in `local_buf` are as before; or there is neither. -/
def KeepsEntry (gcm : AesGcm) (t : Transfer) (e : EncryptEnv) (c : Channel) (info : LocalKeyInfo)
    (newValue : Memory) : Prop :=
  let ep := c.endpoint.ep
  let content := c.endpoint.content gcm info
  let buffer := c.bufferContent gcm info
  let contentAfter := c.contentAfter gcm t e info newValue
  let bufferAfter := c.bufferContentAfter gcm e info newValue
  let next := frontOf c.completions.tail
  match frontOf c.completions with
  | .own =>
      content = none ∨ ¬ ep.Posts t e info ∨
        ep.Fetches t e info ∧ (t.opStatus = ibvWcSuccess ∨ contentAfter = content)
  | .other =>
      ep.Fetches t e info →
        c.completions.head? = some ⟨.write, ibvWcSuccess⟩ ∨
          ∀ success, next = .read success → contentAfter = none ∧ bufferAfter = none
  | .read success =>
      if ep.Fetches t e info ∧ next ≠ .read success then
        (content = none ∧ buffer = none) ∧
          ∀ success', next = .read success' → contentAfter = none ∧ bufferAfter = none
      else contentAfter = content ∧ bufferAfter = buffer

end Channel

/-- When a put that fails keeps what gets return. A put of the server does if gets fail already,
without encryption, if no IV is drawn, and if no OpenSSL call fails. -/
def Role.KeepsEntry (gcm : AesGcm) (role : Role) (t : Transfer) (e : EncryptEnv) (c : Channel)
    (info : LocalKeyInfo) (newValue : Memory) : Prop :=
  match role with
  | .client => c.KeepsEntry gcm t e info newValue
  | .server =>
      c.endpoint.content gcm info = none ∨ c.endpoint.ep.encKey = none ∨ e.rand = none ∨ e.Ok

/-- What the put encrypts into: `local_buf` or the block. -/
def Role.target (c : Channel) (info : LocalKeyInfo) : Role → Bytes
  | .client => c.buffer
  | .server => c.endpoint.blockAt info

/-- A get that no library call fails in. -/
def GetCall.ok : GetCall := ⟨.ok, none, .empty⟩

theorem GetCall.ok_ok : GetCall.ok.Ok :=
  ⟨DecryptEnv.ok_ok, fun _ => rfl⟩

/-! ## What a put leaves of the entry -/

section Blocks

variable {gcm : AesGcm} {ep : EndpointData} {e : EncryptEnv} {info info' : LocalKeyInfo}
  {newValue : Memory} {encKey block : Bytes}

theorem encrypts_iff :
    ¬ (encryptKeyValueData gcm ep e info.next newValue).ret < 0 ↔ ep.Encrypts e info := by
  unfold EndpointData.Encrypts
  cases key : ep.encKey with
  | none => simp [encryptKeyValueData, key]
  | some encKey =>
      rw [encryptKeyValueData_succeeds_iff key]
      constructor
      · exact Or.inr
      · intro either
        rcases either with plain | succeeds
        · cases plain
        · exact succeeds

/-- Where an encryption fails and no OpenSSL call does, gets fail as well. -/
theorem content_of_encrypt_failed (key : ep.encKey = some encKey) (env : e.Ok)
    (size : block.length = ep.blockSize.toNat)
    (failed : (encryptKeyValueData gcm ep e info newValue).ret < 0) :
    ep.content gcm info block = none := by
  apply content_eq_none key size
  intro v begun opens _ fits
  have whole := (eq_sealBlock_of_open opens).2.2
  rw [size] at whole
  have length := EndpointData.valueLength_of_size fits whole
  have done := encryptKeyValueData_succeeds gcm env (by rw [length]; exact Int.natCast_nonneg _)
    begun newValue
  omega

/-- A block with the next sequence number in place of an entry makes gets of it fail. -/
theorem content_of_next_block {iv : BlockIv} (m : Memory) (key : ep.encKey = some encKey) :
    ep.content gcm info (read (write m 0 (sealBlock gcm encKey info.aad iv.bytes
      (info.sequenceNumber + 1) (ep.valueAt newValue))) 0 ep.blockSize.toNat) = none := by
  apply content_eq_none key (length_read ..)
  intro v _ opens _ fits
  have size := (eq_sealBlock_of_open opens).2.2
  rw [length_read] at size
  have length := EndpointData.valueLength_of_size fits size
  have whole : (sealBlock gcm encKey info.aad iv.bytes (info.sequenceNumber + 1)
      (ep.valueAt newValue)).length = ep.blockSize.toNat := by
    rw [length_sealBlock _ _ _ _ _ iv.length_bytes, EndpointData.valueAt, length_read, length,
      size]
    rfl
  rw [← whole, read_write_self, openBlock_sealBlock _ _ _ _ _ iv.length_bytes] at opens
  have numbers := (Prod.mk.inj (Option.some.inj opens)).1
  have nats := congrArg UInt64.toNat numbers
  rw [UInt64.toNat_add] at nats
  have lt := info.sequenceNumber.toNat_lt
  have one : (1 : UInt64).toNat = 1 := rfl
  omega

/-- With an ideal AEAD, a block that starts with an IV that was never used makes gets fail. -/
theorem content_of_fresh_iv {log : List Encryption} (key : ep.encKey = some encKey)
    (size : block.length = ep.blockSize.toNat)
    (ideal : Authentic gcm log encKey info.aad block) {iv : BlockIv}
    (fresh : ∀ x ∈ log, x.iv.bytes ≠ iv.bytes)
    (starts : minValueSize ≤ ep.blockSize.toNat → ivOf ivSize block = iv.bytes) :
    ep.content gcm info block = none := by
  apply content_eq_none key size
  intro v _ opens _ _
  have whole := (eq_sealBlock_of_open opens).2.2
  have long : minValueSize ≤ block.length := by omega
  rw [openBlock_eq long] at opens
  split at opens
  · rename_i right
    obtain ⟨x, member, -, -, sameIv, -⟩ := ideal right
    rw [size] at long
    rw [starts long] at sameIv
    exact fresh x member sameIv
  · cases opens

/-- Once the IV was drawn the block starts with it, whatever comes after. -/
theorem ivOf_write (m : Memory) (a : Nat) (iv : BlockIv) (rest : Bytes) {n : Nat}
    (long : minValueSize ≤ n) :
    ivOf ivSize (read (write m a (iv.bytes ++ rest)) a n) = iv.bytes := by
  have enough : ivSize ≤ (iv.bytes ++ rest).length := by
    rw [List.length_append, iv.length_bytes]
    omega
  rw [ivOf, take_read _ _ (by simp only [minValueSize] at long; omega),
    read_write_take _ _ enough, List.take_left' iv.length_bytes]

/-- An encryption that fails leaves the block as it was if no IV was drawn, and else makes gets
fail. -/
theorem content_of_failed {log : List Encryption} (m : Memory) (a : Nat)
    (key : ep.encKey = some encKey)
    (fresh : ∀ iv, e.rand = some iv → ∀ x ∈ log, x.iv.bytes ≠ iv.bytes)
    (ideal : Authentic gcm log encKey info.aad
      (read (write m a (encryptKeyValueData gcm ep e info' newValue).written) a
        ep.blockSize.toNat)) :
    ep.content gcm info (read (write m a (encryptKeyValueData gcm ep e info' newValue).written) a
        ep.blockSize.toNat) =
      if e.rand = none then ep.content gcm info (read m a ep.blockSize.toNat) else none := by
  cases drawn : e.rand with
  | none => rw [encryptKeyValueData_of_rand_none key drawn, write_nil, if_pos rfl]
  | some iv =>
      obtain ⟨rest, written⟩ := encryptKeyValueData_of_rand gcm key drawn info' newValue
      rw [written] at ideal ⊢
      rw [content_of_fresh_iv key (length_read ..) ideal (fresh iv drawn) (ivOf_write m a iv rest),
        if_neg (Option.some_ne_none iv)]

end Blocks

section Client

variable {gcm : AesGcm} {t : Transfer} {e : EncryptEnv} {c : Channel} {info : LocalKeyInfo}
  {newValue : Memory}

namespace Channel

/-- What `rdma_put` encrypts is the new value. -/
theorem bufferContent_encrypted (encrypts : c.endpoint.ep.Encrypts e info) :
    (c.encrypted (encryptKeyValueData gcm c.endpoint.ep e info.next newValue)).bufferContent gcm
        info = c.endpoint.ep.newContent gcm info newValue := by
  have done : ¬ (encryptKeyValueData gcm c.endpoint.ep e info.next newValue).ret < 0 :=
    encrypts_iff.mpr encrypts
  unfold bufferContent EndpointData.newContent buffer encrypted
  dsimp only
  cases key : c.endpoint.ep.encKey with
  | none =>
      have written : (encryptKeyValueData gcm c.endpoint.ep e info.next newValue).written =
          read newValue 0 c.endpoint.ep.blockSize.toNat := by
        simp only [encryptKeyValueData, key]
      have copied := read_write_self c.endpoint.localBuf 0
        (read newValue 0 c.endpoint.ep.blockSize.toNat)
      rw [length_read] at copied
      rw [written, copied]
  | some encKey =>
      obtain ⟨iv, -, -, written⟩ := encryptKeyValueData_ok key done
      rw [written]
      exact content_of_next_block c.endpoint.localBuf key

theorem rdmaPut_of_not_encrypts (t : Transfer) (fails : ¬ c.endpoint.ep.Encrypts e info) :
    c.rdmaPut gcm t e info newValue =
      (c.encrypted (encryptKeyValueData gcm c.endpoint.ep e info.next newValue), info, -1) := by
  refine c.rdmaPut_of_failed t (Decidable.not_not.mp fun done => fails ?_)
  exact encrypts_iff.mp done

theorem rdmaPut_of_encrypts (t : Transfer) (encrypts : c.endpoint.ep.Encrypts e info) :
    c.rdmaPut gcm t e info newValue =
      (((c.encrypted (encryptKeyValueData gcm c.endpoint.ep e info.next newValue)).rdmaWriteToServer
          t info.valueOffset).1,
        if c.reports t then (info.next, 0) else (info, -1)) :=
  c.rdmaPut_of_encrypted t (encrypts_iff.mpr encrypts)

theorem snd_rdmaPut :
    (c.rdmaPut gcm t e info newValue).2 =
      if c.endpoint.ep.Encrypts e info ∧ c.reports t = true then (info.next, 0)
      else (info, -1) := by
  by_cases encrypts : c.endpoint.ep.Encrypts e info
  · rw [rdmaPut_of_encrypts t encrypts]
    simp only [encrypts, true_and]
  · rw [rdmaPut_of_not_encrypts t encrypts, if_neg fun both => encrypts both.1]

theorem completions_rdmaPut :
    (c.rdmaPut gcm t e info newValue).1.completions = c.completionsAfter t e info := by
  unfold completionsAfter
  by_cases encrypts : c.endpoint.ep.Encrypts e info
  · rw [rdmaPut_of_encrypts t encrypts, rdmaWriteToServer_eq, if_pos encrypts]
    rfl
  · rw [rdmaPut_of_not_encrypts t encrypts, if_neg encrypts]
    rfl

/-- The block in the store is the new one if a write of it was posted and reached it. -/
theorem content_rdmaPut :
    (c.rdmaPut gcm t e info newValue).1.endpoint.content gcm info =
      c.contentAfter gcm t e info newValue := by
  unfold contentAfter
  by_cases encrypts : c.endpoint.ep.Encrypts e info
  · rw [rdmaPut_of_encrypts t encrypts, rdmaWriteToServer_eq]
    dsimp only
    by_cases reaches : t.reaches = true
    · rw [if_pos reaches, if_pos ⟨⟨encrypts, Transfer.post_of_reaches reaches⟩, reaches⟩]
      have stored := read_write_self c.endpoint.store info.valueOffset.toNat
        (c.encrypted (encryptKeyValueData gcm c.endpoint.ep e info.next newValue)).buffer
      rw [buffer, length_read] at stored
      rw [← bufferContent_encrypted encrypts, bufferContent, buffer]
      exact congrArg _ stored
    · rw [if_neg reaches, if_neg fun both => reaches both.2]
      rfl
  · rw [rdmaPut_of_not_encrypts t encrypts, if_neg fun both => encrypts both.1.1]
    rfl

theorem buffer_rdmaPut :
    (c.rdmaPut gcm t e info newValue).1.buffer =
      (c.encrypted (encryptKeyValueData gcm c.endpoint.ep e info.next newValue)).buffer := by
  by_cases encrypts : c.endpoint.ep.Encrypts e info
  · rw [rdmaPut_of_encrypts t encrypts, rdmaWriteToServer_eq]
    dsimp only
    split <;> rfl
  · rw [rdmaPut_of_not_encrypts t encrypts]

theorem ep_rdmaPut : (c.rdmaPut gcm t e info newValue).1.endpoint.ep = c.endpoint.ep := by
  by_cases encrypts : c.endpoint.ep.Encrypts e info
  · rw [rdmaPut_of_encrypts t encrypts, rdmaWriteToServer_eq]
    dsimp only
    split <;> rfl
  · rw [rdmaPut_of_not_encrypts t encrypts]
    rfl

/-- `local_buf` has the new block if the encryption succeeds; if it fails after the IV was drawn,
what is left there opens to nothing. -/
theorem bufferContent_rdmaPut {log : List Encryption}
    (fresh : ∀ iv, e.rand = some iv → ∀ x ∈ log, x.iv.bytes ≠ iv.bytes)
    (ideal : ∀ encKey, c.endpoint.ep.encKey = some encKey →
      Authentic gcm (log ++ Role.client.encrypted gcm e c.endpoint.ep info newValue) encKey info.aad
        (c.rdmaPut gcm t e info newValue).1.buffer) :
    (c.rdmaPut gcm t e info newValue).1.bufferContent gcm info =
      c.bufferContentAfter gcm e info newValue := by
  unfold bufferContentAfter
  rw [bufferContent, ep_rdmaPut, buffer_rdmaPut]
  by_cases encrypts : c.endpoint.ep.Encrypts e info
  · rw [if_pos encrypts]
    exact bufferContent_encrypted encrypts
  · rw [if_neg encrypts]
    obtain ⟨encKey, key⟩ := Option.ne_none_iff_exists'.mp fun plain => encrypts (Or.inl plain)
    have authentic := ideal encKey key
    rcases encryptions_cases gcm key e info.next newValue with ⟨-, nothing⟩ | ⟨x, done, -⟩
    · rw [Role.encrypted, nothing, List.append_nil, buffer_rdmaPut] at authentic
      exact content_of_failed c.endpoint.localBuf 0 key fresh authentic
    · exact (encrypts (encrypts_iff.mp done)).elim

end Channel

/-- Whatever a get meets, it returns the same before a put of the client that fails and after it:
of the block or of `local_buf`, as the completion it fetches decides. -/
def Channel.ShowsSame (gcm : AesGcm) (t : Transfer) (e : EncryptEnv) (c : Channel)
    (info : LocalKeyInfo) (newValue : Memory) : Prop :=
  ∀ landed event,
    (frontOf (c.completionsAfter t e info)).shows landed event
        (c.contentAfter gcm t e info newValue) (c.bufferContentAfter gcm e info newValue) =
      (frontOf c.completions).shows landed event (c.endpoint.content gcm info)
        (c.bufferContent gcm info)

/-- A put of the client is atomic exactly if it is reported as successful, or gets show the same
before it and after it. -/
theorem Role.atomic_client_iff_shows
    (buffer : (c.rdmaPut gcm t e info newValue).1.bufferContent gcm info =
      c.bufferContentAfter gcm e info newValue) :
    Role.client.Atomic gcm t e c info newValue ↔
      c.endpoint.ep.Encrypts e info ∧ c.reports t = true ∨
        c.ShowsSame gcm t e info newValue := by
  have result : (c.rdmaPut gcm t e info newValue).2 =
      if c.endpoint.ep.Encrypts e info ∧ c.reports t = true then (info.next, 0) else (info, -1) :=
    c.snd_rdmaPut
  unfold Role.Atomic Channel.put
  dsimp only
  by_cases reported : c.endpoint.ep.Encrypts e info ∧ c.reports t = true
  · rw [if_pos reported] at result
    rw [result]
    exact iff_of_true (fun failed => by cases failed) (Or.inl reported)
  · rw [if_neg reported] at result
    simp only [result, reported, false_or, true_and, forall_const, Role.getBytes]
    constructor
    · intro atomic landed event
      have same := atomic (.ok landed event) .ok (Transfer.ok_ok landed event) GetCall.ok_ok
      rw [Channel.getBytes_eq (Transfer.ok_ok landed event) GetCall.ok_ok,
        Channel.getBytes_eq (Transfer.ok_ok landed event) GetCall.ok_ok,
        Channel.completions_rdmaPut, Channel.content_rdmaPut, buffer] at same
      exact same
    · intro same next g fetches ok
      rw [Channel.getBytes_eq fetches ok, Channel.getBytes_eq fetches ok,
        Channel.completions_rdmaPut, Channel.content_rdmaPut, buffer]
      exact same next.landed next.nextEvent

namespace Channel

theorem completionsAfter_of_fetches (fetches : c.endpoint.ep.Fetches t e info) :
    c.completionsAfter t e info = (c.completions ++ [t.completion .write]).tail := by
  obtain ⟨⟨encrypts, post⟩, wait, got⟩ := fetches
  rw [completionsAfter, if_pos encrypts, leftByWrite, if_pos post, Channel.left,
    if_pos (by simp [wait, got]), posted, if_pos post]

theorem completionsAfter_of_posts (posts : c.endpoint.ep.Posts t e info)
    (left : ¬ c.endpoint.ep.Fetches t e info) :
    c.completionsAfter t e info = c.completions ++ [t.completion .write] := by
  have unfetched : ¬ (t.wait && t.completionGet) = true := fun both =>
    left ⟨posts, by simpa using both⟩
  rw [completionsAfter, if_pos posts.1, leftByWrite, if_pos posts.2, Channel.left,
    if_neg unfetched, posted, if_pos posts.2]

theorem completionsAfter_of_not_posts (unposted : ¬ c.endpoint.ep.Posts t e info) :
    c.completionsAfter t e info = c.completions := by
  unfold completionsAfter
  split
  · rename_i encrypts
    exact if_neg fun posted => unposted ⟨encrypts, posted⟩
  · rfl

/-- If the put fetches nothing, gets fetch the completion they fetched before, or that of the
write. -/
theorem keepsEntry_of_not_fetches (left : ¬ c.endpoint.ep.Fetches t e info) :
    c.ShowsSame gcm t e info newValue ↔ c.KeepsEntry gcm t e info newValue := by
  unfold KeepsEntry ShowsSame
  dsimp only
  by_cases posts : c.endpoint.ep.Posts t e info
  · rw [completionsAfter_of_posts posts left, frontOf_append_write]
    cases frontOf c.completions with
    | own =>
        -- the get meets the completion of the write
        rw [if_pos rfl]
        simp [Front.shows, posts, left, eq_comm]
    | other => simp [Front.shows, left]
    | read success =>
        rw [if_neg (by simp), Front.shows_read_eq_iff, if_pos rfl]
        simp [left, eq_comm]
  · have kept : c.contentAfter gcm t e info newValue = c.endpoint.content gcm info :=
      if_neg fun both => posts both.1
    rw [completionsAfter_of_not_posts posts, kept]
    cases frontOf c.completions with
    | own => simp [Front.shows, posts]
    | other => simp [Front.shows, left]
    | read success =>
        rw [Front.shows_read_eq_iff, if_pos rfl]
        simp [left, eq_comm]

/-- An entry that has no value has none after the put. -/
theorem contentAfter_of_none (nothing : c.endpoint.content gcm info = none) :
    c.contentAfter gcm t e info newValue = none := by
  unfold contentAfter
  split
  · unfold EndpointData.newContent
    cases key : c.endpoint.ep.encKey with
    | none =>
        unfold Endpoint.content EndpointData.content at nothing
        unfold EndpointData.content
        simp only [key] at nothing ⊢
        split at nothing
        · cases nothing
        · rename_i short
          exact if_neg short
    | some encKey => rfl
  · exact nothing

/-- If the put fetches a completion, gets fetch the next one. -/
theorem keepsEntry_of_fetches (fetches : c.endpoint.ep.Fetches t e info) :
    c.reports t = true ∨ c.ShowsSame gcm t e info newValue ↔
      c.KeepsEntry gcm t e info newValue := by
  have posts := fetches.1
  have reports : c.reports t = true ↔
      (c.completions ++ [t.completion .write]).head? = some ⟨.write, ibvWcSuccess⟩ := by
    simp [Channel.reports, posts.2, fetches.2.1, fetches.2.2, posted]
  unfold KeepsEntry ShowsSame
  rw [completionsAfter_of_fetches fetches, reports]
  dsimp only
  cases c.completions with
  | nil =>
      have success : ([] ++ [t.completion .write]).head? =
          some (⟨.write, ibvWcSuccess⟩ : RpmaCompletion) ↔ t.opStatus = ibvWcSuccess := by
        simp [Transfer.completion]
      have shown : (∀ (_ : Bool) (_ : Option RpmaConnEvent), c.contentAfter gcm t e info newValue =
          c.endpoint.content gcm info) ↔
          c.contentAfter gcm t e info newValue = c.endpoint.content gcm info :=
        ⟨fun same => same true none, fun same _ _ => same⟩
      rw [success]
      simp only [List.nil_append, List.tail_cons, frontOf, Front.shows]
      rw [shown]
      constructor
      · intro either
        exact Or.inr (Or.inr ⟨fetches, either⟩)
      · intro either
        rcases either with nothing | unposted | ⟨-, either⟩
        · exact Or.inr (by rw [contentAfter_of_none nothing, nothing])
        · exact (unposted posts).elim
        · exact either
  | cons x rest =>
      rw [List.cons_append, List.tail_cons, List.head?_cons, frontOf_append_write]
      by_cases isRead : x.op = .read
      · have front : frontOf (x :: rest) = .read (x.opStatus = ibvWcSuccess) := if_pos isRead
        have notWrite : ¬ some x = some ⟨.write, ibvWcSuccess⟩ := by
          intro eq
          rw [Option.some.inj eq] at isRead
          cases isRead
        rw [front, or_iff_right notWrite, List.tail_cons]
        dsimp only
        -- the put took the completion of the read, so the get meets what follows it
        cases frontOf rest with
        | own =>
            rw [if_pos rfl, if_pos ⟨fetches, by simp⟩, Front.shows_other_eq_iff]
            simp
        | other =>
            rw [if_neg (by simp), if_pos ⟨fetches, by simp⟩, Front.shows_other_eq_iff]
            simp
        | read success =>
            rw [if_neg (by simp), Front.shows_read_eq_iff]
            by_cases alike : success = (x.opStatus = ibvWcSuccess : Bool)
            · rw [if_pos alike, if_neg (fun both => both.2 (by rw [alike])), eq_comm,
                @eq_comm _ (c.bufferContent gcm info)]
            · rw [if_neg alike, if_pos ⟨fetches, fun same => alike (Front.read.inj same)⟩]
              simp [and_comm]
      · have front : frontOf (x :: rest) = .other := if_neg isRead
        rw [front, List.tail_cons]
        dsimp only [List.head?_cons]
        refine Iff.trans (or_congr Iff.rfl ?_)
          ⟨fun kept _ => kept, fun kept => kept fetches⟩
        cases frontOf rest with
        | own => simp [Front.shows]
        | other => simp [Front.shows]
        | read success =>
            rw [if_neg (by simp)]
            exact Iff.trans Front.shows_read_eq_none_iff (by simp)

end Channel

/-- What keeps gets of the client as they are. -/
theorem Role.atomic_iff_client {log : List Encryption}
    (fresh : ∀ iv, e.rand = some iv → ∀ x ∈ log, x.iv.bytes ≠ iv.bytes)
    (ideal : ∀ encKey, c.endpoint.ep.encKey = some encKey →
      Authentic gcm (log ++ Role.client.encrypted gcm e c.endpoint.ep info newValue) encKey info.aad
        (c.rdmaPut gcm t e info newValue).1.buffer) :
    Role.client.Atomic gcm t e c info newValue ↔
      Role.client.KeepsEntry gcm t e c info newValue := by
  rw [Role.atomic_client_iff_shows (Channel.bufferContent_rdmaPut fresh ideal), Role.KeepsEntry]
  by_cases fetches : c.endpoint.ep.Fetches t e info
  · rw [← Channel.keepsEntry_of_fetches fetches]
    simp only [fetches.1.1, true_and]
  · rw [← Channel.keepsEntry_of_not_fetches fetches]
    refine or_iff_right fun reported => fetches ?_
    have completes := reported.2
    simp only [Channel.reports, Bool.and_eq_true] at completes
    exact ⟨⟨reported.1, completes.1.1.1⟩, completes.1.1.2, completes.1.2⟩

end Client

section Server

variable {gcm : AesGcm} {t : Transfer} {e : EncryptEnv} {c : Channel} {info : LocalKeyInfo}
  {newValue : Memory}

/-- The server after an encryption into the store. -/
def Endpoint.overwritten (s : Endpoint) (info : LocalKeyInfo) (bytes : Bytes) : Endpoint :=
  { s with store := write s.store info.valueOffset.toNat bytes }

theorem Role.put_server :
    c.put gcm .server t e info newValue =
      (⟨c.endpoint.overwritten info
          (encryptKeyValueData gcm c.endpoint.ep e info newValue).written, c.completions⟩, info,
        (encryptKeyValueData gcm c.endpoint.ep e info newValue).ret) := by
  rw [Channel.put, Endpoint.serverPut_eq]
  rfl

/-- A put of the server that fails keeps the `info`, so it is atomic exactly when it keeps the
content. -/
theorem Role.atomic_server_iff_content
    (failed : (encryptKeyValueData gcm c.endpoint.ep e info newValue).ret = -1) :
    Role.server.Atomic gcm t e c info newValue ↔
      (c.endpoint.overwritten info
        (encryptKeyValueData gcm c.endpoint.ep e info newValue).written).content gcm info =
          c.endpoint.content gcm info := by
  unfold Role.Atomic
  rw [Role.put_server, failed]
  dsimp only [Role.getBytes]
  constructor
  · intro atomic
    have gets := (atomic rfl).2 (.ok true none) .ok (Transfer.ok_ok true none) GetCall.ok_ok
    rwa [Endpoint.getBytes_eq GetCall.ok_ok, Endpoint.getBytes_eq GetCall.ok_ok] at gets
  · intro content _
    refine ⟨rfl, fun next g _ ok => ?_⟩
    rw [Endpoint.getBytes_eq ok, Endpoint.getBytes_eq ok, content]

theorem Role.atomic_server_of_ok
    (done : (encryptKeyValueData gcm c.endpoint.ep e info newValue).ret = 0) :
    Role.server.Atomic gcm t e c info newValue := by
  unfold Role.Atomic
  rw [Role.put_server, done]
  intro failed
  cases failed

/-- What keeps gets of the server as they are: an encryption that fails has overwritten the block
from the moment its IV was drawn. -/
theorem Role.atomic_iff_server {log : List Encryption}
    (fresh : ∀ iv, e.rand = some iv → ∀ x ∈ log, x.iv.bytes ≠ iv.bytes)
    (ideal : ∀ encKey, c.endpoint.ep.encKey = some encKey →
      Authentic gcm (log ++ Role.server.encrypted gcm e c.endpoint.ep info newValue) encKey info.aad
        ((c.put gcm .server t e info newValue).1.endpoint.blockAt info)) :
    Role.server.Atomic gcm t e c info newValue ↔
      Role.server.KeepsEntry gcm t e c info newValue := by
  rw [Role.put_server] at ideal
  unfold Role.KeepsEntry
  dsimp only
  cases key : c.endpoint.ep.encKey with
  | none =>
      have done : (encryptKeyValueData gcm c.endpoint.ep e info newValue).ret = 0 := by
        simp only [encryptKeyValueData, key]
      exact iff_of_true (Role.atomic_server_of_ok done) (Or.inr (Or.inl rfl))
  | some encKey =>
      rcases encryptions_cases gcm key e info newValue with
        ⟨negative, nothing⟩ | ⟨x, encrypted, env, -⟩
      · have failed : (encryptKeyValueData gcm c.endpoint.ep e info newValue).ret = -1 := by
          rcases encryptKeyValueData_ret gcm c.endpoint.ep e info newValue with zero | minus
          · omega
          · exact minus
        have authentic := ideal encKey key
        rw [Role.encrypted, nothing, List.append_nil] at authentic
        have after : (c.endpoint.overwritten info
            (encryptKeyValueData gcm c.endpoint.ep e info newValue).written).content gcm info =
              if e.rand = none then c.endpoint.content gcm info else none :=
          content_of_failed c.endpoint.store info.valueOffset.toNat key fresh authentic
        rw [Role.atomic_server_iff_content failed, after]
        constructor
        · intro same
          split at same
          · rename_i undrawn
            exact Or.inr (Or.inr (Or.inl undrawn))
          · exact Or.inl same.symm
        · intro either
          split
          · rfl
          · rename_i drawn
            rcases either with nothing | plain | undrawn | env
            · exact nothing.symm
            · cases plain
            · exact (drawn undrawn).elim
            · exact (content_of_encrypt_failed key env (c.endpoint.length_blockAt info)
                negative).symm
      · have done : (encryptKeyValueData gcm c.endpoint.ep e info newValue).ret = 0 := by
          rcases encryptKeyValueData_ret gcm c.endpoint.ep e info newValue with zero | minus
          · exact zero
          · omega
        exact iff_of_true (Role.atomic_server_of_ok done) (Or.inr (Or.inr (Or.inr env)))

end Server

/-- For every endpoint with whatever completions it has not fetched, and every put: with an AEAD
that is ideal on what the put encrypts into, and an IV that was not used before, a put that fails
is atomic exactly if it keeps the entry. -/
theorem failed_put_atomic_iff (gcm : AesGcm) (role : Role) (t : Transfer) (e : EncryptEnv)
    (c : Channel) (info : LocalKeyInfo) (newValue : Memory) (log : List Encryption)
    (fresh : ∀ iv, e.rand = some iv → ∀ x ∈ log, x.iv.bytes ≠ iv.bytes)
    (ideal : ∀ encKey, c.endpoint.ep.encKey = some encKey →
      Authentic gcm (log ++ role.encrypted gcm e c.endpoint.ep info newValue) encKey info.aad
        (role.target (c.put gcm role t e info newValue).1 info)) :
    role.Atomic gcm t e c info newValue ↔ role.KeepsEntry gcm t e c info newValue := by
  cases role with
  | client => exact Role.atomic_iff_client fresh ideal
  | server => exact Role.atomic_iff_server fresh ideal

namespace Sample

/-- The client of an entry with the value 1, 2, 3, 4, with these completions left. -/
def channel (completions : List RpmaCompletion) : Channel := ⟨keyState.endpoint, completions⟩

/-- A write that reaches the store or not, and whose completion is fetched or not. -/
def writeOf (opStatus : Nat) (landed completionGet : Bool) : Transfer :=
  ⟨true, opStatus, landed, true, completionGet, none⟩

/-- The tag of the new block cannot be obtained. -/
def noTag : EncryptEnv := { EncryptEnv.ok (.ofNat 2) with getTag := false }

end Sample

/-- The entry can be read before and cannot be read after: a put of the client whose write lands
although its completion reports a failure, one whose write is lost and leaves its completion, and
a put of the server that fails at its last call. -/
theorem unreported_write_not_atomic :
    ¬ Role.client.Atomic .checksum (Sample.writeOf 5 true true) (.ok (.ofNat 2)) (Sample.channel [])
        (Sample.infos 0) (fun _ => 5) ∧
      ¬ Role.client.Atomic .checksum (Sample.writeOf 5 false false) (.ok (.ofNat 2))
        (Sample.channel []) (Sample.infos 0) (fun _ => 5) ∧
      ¬ Role.server.Atomic .checksum (Sample.writeOf 5 false false) Sample.noTag
        (Sample.channel []) (Sample.infos 0) (fun _ => 5) := by
  have next := Transfer.ok_ok true none
  refine ⟨?_, ?_, ?_⟩
  · intro atomic
    have gets := (atomic (by decide +kernel)).2 (.ok true none) .ok next GetCall.ok_ok
    revert gets
    decide +kernel
  · intro atomic
    have gets := (atomic (by decide +kernel)).2 (.ok true none) .ok next GetCall.ok_ok
    revert gets
    decide +kernel
  · intro atomic
    have gets := (atomic (by decide +kernel)).2 (.ok true none) .ok next GetCall.ok_ok
    revert gets
    decide +kernel

/-- A put of the client whose write is lost, as its completion says, is atomic. -/
theorem lost_write_atomic :
    (Channel.put .checksum .client (Sample.writeOf 5 false true) (.ok (.ofNat 2))
        (Sample.channel []) (Sample.infos 0) (fun _ => 5)).2.2 = -1 ∧
      Role.client.Atomic .checksum (Sample.writeOf 5 false true) (.ok (.ofNat 2))
        (Sample.channel []) (Sample.infos 0) (fun _ => 5) := by
  refine ⟨by decide +kernel, ?_⟩
  refine (failed_put_atomic_iff .checksum .client (Sample.writeOf 5 false true) (.ok (.ofNat 2))
    (Sample.channel []) (Sample.infos 0) (fun _ => 5) Sample.keyState.log ?_ ?_).mpr
    (Or.inr (Or.inr ?_))
  · intro iv drawn x member
    cases drawn
    cases List.mem_singleton.mp member
    decide
  · intro encKey key
    cases key
    decide +kernel
  · exact ⟨by decide, Or.inr (if_neg fun both => by cases both.2)⟩

end NetworkStack.OneSided
