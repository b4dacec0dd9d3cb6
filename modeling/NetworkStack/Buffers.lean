import NetworkStack.Confinement

/-!
# Message buffers

All buffers are allocated beforehand: a client has a request and a response
buffer for each slot, sized by the largest key and value it was constructed for,
and a thread answers in buffers of `max_msg_size` bytes. Before each message the
buffer is resized to the length that the message will have, and `encrypt_message`
writes into it without a bound of its own.

The sizes are sums of `size_t` that nothing checks for a wrap.
`Cluster.buffers_suffice` says that without one the buffers are enough as long as
the store hands out no value that is longer than those of the clients, whatever
the network delivers of what the clients and the threads produced.
-/

namespace NetworkStack

open Machine

/-! ## Sizes -/

/-- `CIPHERTEXT_SIZE` as the sum of `size_t` that it is. -/
def ciphertextSizeT (payloadSize : UInt64) : UInt64 := payloadSize + UInt64.ofNat minMsgLen

theorem toNat_ciphertextSizeT {n : Nat} (room : ciphertextSize n < 2 ^ 64) :
    (ciphertextSizeT (UInt64.ofNat n)).toNat = ciphertextSize n := by
  unfold ciphertextSizeT
  rw [← UInt64.ofNat_add, UInt64.toNat_ofNat']
  exact Nat.mod_eq_of_lt room

namespace Client

/-- `max_req_size` of the constructor, the size of a request buffer. -/
def Setup.maxReqSize (setup : Setup) : UInt64 :=
  ciphertextSizeT (UInt64.ofNat setup.maxKeySize + UInt64.ofNat setup.maxValSize)

/-- `max_resp_size` of the constructor, the size of a response buffer. -/
def Setup.maxRespSize (setup : Setup) : UInt64 :=
  ciphertextSizeT (UInt64.ofNat setup.maxValSize)

/-- The sizes of the buffers do not wrap. -/
def Setup.Roomy (setup : Setup) : Prop :=
  setup.maxKeySize + setup.maxValSize + minMsgLen < 2 ^ 64

instance (setup : Setup) : Decidable setup.Roomy := inferInstanceAs (Decidable (_ < _))

theorem Setup.Roomy.maxReqSize {setup : Setup} (roomy : setup.Roomy) :
    setup.maxReqSize.toNat = ciphertextSize (setup.maxKeySize + setup.maxValSize) := by
  unfold Setup.maxReqSize
  rw [← UInt64.ofNat_add]
  exact toNat_ciphertextSizeT roomy

theorem Setup.Roomy.maxRespSize {setup : Setup} (roomy : setup.Roomy) :
    setup.maxRespSize.toNat = ciphertextSize setup.maxValSize := by
  refine toNat_ciphertextSizeT ?_
  unfold Setup.Roomy at roomy
  unfold ciphertextSize
  omega

end Client

/-- The size that `get`, `put`, `del` and `send_disconnect_message` resize the request buffer
to. -/
def Sent.requestSize (r : Sent) : UInt64 :=
  ciphertextSizeT (r.tag.header.keyLen + UInt64.ofNat r.payload.valueLen)

/-- The request has the length that its header says, and its key and its value are not longer
than the client was constructed for. -/
structure Sent.Fits (setup : Client.Setup) (r : Sent) : Prop where
  length : r.ciphertext.length =
    ciphertextSize (r.tag.header.keyLen.toNat + r.payload.valueLen)
  key : r.tag.header.keyLen.toNat ≤ setup.maxKeySize
  value : r.payload.valueLen ≤ setup.maxValSize
  carries : r.message.value.length = r.payload.valueLen

theorem ciphertextSize_mono {n k : Nat} (le : n ≤ k) : ciphertextSize n ≤ ciphertextSize k :=
  Nat.add_le_add_right le minMsgLen

/-- The request fills the part of its buffer that it was resized to. -/
theorem Sent.Fits.buffer {setup : Client.Setup} {r : Sent} (fits : r.Fits setup)
    (roomy : setup.Roomy) :
    r.ciphertext.length = r.requestSize.toNat ∧ r.requestSize ≤ setup.maxReqSize := by
  have le := ciphertextSize_mono (Nat.add_le_add fits.key fits.value)
  have size : r.requestSize.toNat =
      ciphertextSize (r.tag.header.keyLen.toNat + r.payload.valueLen) := by
    have sum : r.tag.header.keyLen + UInt64.ofNat r.payload.valueLen =
        UInt64.ofNat (r.tag.header.keyLen.toNat + r.payload.valueLen) := by
      rw [UInt64.ofNat_add, UInt64.ofNat_toNat]
    unfold requestSize
    rw [sum]
    exact toNat_ciphertextSizeT (Nat.lt_of_le_of_lt le roomy)
  refine ⟨by rw [size, fits.length], ?_⟩
  rw [UInt64.le_iff_toNat_le, size, roomy.maxReqSize]
  exact le

/-- The value that a KV function is handed. -/
def KvCall.value : KvCall → Bytes
  | .put _ value => value
  | .get _ => []
  | .delete _ => []

/-- In the states of `I` the store returns no value of more than `n` bytes, and it stays there
as long as no longer value is put. -/
structure KvFunctions.Bounds {σ : Type} (kv : KvFunctions σ) (I : σ → Prop) (n : Nat) : Prop where
  keeps : ∀ s call, I s → call.value.length ≤ n → I (kv.invoke s call).1
  get : ∀ s key value, I s → (kv.kvGet s key).2 = some value → value.length ≤ n

/-- A store that returns what was put. -/
theorem KvFunctions.assoc_bounds (n : Nat) :
    KvFunctions.assoc.Bounds (fun s => ∀ entry ∈ s, entry.2.length ≤ n) n := by
  refine ⟨?_, ?_⟩
  · intro s call short le
    cases call with
    | get key => exact short
    | put key value =>
        intro entry member
        rcases List.mem_cons.mp member with rfl | old
        · exact le
        · exact short entry old
    | delete key =>
        intro entry member
        exact short entry (List.mem_filter.mp member).1
  · intro s key value short found
    obtain ⟨before, after, rfl, -⟩ := List.lookup_eq_some_iff.mp found
    exact short (key, value) (List.mem_append_right _ List.mem_cons_self)

theorem Message.value_of_kvCall {m : Message} {call : KvCall} (asks : m.kvCall = some call) :
    call.value.length ≤ m.value.length := by
  unfold Message.kvCall at asks
  split at asks
  · cases asks
    exact Nat.zero_le _
  · cases asks
    exact Nat.le_refl _
  · cases asks
    exact Nat.zero_le _
  · cases asks

/-! ## One message -/

section Messages

variable {σ : Type} {gcm : AesGcm} {cfg : ServerConfig} {kv : KvFunctions σ}

/-- A response fills the part of its buffer that it was resized to. -/
theorem Sends.length {env : ServeEnv} {m : Message} {out : Bytes}
    (sends : Sends gcm cfg env m (some out)) (noKey : m.key = []) :
    out.length = ciphertextSize m.value.length ∧ out.length ≤ cfg.maxMsgSize := by
  obtain ⟨payload, describes, sent⟩ := sends
  unfold sendEncryptedResponse at sent
  split at sent
  · cases sent
  · rename_i fits
    obtain ⟨iv, rfl⟩ := encryptMessage_seals describes sent.symm
    rw [length_sealMessage, noKey, List.length_nil, Nat.zero_add]
    rw [describes.valueLen] at fits
    exact ⟨rfl, Nat.not_lt.mp fits⟩

/-- What a thread sends. -/
theorem reply_length {srv : Server σ} {d : Incoming} {out : Bytes}
    (sent : srv.reply gcm cfg kv d = some out) :
    ∃ m r, d.message gcm cfg = some m ∧ srv.answer kv m = some r ∧
      openMessage gcm cfg.encKey out = some r ∧
      out.length = ciphertextSize r.value.length ∧ out.length ≤ cfg.maxMsgSize := by
  obtain ⟨m, r, brings, answers, opens⟩ := reply_inv sent
  have sends := (reqHandler_of_message kv brings srv).2.2 r answers
  rw [sent] at sends
  exact ⟨m, r, brings, answers, opens, sends.length (answer_confined answers).1⟩

/-- An answer carries what the store returned. -/
theorem KvFunctions.Bounds.answer {I : σ → Prop} {n : Nat} (bounds : kv.Bounds I n)
    {srv : Server σ} (holds : I srv.kv) {m r : Message} (answers : srv.answer kv m = some r) :
    r.value.length ≤ n := by
  unfold Server.answer at answers
  cases asks : m.kvCall with
  | none =>
      rw [asks] at answers
      cases answers
      exact Nat.zero_le n
  | some call =>
      rw [asks] at answers
      dsimp only at answers
      split at answers
      · cases answers
        unfold Message.response
        dsimp only
        cases result : (kv.invoke srv.kv call).2 with
        | none => exact Nat.zero_le n
        | some value =>
            cases call with
            | get key => exact bounds.get srv.kv key value holds result
            | put key new =>
                unfold KvFunctions.invoke at result
                dsimp only at result
                split at result
                · cases result
                · cases result
                  exact Nat.zero_le n
            | delete key =>
                unfold KvFunctions.invoke at result
                dsimp only at result
                split at result
                · cases result
                · cases result
                  exact Nat.zero_le n
      · cases answers

end Messages

/-! ## The requests of a client -/

namespace Client

variable {gcm : AesGcm} {setup : Setup} {c : Client}

/-- A request that is sent fits where the assertions of its call hold. -/
theorem fits_enqueue (fits : ∀ r ∈ c.sent, r.Fits setup) (small : setup.maxKeySize < 2 ^ 64)
    {s : Submission} (wellFormed : s.WellFormed) (key : s.keyLen ≤ setup.maxKeySize)
    (value : s.payload.valueLen ≤ setup.maxValSize) {enc : EncEnv} {iv : Iv} {ciphertext : Bytes}
    (encrypts :
      (encryptMessage gcm c.encKey enc iv (c.newTag s).header s.payload).2 = some ciphertext) :
    ∀ r ∈ (c.enqueue s ciphertext).sent, r.Fits setup := by
  intro r member
  rcases List.mem_append.mp member with old | new
  · exact fits r old
  · rw [List.mem_singleton.mp new]
    have keyLen : (UInt64.ofNat s.keyLen).toNat = s.keyLen := by
      rw [UInt64.toNat_ofNat']
      exact Nat.mod_eq_of_lt (by omega)
    have describes : Describes (c.newTag s).header s.payload
        (Sent.message ⟨c.nextSlot, c.newTag s, s.payload, ciphertext⟩) := by
      refine ⟨rfl, ?_, ?_, getD_nil_or _, getD_nil_or _, wellFormed.valueLen⟩
      · exact congrArg UInt64.ofNat wellFormed.keyLen
      · exact wellFormed.keyLen ▸ (by omega)
    obtain ⟨used, sealedAs⟩ := encryptMessage_seals describes encrypts
    have length : ciphertext.length = ciphertextSize (s.keyLen + s.payload.valueLen) := by
      rw [wellFormed.keyLen, wellFormed.valueLen, sealedAs, length_sealMessage]
      rfl
    refine ⟨?_, ?_, value, wellFormed.valueLen.symm⟩
    · change ciphertext.length = ciphertextSize ((UInt64.ofNat s.keyLen).toNat + _)
      rw [keyLen]
      exact length
    · change (UInt64.ofNat s.keyLen).toNat ≤ setup.maxKeySize
      rw [keyLen]
      exact key

theorem fits_step (under : c.SealedUnder gcm setup) (fits : ∀ r ∈ c.sent, r.Fits setup)
    (small : setup.maxKeySize < 2 ^ 64) (a : Action) :
    ∀ r ∈ (c.step gcm a).sent, r.Fits setup := by
  cases a with
  | poll d =>
      change ∀ r ∈ (c.deliver gcm d).sent, r.Fits setup
      rw [(c.deliver_sent gcm d).1]
      exact fits
  | call k iv enc =>
      rcases c.step_call_cases gcm k iv enc with
        eq | eq | ⟨s, submits, admits, -, eq | ⟨text, encrypts, eq⟩⟩
      · rw [eq]
        exact fits
      · rw [eq]
        exact fits
      · rw [eq]
        exact fits
      · rw [eq]
        obtain ⟨-, key, value⟩ := admits
        rw [under.maxKeySize] at key
        rw [under.maxValSize] at value
        exact fits_enqueue fits small (Call.submission_wellFormed submits) key value encrypts
  | sendDisconnect iv enc =>
      rcases c.step_sendDisconnect_cases gcm iv enc with eq | ⟨-, eq | ⟨text, encrypts, eq⟩⟩
      · rw [eq]
        exact fits
      · rw [eq]
        exact fits
      · rw [eq]
        exact fits_enqueue fits small ⟨rfl, rfl⟩ (Nat.zero_le _) (Nat.zero_le _) encrypts

end Client

/-! ## Runs -/

namespace Cluster

variable {σ : Type} {gcm : AesGcm} {cfg : ServerConfig} {kv : KvFunctions σ}
  {setups : UInt8 → Client.Setup} {c : Cluster σ} {I : σ → Prop} {n : Nat}

/-- Every message that was produced fits its buffer, and no value is longer than `n` bytes. -/
structure Fits (gcm : AesGcm) (cfg : ServerConfig) (setups : UInt8 → Client.Setup) (I : σ → Prop)
    (n : Nat) (c : Cluster σ) : Prop where
  inv : ∀ id, (c.parties id).Inv gcm (setupOf setups id)
  kv : I c.kv
  sent : ∀ id, ∀ r ∈ (c.parties id).client.sent, r.Fits (setupOf setups id)
  served : ∀ id q b, (q, some b) ∈ (c.parties id).served →
    b.length ≤ cfg.maxMsgSize ∧ ∃ m, openMessage gcm cfg.encKey b = some m ∧
      b.length = ciphertextSize m.value.length ∧ m.value.length ≤ n

/-- No value that the network can deliver is longer than `n` bytes. -/
theorem Fits.value_le (fits : c.Fits gcm cfg setups I n)
    (shared : ∀ id, (setups id).encKey = cfg.encKey) (bound : ∀ id, (setups id).maxValSize ≤ n)
    {b : Bytes} (available : c.Available gcm cfg.encKey b) {m : Message}
    (opens : openMessage gcm cfg.encKey b = some m) : m.value.length ≤ n := by
  rcases available with ⟨id, sent⟩ | ⟨id, served⟩ | closed
  · obtain ⟨r, member, rfl⟩ := List.mem_map.mp sent
    have opens' := (fits.inv id).opens member
    rw [show (setupOf setups id).encKey = cfg.encKey from shared id, opens] at opens'
    cases opens'
    have fitsR := fits.sent id r member
    rw [fitsR.carries]
    exact Nat.le_trans fitsR.value (bound id)
  · obtain ⟨⟨q, out⟩, member, isSome⟩ := List.mem_filterMap.mp served
    have eq : out = some b := isSome
    subst eq
    obtain ⟨-, m', opens', -, le⟩ := fits.served id q b member
    cases opens.symm.trans opens'
    exact le
  · rw [closed] at opens
    cases opens

theorem fits_init (gcm : AesGcm) (cfg : ServerConfig) (setups : UInt8 → Client.Setup) (n : Nat)
    {s : σ} (holds : I s) : (init setups s).Fits gcm cfg setups I n := by
  refine ⟨fun id => System.inv_init gcm (setupOf setups id) (), holds, ?_, ?_⟩
  · intro id r member
    cases member
  · intro id q b member
    cases member

theorem Fits.client (fits : c.Fits gcm cfg setups I n)
    (small : ∀ id, (setups id).maxKeySize < 2 ^ 64) (id : UInt8) (a : Client.Action) :
    (c.step gcm cfg kv ⟨id, .client a⟩).Fits gcm cfg setups I n := by
  have self := step_parties_self gcm cfg kv c ⟨id, .client a⟩
  refine ⟨inv_step fits.inv small _, fits.kv, ?_, ?_⟩
  · intro other
    by_cases own : other = id
    · subst own
      rw [self]
      exact Client.fits_step (fits.inv other).under (fits.sent other) (small other) a
    · rw [step_parties_of_ne gcm cfg kv c own]
      exact fits.sent other
  · intro other
    by_cases own : other = id
    · subst own
      rw [self]
      exact fits.served other
    · rw [step_parties_of_ne gcm cfg kv c own]
      exact fits.served other

/-- A thread answers with what the store returned for a message that was produced. -/
theorem Fits.serve (fits : c.Fits gcm cfg setups I n)
    (shared : ∀ id, (setups id).encKey = cfg.encKey)
    (small : ∀ id, (setups id).maxKeySize < 2 ^ 64) (bounds : kv.Bounds I n)
    (bound : ∀ id, (setups id).maxValSize ≤ n) (id : UInt8) {d : Incoming}
    (available : c.Available gcm cfg.encKey d.ciphertext) :
    (c.step gcm cfg kv ⟨id, .serve d⟩).Fits gcm cfg setups I n := by
  have self := step_parties_self gcm cfg kv c ⟨id, .serve d⟩
  refine ⟨inv_step fits.inv small _, ?_, ?_, ?_⟩
  · change I ((c.system id).server.serve gcm cfg kv d).kv
    rcases serve_kv gcm cfg kv (c.system id).server d with
      ⟨-, same, -⟩ | ⟨m, call, brings, asks, -, -, called, -⟩
    · rw [same]
      exact fits.kv
    · rw [called]
      obtain ⟨-, opens⟩ := d.message_inv brings
      exact bounds.keeps _ call fits.kv
        (Nat.le_trans (Message.value_of_kvCall asks) (fits.value_le shared bound available opens))
  · intro other
    by_cases own : other = id
    · subst own
      rw [self]
      exact fits.sent other
    · rw [step_parties_of_ne gcm cfg kv c own]
      exact fits.sent other
  · intro other q b member
    by_cases own : other = id
    · subst own
      rw [self] at member
      rcases List.mem_append.mp member with old | new
      · exact fits.served other q b old
      · obtain ⟨-, sent⟩ := Prod.mk.inj (List.mem_singleton.mp new)
        obtain ⟨m, r, -, answers, opens, length, le⟩ := reply_length sent.symm
        exact ⟨le, r, opens, length, bounds.answer fits.kv answers⟩
    · rw [step_parties_of_ne gcm cfg kv c own] at member
      exact fits.served other q b member

/-- Whatever the network does with what the clients and the threads produced, where no sum of
sizes of a client wraps: every request fills the part of its buffer that it was resized to, and
that part lies in the buffer; every response lies in the buffer of its thread and, where the store
returns no value of more than `n` bytes, in the response buffer of every client that was
constructed for `n` bytes; and no value that a client is handed is longer. -/
theorem buffers_suffice (gcm : AesGcm) (cfg : ServerConfig) (kv : KvFunctions σ)
    (setups : UInt8 → Client.Setup) (s : σ) (shared : ∀ id, (setups id).encKey = cfg.encKey)
    (roomy : ∀ id, (setups id).Roomy) (I : σ → Prop) (n : Nat)
    (bounds : kv.Bounds I n) (holds : I s) (bound : ∀ id, (setups id).maxValSize ≤ n)
    {acts : List Action}
    (adversary : Along (step gcm cfg kv) (Adversary gcm cfg.encKey) (init setups s) acts) :
    (∀ id, ∀ r ∈ ((run (step gcm cfg kv) (init setups s) acts).parties id).client.sent,
        r.ciphertext.length = r.requestSize.toNat ∧ r.requestSize ≤ (setups id).maxReqSize) ∧
      (∀ id q b,
        (q, some b) ∈ ((run (step gcm cfg kv) (init setups s) acts).parties id).served →
        b.length ≤ cfg.maxMsgSize ∧
          ∀ id', n ≤ (setups id').maxValSize → b.length ≤ (setups id').maxRespSize.toNat) ∧
      ∀ b m, (run (step gcm cfg kv) (init setups s) acts).Available gcm cfg.encKey b →
        openMessage gcm cfg.encKey b = some m → m.value.length ≤ n := by
  have small : ∀ id, (setups id).maxKeySize < 2 ^ 64 := by
    intro id
    have room := roomy id
    unfold Client.Setup.Roomy at room
    omega
  have preserved : ∀ (c : Cluster σ) (a : Action), c.Fits gcm cfg setups I n →
      c.Adversary gcm cfg.encKey a → (c.step gcm cfg kv a).Fits gcm cfg setups I n := by
    intro c a fits here
    rcases a with ⟨id, act⟩
    cases act with
    | client a => exact fits.client small id a
    | serve d => exact fits.serve shared small bounds bound id here
  have fits := run_invariant_of_along preserved (fits_init gcm cfg setups n holds) adversary
  refine ⟨?_, ?_, fun b m available opens => fits.value_le shared bound available opens⟩
  · intro id r member
    exact (fits.sent id r member).buffer (roomy id)
  · intro id q b member
    obtain ⟨le, m, -, length, short⟩ := fits.served id q b member
    refine ⟨le, fun id' large => ?_⟩
    rw [length, (roomy id').maxRespSize]
    exact ciphertextSize_mono (Nat.le_trans short large)

end Cluster

/-- The put of client 3 and the response to it lie in their buffers. -/
theorem redirected_put_fits :
    (∀ r ∈ ((run Sample.clusterStep Sample.cluster Sample.redirectedPut).parties 3).client.sent,
        r.ciphertext.length = r.requestSize.toNat ∧
          r.requestSize ≤ (Sample.setup 10).maxReqSize) ∧
      ∀ q b, (q, some b) ∈
          ((run Sample.clusterStep Sample.cluster Sample.redirectedPut).parties 3).served →
        b.length ≤ (Sample.setup 10).maxRespSize.toNat := by
  obtain ⟨requests, responses, -⟩ := Cluster.buffers_suffice .checksum Sample.config .assoc
    (fun _ => Sample.setup 10) [] (fun _ => rfl) (fun _ => by decide) _
    (Sample.setup 10).maxValSize (KvFunctions.assoc_bounds _) (by simp) (fun _ => Nat.le_refl _)
    Sample.adversary_redirectedPut
  exact ⟨requests 3, fun q b served => (responses 3 q b served).2 3 (Nat.le_refl _)⟩

end NetworkStack
