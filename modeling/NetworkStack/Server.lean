import NetworkStack.CodecSpec
import NetworkStack.ServerThread

/-!
# The request handler

`req_handler` and the response senders of `Server.cpp`. The KV functions are the
application's: a parameter over its own state. A server also keeps its history,
which the code does not read: the KV invocations with the header word of the
request they served, and the header words of the messages it shut down for.

`reqHandler_cases` says everything one delivered message can do, in terms of the
message the ciphertext carries; the results about runs go through it.
-/

namespace NetworkStack

/-- `get_function`, `put_function` and `delete_function` over the application's state. -/
structure KvFunctions (σ : Type) : Type where
  kvGet : σ → Bytes → σ × Option Bytes
  kvPut : σ → Bytes → Bytes → σ × Int
  kvDelete : σ → Bytes → σ × Int

/-- One invocation of a KV function. -/
inductive KvCall : Type
  | get (key : Bytes)
  | put (key value : Bytes)
  | delete (key : Bytes)
deriving DecidableEq

/-- `enc_key` and `max_msg_size`, set by `host_server`. -/
structure ServerConfig : Type where
  encKey : Bytes
  maxMsgSize : Nat

/-- The configuration `host_server` sets up; `none` where it refuses. `CIPHERTEXT_SIZE` is a
`size_t`: from a `max_entry_size` of `2 ^ 64 - 44` on it wraps, and the source hosts with messages
of less than 44 bytes where this refuses. -/
def hostServer (kMaxMsgSize : Nat) (encryptionKey : Bytes) (maxEntrySize : Nat) :
    Option ServerConfig :=
  if ciphertextSize maxEntrySize > kMaxMsgSize then none
  else some ⟨encryptionKey, ciphertextSize maxEntrySize⟩

theorem config_of_hosted {kMaxMsgSize : Nat} {encryptionKey : Bytes} {maxEntrySize : Nat}
    {cfg : ServerConfig} (hosted : hostServer kMaxMsgSize encryptionKey maxEntrySize = some cfg) :
    cfg = ⟨encryptionKey, ciphertextSize maxEntrySize⟩ := by
  unfold hostServer at hosted
  split at hosted
  · cases hosted
  · exact (Option.some.inj hosted).symm

/-- An association list as the application's store. -/
def KvFunctions.assoc : KvFunctions (List (Bytes × Bytes)) where
  kvGet s key := (s, s.lookup key)
  kvPut s key value := ((key, value) :: s, 0)
  kvDelete s key :=
    (s.filter (·.1 ≠ key), if (s.lookup key).isSome then 0 else -1)

structure Server (σ : Type) : Type where
  thread : ServerThread
  kv : σ
  kvLog : List (UInt64 × KvCall)
  shutdowns : List UInt64

def Server.init {σ : Type} (erpcId : UInt8) (kv : σ) : Server σ := ⟨.init erpcId, kv, [], []⟩

/-- Library outcomes of one request, and what the uninitialized header holds. -/
structure ServeEnv : Type where
  dec : DecEnv
  stack : RdmaMsgHeader
  iv : Iv
  enc : EncEnv

section Handler

variable {σ : Type} (gcm : AesGcm) (cfg : ServerConfig) (kv : KvFunctions σ) (env : ServeEnv)

/-- `send_encrypted_response`: the response enqueued, if any. -/
def sendEncryptedResponse (header : RdmaMsgHeader) (payload : RdmaEncPayload) : Option Bytes :=
  if ciphertextSize payload.valueLen > cfg.maxMsgSize then none
  else (encryptMessage gcm cfg.encKey env.enc env.iv header payload).2

/-- `send_empty_response` -/
def sendEmptyResponse (header : RdmaMsgHeader) : Option Bytes :=
  sendEncryptedResponse gcm cfg env { header with keyLen := 0 } ⟨none, none, 0⟩

/-- `send_response_get` -/
def sendResponseGet (srv : Server σ) (header : RdmaMsgHeader) (key : Bytes) :
    Server σ × Option Bytes :=
  let called := kv.kvGet srv.kv key
  let srv := { srv with kv := called.1, kvLog := srv.kvLog ++ [(header.seqOp, KvCall.get key)] }
  match called.2 with
  | none =>
      let next := srv.thread.getNextSeq header.seqOp rdmaErr
      ({ srv with thread := next.1 }, sendEmptyResponse gcm cfg env { header with seqOp := next.2 })
  | some resp =>
      let next := srv.thread.getNextSeq header.seqOp rdmaGet
      ({ srv with thread := next.1 },
        sendEncryptedResponse gcm cfg env ⟨next.2, 0⟩ ⟨none, some resp, resp.length⟩)

/-- The end of `send_response_put` and `send_response_delete`: report success or failure
of the KV function, and nothing else. -/
def sendStatus (srv : Server σ) (header : RdmaMsgHeader) (op : UInt8) (resp : Int) :
    Server σ × Option Bytes :=
  let next := srv.thread.getNextSeq header.seqOp (if 0 > resp then rdmaErr else op)
  ({ srv with thread := next.1 }, sendEmptyResponse gcm cfg env { header with seqOp := next.2 })

/-- `send_response_put` -/
def sendResponsePut (srv : Server σ) (header : RdmaMsgHeader) (key value : Bytes) :
    Server σ × Option Bytes :=
  let called := kv.kvPut srv.kv key value
  sendStatus gcm cfg env
    { srv with kv := called.1, kvLog := srv.kvLog ++ [(header.seqOp, KvCall.put key value)] }
    header rdmaPut called.2

/-- `send_response_delete` -/
def sendResponseDelete (srv : Server σ) (header : RdmaMsgHeader) (key : Bytes) :
    Server σ × Option Bytes :=
  let called := kv.kvDelete srv.kv key
  sendStatus gcm cfg env
    { srv with kv := called.1, kvLog := srv.kvLog ++ [(header.seqOp, KvCall.delete key)] }
    header rdmaDelete called.2

/-- `send_response_disconnect` -/
def sendResponseDisconnect (srv : Server σ) (header : RdmaMsgHeader) : Server σ × Option Bytes :=
  let next := srv.thread.getNextSeq header.seqOp rdmaErr
  ({ srv with thread := next.1 }, sendEmptyResponse gcm cfg env { header with seqOp := next.2 })

/-- `req_handler`: the server afterwards and the response it enqueued. -/
def reqHandler (srv : Server σ) (request : Option Bytes) : Server σ × Option Bytes :=
  match request with
  | none => (srv, none)
  | some ciphertext =>
      let r := decryptMessage gcm cfg.encKey env.dec env.stack ⟨.null, .null, 0⟩ .empty ciphertext
      if r.ret ≠ 0 then (srv, none)
      else
        let op := (opFromSeqOp r.header.seqOp).toUInt8
        let key := r.mem.read r.payload.key r.header.keyLen.toNat
        let value := r.mem.read r.payload.value r.payload.valueLen
        if op = rdmaErr then
          let sent := sendResponseDisconnect gcm cfg env srv r.header
          ({ sent.1 with
              thread := sent.1.thread.terminate
              shutdowns := sent.1.shutdowns ++ [r.header.seqOp] }, sent.2)
        else
          let valid := srv.thread.isSeqValid r.header.seqOp
          let srv := { srv with thread := valid.1 }
          if !valid.2 then (srv, none)
          else if op = rdmaGet then sendResponseGet gcm cfg kv env srv r.header key
          else if op = rdmaPut then sendResponsePut gcm cfg kv env srv r.header key value
          else if op = rdmaDelete then sendResponseDelete gcm cfg kv env srv r.header key
          else (srv, none)

end Handler

/-! ## What a request asks for -/

/-- The KV invocation a message asks for; a disconnect asks for none. -/
def Message.kvCall (m : Message) : Option KvCall :=
  match opOf m.seqOp with
  | 0 => some (.get m.key)
  | 1 => some (.put m.key m.value)
  | 2 => some (.delete m.key)
  | _ => none

/-- The result of a KV invocation: `none` where it failed, else the value to return,
which is empty for a put or a delete. -/
def KvFunctions.invoke {σ : Type} (kv : KvFunctions σ) (s : σ) : KvCall → σ × Option Bytes
  | .get key => kv.kvGet s key
  | .put key value =>
      ((kv.kvPut s key value).1, if 0 > (kv.kvPut s key value).2 then none else some [])
  | .delete key => ((kv.kvDelete s key).1, if 0 > (kv.kvDelete s key).2 then none else some [])

/-- The response to a request with a given result. -/
def Message.response (m : Message) (result : Option Bytes) : Message where
  seqOp := setOp (nextSeq m.seqOp) (if result.isSome then UInt8.ofNat (opOf m.seqOp) else rdmaErr)
  key := []
  value := result.getD []

theorem Message.kvCall_eq_none_iff (m : Message) : m.kvCall = none ↔ opOf m.seqOp = 3 := by
  have lt := opOf_lt m.seqOp
  unfold Message.kvCall
  rcases h : opOf m.seqOp with _ | _ | _ | _ | n <;> simp
  omega

/-- A message that is no disconnect asks for an invocation. -/
theorem Message.exists_kvCall {m : Message} (request : opOf m.seqOp ≠ 3) :
    ∃ call, m.kvCall = some call :=
  Option.ne_none_iff_exists'.mp (mt m.kvCall_eq_none_iff.mp request)

theorem Message.response_fields (m : Message) (result : Option Bytes) :
    seqOf (m.response result).seqOp = (seqOf m.seqOp + 1) % seqModulus ∧
      idOf (m.response result).seqOp = idOf m.seqOp ∧
      opOf (m.response result).seqOp = if result.isSome then opOf m.seqOp else 3 := by
  have lt := opOf_lt m.seqOp
  unfold Message.response
  dsimp only
  split
  · have small : (UInt8.ofNat (opOf m.seqOp)).toNat = opOf m.seqOp := by
      rw [UInt8.toNat_ofNat']
      omega
    have fields := setOp_fields (nextSeq m.seqOp) (o := UInt8.ofNat (opOf m.seqOp)) (by omega)
    rwa [small, seqOf_nextSeq, idOf_nextSeq] at fields
  · have fields := setOp_fields (nextSeq m.seqOp) (o := rdmaErr) (by decide)
    rwa [seqOf_nextSeq, idOf_nextSeq] at fields

/-! ## One delivered message -/

/-- The word a thread expects after it answered a message. -/
def Message.expected (m : Message) : UInt64 := nextSeq (nextSeq m.seqOp &&& seqMask)

/-- What the handler sends for a response: the sealed response, or nothing where it
does not fit or the library fails. -/
def Sends (gcm : AesGcm) (cfg : ServerConfig) (env : ServeEnv) (m : Message)
    (out : Option Bytes) : Prop :=
  ∃ payload, Describes m.header payload m ∧
    out = sendEncryptedResponse gcm cfg env m.header payload

/-- Everything one delivered message can do. -/
inductive Handled {σ : Type} (gcm : AesGcm) (cfg : ServerConfig) (kv : KvFunctions σ)
    (env : ServeEnv) (srv : Server σ) (ciphertext : Bytes) : Server σ × Option Bytes → Prop
  | undecryptable :
    (decryptMessage gcm cfg.encKey env.dec env.stack ⟨.null, .null, 0⟩ .empty ciphertext).ret ≠ 0 →
    Handled gcm cfg kv env srv ciphertext (srv, none)
  | disconnect (m : Message) {out : Option Bytes} :
    openMessage gcm cfg.encKey ciphertext = some m → opOf m.seqOp = 3 →
    Sends gcm cfg env (m.response none) out →
    Handled gcm cfg kv env srv ciphertext
      ({ srv with
          thread := { srv.thread with nextSeq := m.expected, stayConnected := false }
          shutdowns := srv.shutdowns ++ [m.seqOp] }, out)
  | rejected (m : Message) :
    openMessage gcm cfg.encKey ciphertext = some m → opOf m.seqOp ≠ 3 →
    ¬ srv.thread.Accepts m.seqOp → Handled gcm cfg kv env srv ciphertext (srv, none)
  | executed (m : Message) (call : KvCall) {out : Option Bytes} :
    openMessage gcm cfg.encKey ciphertext = some m → m.kvCall = some call →
    srv.thread.Accepts m.seqOp →
    Sends gcm cfg env (m.response (kv.invoke srv.kv call).2) out →
    Handled gcm cfg kv env srv ciphertext
      ({ srv with
          thread := { srv.thread with nextSeq := m.expected }
          kv := (kv.invoke srv.kv call).1
          kvLog := srv.kvLog ++ [(m.seqOp, call)] }, out)

section Handler

variable {σ : Type} {gcm : AesGcm} {cfg : ServerConfig} {kv : KvFunctions σ} {env : ServeEnv}

/-- A response that is sent carries the response message. -/
theorem Sends.opens {m : Message} {ciphertext : Bytes}
    (sends : Sends gcm cfg env m (some ciphertext)) :
    openMessage gcm cfg.encKey ciphertext = some m := by
  obtain ⟨payload, describes, sent⟩ := sends
  unfold sendEncryptedResponse at sent
  split at sent
  · cases sent
  · obtain ⟨iv, rfl⟩ := encryptMessage_seals describes sent.symm
    exact openMessage_sealMessage gcm cfg.encKey iv describes.keyLt

/-- A response that fits is sent when no library call fails. -/
theorem Sends.succeeds {m : Message} {out : Option Bytes} (sends : Sends gcm cfg env m out)
    (fits : ciphertextSize m.value.length ≤ cfg.maxMsgSize) (ok : env.enc.Ok) :
    ∃ ciphertext, out = some ciphertext := by
  obtain ⟨payload, describes, rfl⟩ := sends
  unfold sendEncryptedResponse
  rw [if_neg (by rw [describes.valueLen]; omega)]
  exact encryptMessage_succeeds ok gcm cfg.encKey env.iv _ _

theorem sendEmptyResponse_sends {m : Message} {header : RdmaMsgHeader}
    (seqOp : header.seqOp = m.seqOp) (key : m.key = []) (value : m.value = []) :
    Sends gcm cfg env m (sendEmptyResponse gcm cfg env header) := by
  refine ⟨⟨none, none, 0⟩, ?_, ?_⟩
  · exact ⟨rfl, rfl, by simp [key], Or.inr ⟨rfl, key⟩, Or.inr ⟨rfl, value⟩, by simp [value]⟩
  · unfold sendEmptyResponse Message.header
    rw [seqOp, key]
    rfl

theorem toUInt8_opFromSeqOp_eq_iff (s : UInt64) {o : UInt8} :
    (opFromSeqOp s).toUInt8 = o ↔ opOf s = o.toNat := by
  have lt := opOf_lt s
  have cast : (opFromSeqOp s).toUInt8.toNat = opOf s := by
    rw [UInt64.toNat_toUInt8, toNat_opFromSeqOp]
    omega
  rw [← UInt8.toNat_inj, cast]

/-- The status senders answer with the request's operation, or with an error. -/
theorem sendStatus_eq (gcm : AesGcm) (cfg : ServerConfig) (env : ServeEnv)
    (srv : Server σ) (header : RdmaMsgHeader) (m : Message) (resp : Int)
    (seqOp : header.seqOp = m.seqOp) {op : UInt8} (hop : op = UInt8.ofNat (opOf m.seqOp)) :
    (sendStatus gcm cfg env srv header op resp).1 =
        { srv with thread := { srv.thread with nextSeq := m.expected } } ∧
      Sends gcm cfg env (m.response (if 0 > resp then none else some []))
        (sendStatus gcm cfg env srv header op resp).2 := by
  constructor
  · unfold sendStatus ServerThread.getNextSeq Message.expected
    rw [seqOp]
  · apply sendEmptyResponse_sends
    · unfold ServerThread.getNextSeq Message.response
      dsimp only
      rw [seqOp, hop]
      by_cases failed : 0 > resp
      · simp [failed]
      · simp [failed]
    · rfl
    · unfold Message.response
      dsimp only
      split <;> rfl

theorem sendResponseDisconnect_eq (gcm : AesGcm) (cfg : ServerConfig) (env : ServeEnv)
    (srv : Server σ) {header : RdmaMsgHeader} {m : Message} (seqOp : header.seqOp = m.seqOp) :
    (sendResponseDisconnect gcm cfg env srv header).1 =
        { srv with thread := { srv.thread with nextSeq := m.expected } } ∧
      Sends gcm cfg env (m.response none) (sendResponseDisconnect gcm cfg env srv header).2 := by
  constructor
  · unfold sendResponseDisconnect ServerThread.getNextSeq Message.expected
    rw [seqOp]
  · exact sendEmptyResponse_sends (by unfold ServerThread.getNextSeq; rw [seqOp]; rfl) rfl rfl

/-- What the sender of an accepted request's response does: one KV invocation and its answer. -/
def Executes (gcm : AesGcm) (cfg : ServerConfig) (kv : KvFunctions σ) (env : ServeEnv)
    (srv : Server σ) (m : Message) (call : KvCall) (result : Server σ × Option Bytes) : Prop :=
  result.1 =
      { srv with
        thread := { srv.thread with nextSeq := m.expected }
        kv := (kv.invoke srv.kv call).1
        kvLog := srv.kvLog ++ [(m.seqOp, call)] } ∧
    Sends gcm cfg env (m.response (kv.invoke srv.kv call).2) result.2

section Senders

variable {srv : Server σ} {header : RdmaMsgHeader} {m : Message}

/-- The get sender answers with what `kv_get` returned, or with an error. -/
theorem sendResponseGet_executes (seqOp : header.seqOp = m.seqOp) (hop : opOf m.seqOp = 0) :
    Executes gcm cfg kv env srv m (.get m.key)
      (sendResponseGet gcm cfg kv env srv header m.key) := by
  unfold sendResponseGet Executes KvFunctions.invoke
  dsimp only
  split
  · rename_i missing
    refine ⟨by unfold ServerThread.getNextSeq Message.expected; rw [seqOp], ?_⟩
    rw [missing]
    exact sendEmptyResponse_sends (by unfold ServerThread.getNextSeq; rw [seqOp]; rfl) rfl rfl
  · rename_i resp found
    refine ⟨by unfold ServerThread.getNextSeq Message.expected; rw [seqOp], ?_⟩
    rw [found]
    refine ⟨⟨none, some resp, resp.length⟩, ?_, ?_⟩
    · exact ⟨rfl, rfl, Nat.two_pow_pos 64, Or.inr ⟨rfl, rfl⟩, Or.inl rfl, rfl⟩
    · have word : (srv.thread.getNextSeq header.seqOp rdmaGet).2 =
          (m.response (some resp)).seqOp := by
        unfold ServerThread.getNextSeq Message.response
        rw [seqOp, hop]
        rfl
      rw [word]
      rfl

theorem sendResponsePut_executes (seqOp : header.seqOp = m.seqOp) (hop : opOf m.seqOp = 1) :
    Executes gcm cfg kv env srv m (.put m.key m.value)
      (sendResponsePut gcm cfg kv env srv header m.key m.value) := by
  unfold sendResponsePut
  rw [seqOp]
  exact sendStatus_eq gcm cfg env _ header m _ seqOp (by rw [hop]; rfl)

theorem sendResponseDelete_executes (seqOp : header.seqOp = m.seqOp) (hop : opOf m.seqOp = 2) :
    Executes gcm cfg kv env srv m (.delete m.key)
      (sendResponseDelete gcm cfg kv env srv header m.key) := by
  unfold sendResponseDelete
  rw [seqOp]
  exact sendStatus_eq gcm cfg env _ header m _ seqOp (by rw [hop]; rfl)

/-- The validity check may have moved the expected number; answering overwrites it. -/
theorem Executes.handled {n : UInt64} {call : KvCall} {result : Server σ × Option Bytes}
    {ciphertext : Bytes}
    (executes : Executes gcm cfg kv env
      { srv with thread := { srv.thread with nextSeq := n } } m call result)
    (opens : openMessage gcm cfg.encKey ciphertext = some m) (asks : m.kvCall = some call)
    (accepted : srv.thread.Accepts m.seqOp) : Handled gcm cfg kv env srv ciphertext result := by
  obtain ⟨after, sends⟩ := executes
  rw [← Prod.eta result, after]
  exact .executed m call opens asks accepted sends

end Senders

/-- One delivered message does one of the things `Handled` lists. -/
theorem reqHandler_cases (gcm : AesGcm) (cfg : ServerConfig) (kv : KvFunctions σ) (env : ServeEnv)
    (srv : Server σ) (ciphertext : Bytes) :
    Handled gcm cfg kv env srv ciphertext (reqHandler gcm cfg kv env srv (some ciphertext)) := by
  unfold reqHandler
  dsimp only
  split
  · rename_i failed
    exact .undecryptable failed
  rename_i ok
  rw [not_not] at ok
  obtain ⟨m, opens, carries⟩ := decryptMessage_ok none ok
  clear ok
  change DecResult.Carries (decryptMessage gcm cfg.encKey env.dec env.stack ⟨.null, .null, 0⟩ .empty
    ciphertext) none m at carries
  generalize decryptMessage gcm cfg.encKey env.dec env.stack ⟨.null, .null, 0⟩ .empty ciphertext = r
    at carries ⊢
  have seqOp : r.header.seqOp = m.seqOp := congrArg RdmaMsgHeader.seqOp carries.header
  rw [carries.keyLen, carries.key, carries.valueLen, carries.value]
  simp only [toUInt8_opFromSeqOp_eq_iff, seqOp]
  by_cases disconnects : opOf m.seqOp = rdmaErr.toNat
  · rw [if_pos disconnects]
    obtain ⟨thread, sends⟩ := sendResponseDisconnect_eq gcm cfg env srv seqOp
    rw [thread]
    exact .disconnect m opens disconnects sends
  rw [if_neg disconnects]
  by_cases accepted : srv.thread.Accepts m.seqOp
  · have answer := (srv.thread.isSeqValid_iff m.seqOp).mpr accepted
    obtain ⟨n, moved⟩ := srv.thread.isSeqValid_fst m.seqOp
    rw [answer, moved]
    simp only [Bool.not_true, Bool.false_eq_true, if_false]
    have lt := opOf_lt m.seqOp
    by_cases isGet : opOf m.seqOp = rdmaGet.toNat
    · rw [if_pos isGet]
      have zero : opOf m.seqOp = 0 := isGet
      have asks : m.kvCall = some (.get m.key) := by simp [Message.kvCall, zero]
      exact (sendResponseGet_executes seqOp zero).handled opens asks accepted
    rw [if_neg isGet]
    by_cases isPut : opOf m.seqOp = rdmaPut.toNat
    · rw [if_pos isPut]
      have one : opOf m.seqOp = 1 := isPut
      have asks : m.kvCall = some (.put m.key m.value) := by simp [Message.kvCall, one]
      exact (sendResponsePut_executes seqOp one).handled opens asks accepted
    rw [if_neg isPut]
    have two : opOf m.seqOp = 2 := by
      simp only [rdmaGet, rdmaPut, rdmaErr, UInt8.toNat_ofNat] at isGet isPut disconnects
      omega
    rw [if_pos (show opOf m.seqOp = rdmaDelete.toNat from two)]
    have asks : m.kvCall = some (.delete m.key) := by simp [Message.kvCall, two]
    exact (sendResponseDelete_executes seqOp two).handled opens asks accepted
  · rw [srv.thread.isSeqValid_of_not_accepts accepted]
    exact .rejected m opens disconnects accepted

end Handler

end NetworkStack
