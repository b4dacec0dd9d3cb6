import NetworkStack.Network

/-!
# Accepted requests and their answers

`send_encrypted_response` drops a response that does not fit the message buffer.
The KV function has been invoked by then and the thread expects the next number,
so the request counts as handled and is not answered, while a request whose KV
function fails is answered with an error. `answered_once_iff` says that this is
the only case: an accepted request is answered exactly when its result fits.
-/

namespace NetworkStack

section Answering

variable {σ : Type} {gcm : AesGcm} {cfg : ServerConfig} {kv : KvFunctions σ} {srv : Server σ}
  {m : Message}

/-- What the request is answered with: nothing where the KV function fails, and for a
disconnect, which invokes none. -/
def Server.result (kv : KvFunctions σ) (srv : Server σ) (m : Message) : Option Bytes :=
  m.kvCall.bind fun call => (kv.invoke srv.kv call).2

/-- The handler goes on with the message: it is a disconnect, or `is_seq_valid` accepts it. -/
def Server.GoesOn (srv : Server σ) (m : Message) : Prop :=
  opOf m.seqOp = 3 ∨ (srv.thread.isSeqValid m.seqOp).2 = true

/-- The message `r` answers the request `m`: next sequence number, same ID, no key, and the
operation of the request or an error. -/
structure Message.AnsweredBy (m : Message) (result : Option Bytes) (r : Message) : Prop where
  seq : seqOf r.seqOp = (seqOf m.seqOp + 1) % seqModulus
  id : idOf r.seqOp = idOf m.seqOp
  keyLen : r.header.keyLen = 0
  op : opOf r.seqOp = if result.isSome then opOf m.seqOp else 3
  value : r.value = result.getD []

/-- The continuation of a request with header word `w` takes the response `out`, unless a
library call fails, and completes with the status the result has. -/
def TakenFor (gcm : AesGcm) (encKey : Bytes) (w : UInt64) (r : Message) (out : Bytes) : Prop :=
  ∀ (tag : SentMessageTag) (mem : Mem) (d : Delivery), tag.header.seqOp = w → d.env.Ok →
    d.response = out → Client.verdict gcm encKey tag mem d =
      some (if opOf w = opOf r.seqOp then .opSuccess else .opFailed, r.seqOp)

/-- One response is enqueued, it answers the request, and the client takes it. -/
def Server.AnswersOnce (gcm : AesGcm) (cfg : ServerConfig) (kv : KvFunctions σ) (srv : Server σ)
    (d : Incoming) (m : Message) : Prop :=
  ∃ out r, srv.reply gcm cfg kv d = some out ∧ openMessage gcm cfg.encKey out = some r ∧
    m.AnsweredBy (srv.result kv m) r ∧ TakenFor gcm cfg.encKey m.seqOp r out

/-- `encrypt_message` does not fail on the message `r`. -/
def Encrypts (gcm : AesGcm) (cfg : ServerConfig) (env : ServeEnv) (r : Message) : Prop :=
  ∀ payload, Describes r.header payload r →
    (encryptMessage gcm cfg.encKey env.enc env.iv r.header payload).2 ≠ none

theorem encrypts_of_ok {env : ServeEnv} (ok : env.enc.Ok) (r : Message) :
    Encrypts gcm cfg env r := by
  intro payload _
  obtain ⟨ciphertext, encrypted⟩ :=
    encryptMessage_succeeds ok gcm cfg.encKey env.iv r.header payload
  rw [encrypted]
  exact Option.some_ne_none ciphertext

theorem Server.GoesOn.answer_eq (goesOn : srv.GoesOn m) :
    srv.answer kv m = some (m.response (srv.result kv m)) := by
  unfold Server.answer Server.result
  cases asks : m.kvCall with
  | none => rfl
  | some call =>
      rcases goesOn with disconnect | valid
      · rw [m.kvCall_eq_none_iff.mpr disconnect] at asks
        cases asks
      · dsimp only
        rw [if_pos ((srv.thread.isSeqValid_iff m.seqOp).mp valid)]
        rfl

theorem Message.answeredBy_response (m : Message) (result : Option Bytes) :
    m.AnsweredBy result (m.response result) := by
  rcases m.response_fields result with ⟨seq, id, op⟩
  exact ⟨seq, id, rfl, op, rfl⟩

/-- A response with the next number and the same ID is taken. -/
theorem takenFor_of_opens {r : Message} {result : Option Bytes} {out : Bytes}
    (answers : m.AnsweredBy result r) (opens : openMessage gcm cfg.encKey out = some r) :
    TakenFor gcm cfg.encKey m.seqOp r out := by
  intro tag mem d word ok same
  have decrypts : d.Decrypts gcm cfg.encKey tag.value mem :=
    decryptMessage_of_open ok (same ▸ opens)
  rcases decrypts.opens with ⟨r', opens', reads⟩
  rw [same, opens] at opens'
  cases opens'
  have accepted : Client.Answers r.seqOp tag := by
    rw [Client.Answers, word]
    exact ⟨answers.seq, answers.id⟩
  unfold Client.verdict
  dsimp only
  rw [if_pos decrypts, reads, if_pos accepted, word]

/-- The response is enqueued exactly when it fits. -/
theorem Sends.isSome_iff {env : ServeEnv} {r : Message} {out : Option Bytes}
    (sends : Sends gcm cfg env r out) (encrypts : Encrypts gcm cfg env r) :
    out.isSome = true ↔ ciphertextSize r.value.length ≤ cfg.maxMsgSize := by
  rcases sends with ⟨payload, describes, rfl⟩
  unfold sendEncryptedResponse
  rw [describes.valueLen]
  split
  · rename_i long
    refine iff_of_false Bool.false_ne_true ?_
    omega
  · rename_i fits
    refine iff_of_true ?_ (Nat.le_of_not_lt fits)
    exact Option.isSome_iff_ne_none.mpr (encrypts payload describes)

/-- For every state of a server, every message that decrypts and is accepted, and whatever
the KV functions return: the request is answered exactly once if and only if its result fits
the message buffer. -/
theorem answered_once_iff (gcm : AesGcm) (cfg : ServerConfig) (kv : KvFunctions σ) (srv : Server σ)
    {d : Incoming} {m : Message} (brings : d.message gcm cfg = some m) (goesOn : srv.GoesOn m)
    (encrypts : Encrypts gcm cfg d.env (m.response (srv.result kv m))) :
    srv.AnswersOnce gcm cfg kv d m ↔
      ciphertextSize ((srv.result kv m).getD []).length ≤ cfg.maxMsgSize := by
  have sends := (reqHandler_of_message kv brings srv).2.2 _ goesOn.answer_eq
  have enqueued := sends.isSome_iff encrypts
  have value : (m.response (srv.result kv m)).value = (srv.result kv m).getD [] := rfl
  rw [value] at enqueued
  rw [← enqueued]
  constructor
  · intro answered
    rcases answered with ⟨out, r, reply, -⟩
    rw [reply]
    rfl
  · intro some
    rcases Option.isSome_iff_exists.mp some with ⟨out, reply⟩
    have opens := (reply ▸ sends).opens
    have answers := m.answeredBy_response (srv.result kv m)
    exact ⟨out, _, reply, opens, answers, takenFor_of_opens answers opens⟩

end Answering

/-! ## A value that does not fit -/

namespace Sample

/-- The get of client 7 with sequence number 10. -/
def getRequest : Message := ⟨UInt64.ofNat (10 * 1024 + 7 * 4), [1], []⟩

def deliverGet : Incoming := .sealed .checksum config (.ofNat 3) getRequest

/-- A store with one value. -/
def storing (value : Bytes) : Server (List (Bytes × Bytes)) := .init 7 [([1], value)]

theorem message_deliverGet : deliverGet.message .checksum config = some getRequest :=
  Incoming.message_sealed .checksum config (.ofNat 3) (by decide)

end Sample

/-- A value of two bytes is returned to the client. -/
theorem short_value_answered :
    (Sample.storing [2, 9]).AnswersOnce .checksum Sample.config .assoc Sample.deliverGet
      Sample.getRequest :=
  (answered_once_iff .checksum Sample.config .assoc (Sample.storing [2, 9])
    Sample.message_deliverGet (Or.inr (by decide)) (encrypts_of_ok (EncEnv.ok_ok _) _)).mpr
    (by decide)

/-- A get of a value of 65 bytes, where 64 fit: it is accepted and executed, and no response is
enqueued. -/
theorem long_value_not_answered :
    Sample.deliverGet.message .checksum Sample.config = some Sample.getRequest ∧
      (Sample.storing (List.replicate 65 2)).GoesOn Sample.getRequest ∧
      Sample.deliverGet.env.enc.Ok ∧
      ((Sample.storing (List.replicate 65 2)).serve .checksum Sample.config .assoc
        Sample.deliverGet).kvLog = [(Sample.getRequest.seqOp, .get [1])] ∧
      (Sample.storing (List.replicate 65 2)).reply .checksum Sample.config .assoc
        Sample.deliverGet = none := by
  have goesOn : (Sample.storing (List.replicate 65 2)).GoesOn Sample.getRequest :=
    Or.inr (by decide)
  have ok : Sample.deliverGet.env.enc.Ok := EncEnv.ok_ok _
  have sends := (reqHandler_of_message .assoc Sample.message_deliverGet
    (Sample.storing (List.replicate 65 2))).2.2 _ goesOn.answer_eq
  have silent := mt (sends.isSome_iff (encrypts_of_ok ok _)).mp (by decide)
  refine ⟨Sample.message_deliverGet, goesOn, ok, ?_, by simpa using silent⟩
  rw [serve_eq, Sample.message_deliverGet]
  decide

end NetworkStack
