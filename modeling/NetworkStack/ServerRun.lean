import NetworkStack.Lib.Window
import NetworkStack.Server

/-!
# Runs of a server thread

A run delivers ciphertexts to `req_handler` one after another, any bytes in any
order. `reqHandler_of_message` lifts the handler from ciphertexts to messages:
what it does to the thread is `Server.handle` of the message a delivery brings,
and what it sends is `Server.answer`.

Over runs of the client's own requests whose numbers do not wrap, the executed
sequence numbers follow the sliding window of `SlidingWindow`
(`serve_refines_window`), and repeats and the floor of the window are settled
there.
-/

namespace NetworkStack

open Machine

/-- A ciphertext handed to `req_handler`, with the library outcomes while it is handled. -/
structure Incoming : Type where
  env : ServeEnv
  ciphertext : Bytes

section Handler

variable {σ : Type} (gcm : AesGcm) (cfg : ServerConfig) (kv : KvFunctions σ)

/-- The message a delivery brings, where `decrypt_message` succeeds on it. -/
def Incoming.message (d : Incoming) : Option Message :=
  if (decryptMessage gcm cfg.encKey d.env.dec d.env.stack ⟨.null, .null, 0⟩ .empty
      d.ciphertext).ret = 0 then
    openMessage gcm cfg.encKey d.ciphertext
  else none

/-- What a message does to a server. -/
def Server.handle (srv : Server σ) (m : Message) : Server σ :=
  match m.kvCall with
  | none =>
      { srv with
        thread := { srv.thread with nextSeq := m.expected, stayConnected := false }
        shutdowns := srv.shutdowns ++ [m.seqOp] }
  | some call =>
      if srv.thread.Accepts m.seqOp then
        { srv with
          thread := { srv.thread with nextSeq := m.expected }
          kv := (kv.invoke srv.kv call).1
          kvLog := srv.kvLog ++ [(m.seqOp, call)] }
      else srv

/-- The message a server answers with, if any. -/
def Server.answer (srv : Server σ) (m : Message) : Option Message :=
  match m.kvCall with
  | none => some (m.response none)
  | some call =>
      if srv.thread.Accepts m.seqOp then some (m.response (kv.invoke srv.kv call).2) else none

/-- One delivery. -/
def Server.serve (srv : Server σ) (d : Incoming) : Server σ :=
  (reqHandler gcm cfg kv d.env srv (some d.ciphertext)).1

/-- The response one delivery is answered with. -/
def Server.reply (srv : Server σ) (d : Incoming) : Option Bytes :=
  (reqHandler gcm cfg kv d.env srv (some d.ciphertext)).2

end Handler

section Handler

variable {σ : Type} {gcm : AesGcm} {cfg : ServerConfig} {kv : KvFunctions σ}

theorem Incoming.message_inv {d : Incoming} {m : Message} (brings : d.message gcm cfg = some m) :
    (decryptMessage gcm cfg.encKey d.env.dec d.env.stack ⟨.null, .null, 0⟩ .empty
        d.ciphertext).ret = 0 ∧
      openMessage gcm cfg.encKey d.ciphertext = some m := by
  unfold Incoming.message at brings
  split at brings
  · exact ⟨‹_›, brings⟩
  · cases brings

/-- When no library call fails, a delivery brings what its ciphertext carries. -/
theorem Incoming.message_of_ok {d : Incoming} (ok : d.env.dec.Ok) :
    d.message gcm cfg = openMessage gcm cfg.encKey d.ciphertext := by
  unfold Incoming.message
  cases opens : openMessage gcm cfg.encKey d.ciphertext with
  | none => exact ite_self _
  | some m => rw [if_pos (decryptMessage_of_open ok opens)]

/-- A delivery that brings no message does nothing. -/
theorem reqHandler_of_message_none {d : Incoming} (nothing : d.message gcm cfg = none)
    (srv : Server σ) : reqHandler gcm cfg kv d.env srv (some d.ciphertext) = (srv, none) := by
  have failed : (decryptMessage gcm cfg.encKey d.env.dec d.env.stack ⟨.null, .null, 0⟩ .empty
      d.ciphertext).ret ≠ 0 := by
    intro ok
    obtain ⟨m, opens, -⟩ := decryptMessage_ok none ok
    unfold Incoming.message at nothing
    rw [if_pos ok, opens] at nothing
    cases nothing
  exact if_pos failed

/-- A delivery that brings a message is handled and answered as the message is. -/
theorem reqHandler_of_message (kv : KvFunctions σ) {d : Incoming} {m : Message}
    (brings : d.message gcm cfg = some m)
    (srv : Server σ) :
    srv.serve gcm cfg kv d = srv.handle kv m ∧
      (srv.answer kv m = none → srv.reply gcm cfg kv d = none) ∧
      ∀ r, srv.answer kv m = some r → Sends gcm cfg d.env r (srv.reply gcm cfg kv d) := by
  obtain ⟨decrypts, opens⟩ := d.message_inv brings
  have cases := reqHandler_cases gcm cfg kv d.env srv d.ciphertext
  unfold Server.serve Server.reply
  generalize reqHandler gcm cfg kv d.env srv (some d.ciphertext) = result at cases ⊢
  cases cases with
  | undecryptable failed => exact (failed decrypts).elim
  | disconnect m' opens' op sends =>
      cases opens.symm.trans opens'
      have none_ := (m.kvCall_eq_none_iff).mpr op
      unfold Server.handle Server.answer
      simp only [none_, true_and]
      exact ⟨by simp, by rintro r ⟨⟩; exact sends⟩
  | rejected m' opens' op rejected =>
      cases opens.symm.trans opens'
      obtain ⟨call, some_⟩ := Message.exists_kvCall op
      unfold Server.handle Server.answer
      simp [some_, rejected]
  | executed m' call opens' some_ accepted sends =>
      cases opens.symm.trans opens'
      unfold Server.handle Server.answer
      simp only [some_, if_pos accepted, true_and]
      exact ⟨by simp, by rintro r ⟨⟩; exact sends⟩

/-- What a delivery does to the server. -/
theorem serve_eq (gcm : AesGcm) (cfg : ServerConfig) (kv : KvFunctions σ) (srv : Server σ)
    (d : Incoming) :
    srv.serve gcm cfg kv d = (d.message gcm cfg).elim srv (srv.handle kv) := by
  cases brings : d.message gcm cfg with
  | none =>
      unfold Server.serve
      rw [reqHandler_of_message_none brings]
      rfl
  | some m => exact (reqHandler_of_message kv brings srv).1

/-- A response answers the message that was delivered, and carries the answer. -/
theorem reply_inv {srv : Server σ} {d : Incoming} {out : Bytes}
    (sent : srv.reply gcm cfg kv d = some out) :
    ∃ m r, d.message gcm cfg = some m ∧ srv.answer kv m = some r ∧
      openMessage gcm cfg.encKey out = some r := by
  cases brings : d.message gcm cfg with
  | none =>
      unfold Server.reply at sent
      rw [reqHandler_of_message_none brings] at sent
      cases sent
  | some m =>
      obtain ⟨-, silent, sends⟩ := reqHandler_of_message kv brings srv
      cases answers : srv.answer kv m with
      | none =>
          rw [silent answers] at sent
          cases sent
      | some r => exact ⟨m, r, rfl, answers, ((sent ▸ sends r answers).opens)⟩

/-- The answer is sent when it fits and no library call fails. -/
theorem reply_of_answer {srv : Server σ} {d : Incoming} {m r : Message}
    (brings : d.message gcm cfg = some m) (answers : srv.answer kv m = some r)
    (fits : ciphertextSize r.value.length ≤ cfg.maxMsgSize) (ok : d.env.enc.Ok) :
    ∃ out, srv.reply gcm cfg kv d = some out ∧ openMessage gcm cfg.encKey out = some r := by
  have sends := (reqHandler_of_message kv brings srv).2.2 r answers
  obtain ⟨out, sent⟩ := sends.succeeds fits ok
  exact ⟨out, sent, (sent ▸ sends).opens⟩

/-- A sealed message, delivered while no library call fails. -/
def Incoming.sealed (gcm : AesGcm) (cfg : ServerConfig) (iv : Iv) (m : Message) : Incoming where
  env := ⟨.ok, ⟨0, 0⟩, iv, .ok iv⟩
  ciphertext := sealMessage gcm cfg.encKey iv.bytes m

theorem Incoming.message_sealed (gcm : AesGcm) (cfg : ServerConfig) (iv : Iv) {m : Message}
    (keyLt : m.key.length < 2 ^ 64) : (Incoming.sealed gcm cfg iv m).message gcm cfg = some m := by
  rw [Incoming.message_of_ok DecEnv.ok_ok]
  exact openMessage_sealMessage gcm cfg.encKey iv keyLt

end Handler

/-! ## Messages handled one after another -/

section Handle

variable {σ : Type} {kv : KvFunctions σ}

@[simp] theorem handle_clientId (srv : Server σ) (m : Message) :
    (srv.handle kv m).thread.clientId = srv.thread.clientId := by
  unfold Server.handle
  split
  · rfl
  · split <;> rfl

/-- An accepted request is executed and answered. -/
theorem handle_of_accepts (kv : KvFunctions σ) {srv : Server σ} {m : Message} {call : KvCall}
    (asks : m.kvCall = some call) (accepted : srv.thread.Accepts m.seqOp) :
    srv.handle kv m = { srv with
        thread := { srv.thread with nextSeq := m.expected }
        kv := (kv.invoke srv.kv call).1
        kvLog := srv.kvLog ++ [(m.seqOp, call)] } ∧
      srv.answer kv m = some (m.response (kv.invoke srv.kv call).2) := by
  unfold Server.handle Server.answer
  rw [asks]
  dsimp only
  rw [if_pos accepted, if_pos accepted]
  exact ⟨rfl, rfl⟩

/-- The sequence numbers of the requests a KV function was invoked for, in order. -/
def Server.executed (srv : Server σ) : List Nat := srv.kvLog.map fun entry => seqOf entry.1

theorem handle_executed (kv : KvFunctions σ) (srv : Server σ) {m : Message}
    (request : opOf m.seqOp ≠ 3) :
    (srv.handle kv m).executed =
      if srv.thread.Accepts m.seqOp then srv.executed ++ [seqOf m.seqOp] else srv.executed := by
  obtain ⟨call, some_⟩ := Message.exists_kvCall request
  unfold Server.handle
  rw [some_]
  dsimp only
  split <;> simp [Server.executed]

end Handle

/-! ## Refinement to the sliding window -/

/-- A get, put or delete of client `id` whose sequence number is not about to wrap. -/
structure Message.IsRequest (m : Message) (id : UInt8) : Prop where
  idEq : idOf m.seqOp = id.toNat
  op : opOf m.seqOp ≠ 3
  noWrap : seqOf m.seqOp + 2 < seqModulus

instance (m : Message) (id : UInt8) : Decidable (m.IsRequest id) :=
  decidable_of_iff (idOf m.seqOp = id.toNat ∧ opOf m.seqOp ≠ 3 ∧ seqOf m.seqOp + 2 < seqModulus)
    ⟨fun h => ⟨h.1, h.2.1, h.2.2⟩, fun h => ⟨h.1, h.2, h.3⟩⟩

/-- The thread of client `id` expects the second number after the last executed one, and
nothing in particular while there is none. -/
structure Server.Tracks {σ : Type} (srv : Server σ) (id : UInt8) : Prop where
  clientId : srv.thread.clientId = id
  fresh : srv.executed = [] → srv.thread.nextSeq = 0
  expects : ∀ last ∈ srv.executed.getLast?,
    srv.thread.nextSeq ≠ 0 ∧ seqOf srv.thread.nextSeq = last + 2

section Window

variable {σ : Type} {kv : KvFunctions σ} {srv : Server σ} {id : UInt8} {m : Message}

theorem Server.Tracks.init (id : UInt8) (s : σ) : (Server.init id s).Tracks id := by
  refine ⟨rfl, fun _ => rfl, ?_⟩
  rintro last ⟨⟩

/-- The thread accepts what the window over the executed numbers accepts. -/
theorem Server.Tracks.accepts_iff (tracks : srv.Tracks id) (request : m.IsRequest id) :
    srv.thread.Accepts m.seqOp ↔
      SlidingWindow.Accepts 2 (seqThreshold * 2) srv.executed (seqOf m.seqOp) := by
  unfold ServerThread.Accepts SlidingWindow.Accepts
  rw [tracks.clientId, and_iff_right request.idEq]
  cases last : srv.executed.getLast? with
  | none =>
      simp [tracks.fresh (List.getLast?_eq_none_iff.mp last)]
  | some n =>
      obtain ⟨nonzero, expected⟩ := tracks.expects n last
      simp [nonzero, expected]

theorem Server.Tracks.handle (tracks : srv.Tracks id) (request : m.IsRequest id) :
    (srv.handle kv m).Tracks id := by
  obtain ⟨call, some_⟩ := Message.exists_kvCall request.op
  by_cases accepted : srv.thread.Accepts m.seqOp
  · have after := handle_executed kv srv request.op
    rw [if_pos accepted] at after
    have thread : (srv.handle kv m).thread.nextSeq = m.expected := by
      unfold Server.handle
      rw [some_]
      dsimp only
      rw [if_pos accepted]
    have noWrap : (seqOf m.seqOp + 2) % seqModulus = seqOf m.seqOp + 2 :=
      Nat.mod_eq_of_lt request.noWrap
    refine ⟨by simp [tracks.clientId], by simp [after], ?_⟩
    rw [after, thread]
    intro last isLast
    rw [List.getLast?_concat, Option.mem_some_iff] at isLast
    subst isLast
    unfold Message.expected
    rw [ne_eq, expected_eq_zero_iff, seqOf_expected, noWrap]
    omega
  · have same : srv.handle kv m = srv := by
      unfold Server.handle
      rw [some_]
      exact if_neg accepted
    rwa [same]

/-- Over the requests of its client, a thread executes the numbers that the window
accepts. -/
theorem serve_refines_window (gcm : AesGcm) (cfg : ServerConfig) (kv : KvFunctions σ)
    (id : UInt8) :
    Refines (Server.serve gcm cfg kv) (SlidingWindow.offer 2 (seqThreshold * 2))
      (fun srv => srv.Tracks id) (fun d => ∀ m, d.message gcm cfg = some m → m.IsRequest id)
      Server.executed (fun d => (d.message gcm cfg).map fun m => seqOf m.seqOp) where
  keeps srv d tracks requests := by
    rw [serve_eq]
    cases brings : d.message gcm cfg with
    | none => exact tracks
    | some m => exact tracks.handle (requests m brings)
  stutters srv d _ _ image := by
    rw [serve_eq, Option.map_eq_none_iff.mp image]
    rfl
  moves srv d n tracks requests image := by
    obtain ⟨m, brings, rfl⟩ := Option.map_eq_some_iff.mp image
    have request := requests m brings
    rw [serve_eq, brings, Option.elim_some, handle_executed kv srv request.op]
    unfold SlidingWindow.offer
    simp only [tracks.accepts_iff request]

end Window

end NetworkStack
