import NetworkStack.Refinement

/-!
# Disconnecting over an honest network

A client may send disconnect messages at any time, also while requests are on
their way (`prepare_disconnect` sends one after the other until `connected` is
cleared). They take sequence numbers and slots as requests do; the thread answers
them with their own operation and stops as soon as it has handled one.

For an honest network `System.honest_run_drains` says what becomes of the
calls around them: the thread executes each call once and in order, whether it
was stopped or not, so that it has executed everything that was sent before the
message that stops it; and a client that takes itself for disconnected has
disconnected its thread.
-/

namespace NetworkStack

open Machine

variable {σ : Type}

/-- What a message is answered with, and what it does to the store: a disconnect message is
answered like a call that succeeds without a value. -/
def KvFunctions.attend (kv : KvFunctions σ) (s : σ) (m : Message) : σ × Option Bytes :=
  match m.kvCall with
  | some call => kv.invoke s call
  | none => (s, some [])

/-- The answer to a disconnect message has its operation, which is the one of an error. -/
theorem Message.response_disconnect {m : Message} (op : opOf m.seqOp = 3) :
    m.response (some []) = m.response none := by
  unfold Message.response
  rw [op]
  rfl

/-- The disconnect messages among the messages leave the store as it is. -/
theorem execute_attend (kv : KvFunctions σ) (s : σ) (messages : List Message) :
    (execute kv.attend s messages).1 =
      (execute kv.invoke s (messages.filterMap Message.kvCall)).1 := by
  induction messages using List.reverseRecOn with
  | nil => rfl
  | append_singleton messages m ih =>
      rw [execute_snoc, List.filterMap_append, ih, KvFunctions.attend]
      cases asks : m.kvCall with
      | none => simp [asks]
      | some call =>
          rw [List.filterMap_cons_some asks, List.filterMap_nil, execute_snoc]

/-- What the thread does with a message that it accepts. -/
theorem handle_attends (kv : KvFunctions σ) {srv : Server σ} {m : Message}
    (accepted : srv.thread.Accepts m.seqOp) :
    (srv.handle kv m).kv = (kv.attend srv.kv m).1 ∧
      (srv.handle kv m).kvLog.map Prod.snd = srv.kvLog.map Prod.snd ++ m.kvCall.toList ∧
      (srv.handle kv m).thread.nextSeq = m.expected ∧
      (srv.handle kv m).thread.stayConnected =
        (srv.thread.stayConnected && decide (opOf m.seqOp ≠ 3)) ∧
      srv.answer kv m = some (m.response (kv.attend srv.kv m).2) := by
  cases asks : m.kvCall with
  | none =>
      have op := (m.kvCall_eq_none_iff).mp asks
      unfold Server.handle Server.answer KvFunctions.attend
      rw [asks]
      dsimp only
      rw [Message.response_disconnect op, op]
      simp
  | some call =>
      have op : opOf m.seqOp ≠ 3 := by
        intro error
        rw [(m.kvCall_eq_none_iff).mpr error] at asks
        cases asks
      obtain ⟨handled, answers⟩ := handle_of_accepts kv asks accepted
      unfold KvFunctions.attend
      rw [handled, answers, asks]
      simp [op]

/-! ## The thread's side -/

/-- The thread has handled the first messages, one after the other: it executed the calls
among them, answered each, expects the request after them, and stopped if there was a disconnect
message. -/
structure InTurn (gcm : AesGcm) (encKey : Bytes) (kv : KvFunctions σ) (s : σ)
    (sent : List Sent) (srv : Server σ) (served : List (Bytes × Option Bytes)) : Prop where
  log : srv.kvLog.map Prod.snd =
    ((sent.take served.length).map Sent.message).filterMap Message.kvCall
  state : srv.kv = (execute kv.attend s ((sent.take served.length).map Sent.message)).1
  stopped : srv.thread.stayConnected =
    (sent.take served.length).all fun r => opOf r.message.seqOp ≠ 3
  fresh : served = [] → srv.thread.nextSeq = 0
  expects : ∀ (i : Nat) (r : Sent), served.length = i + 1 → sent[i]? = some r →
    srv.thread.nextSeq = r.message.expected
  replies : ∀ (i : Nat) (entry : Bytes × Option Bytes), served[i]? = some entry →
    ∃ (r : Sent) (b : Bytes) (result : Option Bytes), sent[i]? = some r ∧
      entry = (r.ciphertext, some b) ∧
      (execute kv.attend s (sent.map Sent.message)).2[i]? = some result ∧
      openMessage gcm encKey b = some (r.message.response result)

section Thread

variable {gcm : AesGcm} {encKey : Bytes} {cfg : ServerConfig} {kv : KvFunctions σ} {s : σ}
  {sent : List Sent} {srv : Server σ} {served : List (Bytes × Option Bytes)}

theorem InTurn.length_le (inTurn : InTurn gcm encKey kv s sent srv served) :
    served.length ≤ sent.length := by
  cases served with
  | nil => exact Nat.zero_le _
  | cons entry rest =>
      obtain ⟨last, isLast⟩ : ∃ last, (entry :: rest)[rest.length]? = some last :=
        ⟨_, List.getElem?_eq_getElem (Nat.lt_succ_self rest.length)⟩
      obtain ⟨r, -, -, at_, -⟩ := inTurn.replies rest.length last isLast
      exact (List.getElem?_eq_some_iff.mp at_).1

/-- What is sent later changes nothing for the thread. -/
theorem InTurn.grow (inTurn : InTurn gcm encKey kv s sent srv served) (new : List Sent) :
    InTurn gcm encKey kv s (sent ++ new) srv served := by
  have le := inTurn.length_le
  have upTo : (sent ++ new).take served.length = sent.take served.length :=
    List.take_append_of_le_length le
  refine ⟨by rw [upTo]; exact inTurn.log, by rw [upTo]; exact inTurn.state,
    by rw [upTo]; exact inTurn.stopped, inTurn.fresh, ?_, ?_⟩
  · intro i r length at_
    rw [List.getElem?_append_left (by omega)] at at_
    exact inTurn.expects i r length at_
  · intro i entry at_
    obtain ⟨r, b, result, atSent, eq, answer, opens⟩ := inTurn.replies i entry at_
    obtain ⟨rest, grown⟩ :=
      prefix_execute_append kv.attend s (sent.map Sent.message) (new.map Sent.message)
    refine ⟨r, b, result, ?_, eq, ?_, opens⟩
    · rw [List.getElem?_append_left (List.getElem?_eq_some_iff.mp atSent).1]
      exact atSent
    · rw [List.map_append, ← grown,
        List.getElem?_append_left (List.getElem?_eq_some_iff.mp answer).1]
      exact answer

/-- The next message is accepted: its number is the expected one, or nothing is expected. -/
theorem InTurn.accepts (inTurn : InTurn gcm encKey kv s sent srv served) {s₀ : Nat}
    (seq : ∀ (i : Nat) (r : Sent), sent[i]? = some r →
      seqOf r.tag.header.seqOp = (s₀ + 2 * i) % seqModulus)
    {r : Sent} (at_ : sent[served.length]? = some r)
    (ownId : idOf r.message.seqOp = srv.thread.clientId.toNat) :
    srv.thread.Accepts r.message.seqOp := by
  refine ⟨ownId, ?_⟩
  cases length : served.length with
  | zero => exact Or.inl (inTurn.fresh (List.eq_nil_of_length_eq_zero length))
  | succ i =>
      have lt := (List.getElem?_eq_some_iff.mp at_).1
      obtain ⟨t, before⟩ : ∃ t, sent[i]? = some t := ⟨_, List.getElem?_eq_getElem (by omega)⟩
      have expected : seqOf srv.thread.nextSeq = (s₀ + 2 * (i + 1)) % seqModulus := by
        rw [inTurn.expects i t length before, Message.expected, seqOf_expected]
        change (seqOf t.tag.header.seqOp + 2) % seqModulus = _
        rw [seq i t before, Nat.mod_add_mod]
        rfl
      have number : seqOf r.message.seqOp = (s₀ + 2 * (i + 1)) % seqModulus := by
        rw [length] at at_
        exact seq (i + 1) r at_
      right
      rw [number, expected, Int.sub_self]
      exact Nat.zero_le _

/-- Handing over the next message keeps the thread's side. -/
theorem InTurn.serve (inTurn : InTurn gcm encKey kv s sent srv served)
    (key : cfg.encKey = encKey) {d : Incoming} {r : Sent} (at_ : sent[served.length]? = some r)
    (brings : d.message gcm cfg = some r.message) (accepted : srv.thread.Accepts r.message.seqOp)
    (ok : d.env.enc.Ok)
    (fits : ∀ v, (kv.attend srv.kv r.message).2 = some v →
      ciphertextSize v.length ≤ cfg.maxMsgSize)
    (empty : ciphertextSize 0 ≤ cfg.maxMsgSize) :
    InTurn gcm encKey kv s sent (srv.serve gcm cfg kv d)
      (served ++ [(r.ciphertext, srv.reply gcm cfg kv d)]) := by
  obtain ⟨state, log, expects, stopped, answers⟩ := handle_attends kv accepted
  have served' : srv.serve gcm cfg kv d = srv.handle kv r.message := by
    rw [serve_eq, brings]
    rfl
  have fitsAnswer : ciphertextSize (r.message.response (kv.attend srv.kv r.message).2).value.length
      ≤ cfg.maxMsgSize := by
    cases result : (kv.attend srv.kv r.message).2 with
    | none => exact empty
    | some v => exact fits v result
  obtain ⟨out, sentOut, opens⟩ := reply_of_answer brings answers fitsAnswer ok
  have next : sent.take (served.length + 1) = sent.take served.length ++ [r] := by
    rw [List.take_add_one, at_, Option.toList_some]
  have messageAt : (sent.map Sent.message)[served.length]? = some r.message := by
    rw [List.getElem?_map, at_]
    rfl
  rw [served', sentOut]
  refine ⟨?_, ?_, ?_, ?_, ?_, ?_⟩
  · rw [List.length_append, List.length_singleton, next, log, inTurn.log, List.map_append,
      List.filterMap_append]
    cases asks : r.message.kvCall <;> simp [asks]
  · rw [List.length_append, List.length_singleton, next, state, List.map_append, List.map_singleton,
      execute_snoc, ← inTurn.state]
  · rw [List.length_append, List.length_singleton, next, stopped, inTurn.stopped,
      List.all_append]
    simp
  · intro nothing
    simp at nothing
  · intro i t length atI
    rw [List.length_append, List.length_singleton, Nat.add_right_cancel_iff] at length
    subst length
    cases at_.symm.trans atI
    exact expects
  · intro i entry atI
    rcases getElem?_snoc atI with old | ⟨rfl, rfl⟩
    · exact inTurn.replies i entry old
    · refine ⟨r, out, _, at_, rfl, getElem?_execute kv.attend s messageAt, ?_⟩
      rw [← List.map_take, ← inTurn.state, ← key]
      exact opens

end Thread

/-! ## The client's side -/

namespace Client

section Answers

variable {id : UInt8} {s₀ : Nat} {c : Client} {results : List (Option Bytes)} {gcm : AesGcm}
  {d : Delivery} {r : Sent}

/-- A response that reports no error, of whatever operation, completes its own slot with
success. -/
theorem deliver_success_eq (inv : c.Inv id s₀) (answered : c.Answered results) (ok : d.env.Ok)
    (sent : r ∈ c.sent) (call : r.tag.call = d.call) {v : Bytes}
    (opens : openMessage gcm c.encKey d.response = some (r.message.response (some v)))
    (pending : d.call ∈ c.pending.map Prod.fst) :
    ∃ mem, c.deliver gcm d =
      ({ c with pending := c.pending.erase (d.call, r.slot), mem := mem } : Client).completeSlot
        r.slot .opSuccess := by
  obtain ⟨p, member, own⟩ := List.mem_map.mp pending
  obtain ⟨t, sent', call', slot⟩ := inv.outstanding.sent p member
  cases inv.numbered.sent_eq sent' sent (by rw [call', own, call])
  have isP : p = (d.call, r.slot) := by rw [← own, slot]
  subst isP
  have inSlot := answered.waiting r sent (call ▸ pending)
  have decrypts : d.Decrypts gcm c.encKey r.tag.value c.mem := decryptMessage_of_open ok opens
  obtain ⟨m, opens', word⟩ := decrypts.opens
  cases opens.symm.trans opens'
  obtain ⟨seq, idEq, op⟩ := r.message.response_fields (some v)
  have answers : Answers (d.word gcm c.encKey) r.tag := by
    rw [word]
    exact ⟨seq, idEq⟩
  have verdictEq : verdict gcm c.encKey r.tag c.mem d =
      some (.opSuccess, d.word gcm c.encKey) := by
    unfold verdict
    dsimp only
    rw [if_pos decrypts, if_pos answers, word, op]
    simp [Sent.message]
  have named : namedSlot (d.word gcm c.encKey) = r.slot :=
    answers.namedSlot_eq.trans (inv.numbered.slot r sent).symm
  rcases c.deliver_cases gcm d with ⟨nothing, -⟩ | ⟨q, mem, found, ran⟩
  · rw [inv.outstanding.find_eq member] at nothing
    cases nothing
  · cases (inv.outstanding.find_eq member).symm.trans found
    refine ⟨mem, ?_⟩
    rw [ran, inSlot, verdictEq]
    dsimp only [settle]
    rw [named, inSlot, inv.numbered.valid r sent, if_pos rfl]

/-- The callback of a disconnect message clears `connected`, and no other does. -/
structure Closes (c : Client) : Prop where
  callbacks : ∀ r ∈ c.sent, r.tag.callback = some .disconnect ↔ opOf r.tag.header.seqOp = 3
  told : c.connected = false ↔
    ∃ r ∈ c.sent, opOf r.tag.header.seqOp = 3 ∧ r.tag.call ∉ c.pending.map Prod.fst

theorem Closes.of_eq (closes : c.Closes) {c' : Client} (sent : c'.sent = c.sent)
    (pending : c'.pending = c.pending) (connected : c'.connected = c.connected) : c'.Closes := by
  refine ⟨?_, ?_⟩
  · rw [sent]
    exact closes.callbacks
  · rw [sent, pending, connected]
    exact closes.told

/-- A new request waits for its answer. -/
theorem Closes.enqueue (closes : c.Closes) (inv : c.Inv id s₀) {s : Submission}
    (op : s.op.toNat < 4) (callback : s.callback = some .disconnect ↔ s.op.toNat = 3)
    (ciphertext : Bytes) : (c.enqueue s ciphertext).Closes := by
  have newOp : opOf (c.newTag s).header.seqOp = s.op.toNat :=
    (setOp_fields c.queue.currentSeqOp op).2.2
  refine ⟨?_, closes.told.trans ⟨?_, ?_⟩⟩
  · intro r member
    rcases List.mem_append.mp member with old | new
    · exact closes.callbacks r old
    · rw [List.mem_singleton.mp new]
      dsimp only
      rw [newOp]
      exact callback
  · rintro ⟨r, sent, error, done⟩
    refine ⟨r, List.mem_append_left _ sent, error, ?_⟩
    intro among
    rw [show (c.enqueue s ciphertext).pending = c.pending ++ [(c.calls, c.nextSlot)] from rfl,
      List.map_append, List.mem_append] at among
    rcases among with old | new
    · exact done old
    · exact inv.numbered.call_ne sent (List.mem_singleton.mp new)
  · rintro ⟨r, sent, error, done⟩
    have notLast : r.tag.call ≠ c.calls ∧ r.tag.call ∉ c.pending.map Prod.fst := by
      rw [show (c.enqueue s ciphertext).pending = c.pending ++ [(c.calls, c.nextSlot)] from rfl,
        List.map_append, List.mem_append] at done
      exact ⟨fun same => done (Or.inr (List.mem_singleton.mpr same)), fun old => done (Or.inl old)⟩
    rcases List.mem_append.mp sent with old | new
    · exact ⟨r, old, error, notLast.2⟩
    · rw [List.mem_singleton.mp new] at notLast
      exact (notLast.1 rfl).elim

/-- A continuation that completes its own slot. -/
theorem Closes.completeSlot (closes : c.Closes) (inv : c.Inv id s₀) (answered : c.Answered results)
    (sent : r ∈ c.sent) (pending : (r.tag.call, r.slot) ∈ c.pending) (mem : Mem) (ret : RetVal) :
    (({ c with pending := c.pending.erase (r.tag.call, r.slot), mem := mem } : Client).completeSlot
      r.slot ret).Closes := by
  have inSlot := answered.waiting r sent (List.mem_map_of_mem (f := Prod.fst) pending)
  have left := inv.mem_pending_erase_iff pending
  refine ⟨closes.callbacks, ?_⟩
  have connected : (({ c with
      pending := c.pending.erase (r.tag.call, r.slot), mem := mem } : Client).completeSlot
      r.slot ret).connected = (c.connected && decide (opOf r.tag.header.seqOp ≠ 3)) := by
    change (c.connected && ((c.queue.queue r.slot).invalidate ret).2.toList.all _) = _
    rw [inSlot, SentMessageTag.invalidate]
    congr 1
    have own := closes.callbacks r sent
    cases callback : r.tag.callback with
    | none =>
        rw [callback] at own
        have request : opOf r.tag.header.seqOp ≠ 3 := fun error => by cases own.mpr error
        simp [request]
    | some cb =>
        rw [callback, Option.some.injEq] at own
        simp [own]
  rw [connected, Bool.and_eq_false_iff, closes.told]
  constructor
  · rintro (⟨t, among, error, done⟩ | own)
    · exact ⟨t, among, error, fun still => done ((left t.tag.call).mp still).2⟩
    · refine ⟨r, sent, by simpa using own, ?_⟩
      intro still
      exact ((left r.tag.call).mp still).1 rfl
  · rintro ⟨t, among, error, done⟩
    by_cases own : t.tag.call = r.tag.call
    · rw [inv.numbered.sent_eq among sent own] at error
      exact Or.inr (by simpa using error)
    · exact Or.inl ⟨t, among, error, fun still => done ((left t.tag.call).mpr ⟨own, still⟩)⟩

end Answers

end Client

/-! ## The system -/

namespace System

/-- The network is honest, and the client may send disconnect messages. -/
def Orderly (sys : System σ) (a : Action) : Prop :=
  match a with
  | .client (.sendDisconnect _ _) => True
  | other => sys.Honest other

/-- The KV invocations that the first messages ask for. -/
def asked (sys : System σ) (n : Nat) : List KvCall :=
  ((sys.client.sent.take n).map Sent.message).filterMap Message.kvCall

/-- What the messages sent so far are answered with when they are attended to one after the
other. -/
def outcomes (kv : KvFunctions σ) (s : σ) (sys : System σ) : List (Option Bytes) :=
  (execute kv.attend s (sys.client.sent.map Sent.message)).2

/-- The values the store returned so far fit in an entry. -/
def OutcomesFit (kv : KvFunctions σ) (s : σ) (maxEntrySize : Nat) (sys : System σ) : Prop :=
  ∀ v, some v ∈ sys.outcomes kv s → v.length ≤ maxEntrySize

/-- The calls around the disconnect messages: the thread executes each call it is handed, once
and in order; it is stopped exactly if it was handed a disconnect message; a message whose
continuation has run was completed once, if it has a callback, with what it was answered with;
a client takes itself for disconnected exactly if the continuation of a disconnect message has
run, and then the thread is stopped and has executed every call sent before that message. -/
structure Drains (kv : KvFunctions σ) (s : σ) (sys : System σ) : Prop where
  invoked : sys.server.kvLog.map Prod.snd = sys.asked sys.served.length
  state : sys.server.kv = (execute kv.invoke s (sys.asked sys.served.length)).1
  stopped : sys.server.thread.stayConnected = false ↔
    ∃ r ∈ sys.client.sent.take sys.served.length, opOf r.message.seqOp = 3
  completed : ∀ (i : Nat) (r : Sent) (result : Option Bytes), sys.client.sent[i]? = some r →
    (sys.outcomes kv s)[i]? = some result → sys.client.completionsOf r.tag.call =
      if r.tag.call ∈ sys.client.pending.map Prod.fst then []
      else (r.tag.callback.map fun cb =>
        ⟨r.tag.call, cb, Client.status result, r.tag.userTag⟩).toList
  others : ∀ n, (∀ r ∈ sys.client.sent, r.tag.call ≠ n) → sys.client.completionsOf n = []
  told : sys.client.connected = false ↔ ∃ r ∈ sys.client.sent, opOf r.message.seqOp = 3 ∧
    r.tag.call ∉ sys.client.pending.map Prod.fst
  drained : ∀ (i : Nat) (r : Sent), sys.client.sent[i]? = some r → opOf r.message.seqOp = 3 →
    r.tag.call ∉ sys.client.pending.map Prod.fst → sys.server.thread.stayConnected = false ∧
      sys.asked i <+: sys.server.kvLog.map Prod.snd

/-- The invariant of these runs. -/
structure Closing (gcm : AesGcm) (kv : KvFunctions σ) (setup : Client.Setup) (s : σ)
    (sys : System σ) : Prop where
  inv : sys.Inv gcm setup
  inTurn : InTurn gcm setup.encKey kv s sys.client.sent sys.server sys.served
  answered : sys.client.Answered (sys.outcomes kv s)
  closes : sys.client.Closes
  attended : sys.Attended

section Runs

variable {gcm : AesGcm} {cfg : ServerConfig} {kv : KvFunctions σ} {setup : Client.Setup} {s : σ}
  {sys : System σ}

theorem closing_init (gcm : AesGcm) (kv : KvFunctions σ) (setup : Client.Setup) (s : σ)
    (connects : 0 ≤ setup.sessionNr) : (System.init setup s).Closing gcm kv setup s := by
  have connected : setup.client.connected = true := if_neg (Int.not_lt.mpr connects)
  refine ⟨inv_init gcm setup s, ⟨rfl, rfl, rfl, fun _ => rfl, ?_, ?_⟩, ⟨?_, ?_⟩, ⟨?_, ?_⟩, ?_⟩
  · intro i r length
    cases length
  · intro i entry at_
    cases at_
  · intro r member
    cases member
  · intro i r at_
    cases at_
  · intro r member
    cases member
  · change setup.client.connected = false ↔ _
    rw [connected]
    refine ⟨fun no => (by cases no), ?_⟩
    rintro ⟨r, member, -⟩
    cases member
  · intro i r at_
    cases at_

/-- The next results follow the ones before. -/
theorem outcomes_grow (kv : KvFunctions σ) (s : σ) {sys' : System σ} {new : List Sent}
    (sent : sys'.client.sent = sys.client.sent ++ new) :
    ∃ later, sys'.outcomes kv s = sys.outcomes kv s ++ later := by
  unfold outcomes
  rw [sent, List.map_append]
  obtain ⟨later, eq⟩ :=
    prefix_execute_append kv.attend s (sys.client.sent.map Sent.message) (new.map Sent.message)
  exact ⟨later, eq.symm⟩

/-- An action of the client keeps the invariant, if it keeps the client's side. -/
theorem Closing.client (small : setup.maxKeySize < 2 ^ 64) (closing : sys.Closing gcm kv setup s)
    {a : Client.Action} (orderly : sys.Orderly (.client a))
    (answered : (sys.client.step gcm a).Answered (sys.outcomes kv s))
    (closes : (sys.client.step gcm a).Closes) :
    (sys.step gcm cfg kv (.client a)).Closing gcm kv setup s := by
  obtain ⟨new, sent, -⟩ := (sys.client.step_extends gcm a).sent
  have sent' : (sys.step gcm cfg kv (.client a)).client.sent = sys.client.sent ++ new := sent
  obtain ⟨later, grown⟩ := outcomes_grow kv s sent'
  refine ⟨inv_step small closing.inv _, ?_, ?_, closes,
    attended_client cfg kv closing.inv closing.attended ?_⟩
  · rw [sent']
    exact closing.inTurn.grow new
  · rw [grown]
    exact answered.grow later
  · rintro d rfl
    exact orderly

theorem Closing.call (small : setup.maxKeySize < 2 ^ 64) (closing : sys.Closing gcm kv setup s)
    (k : Client.Call) (iv : Iv) (enc : EncEnv) :
    (sys.step gcm cfg kv (.client (.call k iv enc))).Closing gcm kv setup s := by
  have inv := closing.inv.client
  refine closing.client small trivial (closing.answered.call inv k iv enc) ?_
  rcases sys.client.step_call_cases gcm k iv enc with
    eq | eq | ⟨sub, submits, -, -, eq | ⟨text, -, eq⟩⟩
  · rw [eq]
    exact closing.closes
  · rw [eq]
    exact closing.closes.of_eq rfl rfl rfl
  · rw [eq]
    exact closing.closes.of_eq rfl rfl rfl
  · rw [eq]
    have op := Client.Call.submission_op submits
    have callback : sub.callback = some .disconnect ↔ sub.op.toNat = 3 := by
      rw [(Client.Call.submission_callback submits).1]
      refine ⟨?_, fun error => by omega⟩
      intro same
      obtain ⟨cb, -, isUser⟩ := Option.map_eq_some_iff.mp same
      cases isUser
    exact (closing.closes.enqueue inv (by omega) callback text).of_eq rfl rfl rfl

theorem Closing.sendDisconnect (small : setup.maxKeySize < 2 ^ 64)
    (closing : sys.Closing gcm kv setup s) (iv : Iv) (enc : EncEnv) :
    (sys.step gcm cfg kv (.client (.sendDisconnect iv enc))).Closing gcm kv setup s := by
  have inv := closing.inv.client
  rcases sys.client.step_sendDisconnect_cases gcm iv enc with eq | ⟨free, eq | ⟨text, -, eq⟩⟩
  · refine closing.client small trivial ?_ ?_
    · rw [eq]
      exact closing.answered
    · rw [eq]
      exact closing.closes
  · have kept := closing.answered.giveBack inv Client.disconnectSubmission free
    refine closing.client small trivial ?_ ?_
    · rw [eq]
      exact ⟨kept.waiting, kept.settled⟩
    · rw [eq]
      exact closing.closes.of_eq rfl rfl rfl
  · have kept := closing.answered.enqueue inv Client.disconnectSubmission free text
    refine closing.client small trivial ?_ ?_
    · rw [eq]
      exact ⟨kept.waiting, kept.settled⟩
    · rw [eq]
      exact (closing.closes.enqueue inv (by decide) (by decide) text).of_eq rfl rfl rfl

/-- The response to a message arrives. -/
theorem Closing.poll (small : setup.maxKeySize < 2 ^ 64) (closing : sys.Closing gcm kv setup s)
    {d : Delivery} (honest : sys.Honest (.client (.poll d))) :
    (sys.step gcm cfg kv (.client (.poll d))).Closing gcm kv setup s := by
  have orderly : sys.Orderly (.client (.poll d)) := honest
  obtain ⟨ok, i, callAt, responseAt⟩ := honest
  have inv := closing.inv.client
  rw [List.getElem?_map] at callAt responseAt
  obtain ⟨entry, entryAt, response⟩ := Option.map_eq_some_iff.mp responseAt
  obtain ⟨r, b, result, at_, rfl, answer, opens⟩ := closing.inTurn.replies i entry entryAt
  cases response
  rw [at_] at callAt
  have call : r.tag.call = d.call := Option.some.inj callAt
  have sent := List.mem_of_getElem? at_
  rw [← closing.inv.under.encKey] at opens
  by_cases pending : d.call ∈ sys.client.pending.map Prod.fst
  · have completes : ∃ mem, sys.client.deliver gcm d =
        ({ sys.client with
          pending := sys.client.pending.erase (r.tag.call, r.slot), mem := mem } :
          Client).completeSlot r.slot (Client.status result) := by
      rw [call]
      cases result with
      | some v =>
          exact Client.deliver_success_eq inv closing.answered ok sent call opens pending
      | none =>
          -- a disconnect message is not answered with an error
          have request : opOf r.tag.header.seqOp ≠ 3 := by
            intro error
            have executed := getElem?_execute kv.attend s
              (show (sys.client.sent.map Sent.message)[i]? = some r.message by
                rw [List.getElem?_map, at_]; rfl)
            rw [show (execute kv.attend s _).2[i]? = _ from answer] at executed
            unfold KvFunctions.attend at executed
            rw [(r.message.kvCall_eq_none_iff).mpr error] at executed
            cases executed
          obtain ⟨mem, ran, -⟩ := Client.Responds.deliver_eq
            ⟨ok, sent, call, request, opens⟩ inv closing.answered pending
          exact ⟨mem, ran⟩
    obtain ⟨mem, ran⟩ := completes
    have member : (r.tag.call, r.slot) ∈ sys.client.pending := by
      obtain ⟨p, member, own⟩ := List.mem_map.mp pending
      obtain ⟨t, sent', call', slot⟩ := inv.outstanding.sent p member
      cases inv.numbered.sent_eq sent' sent (by rw [call', own, call])
      rw [call', slot]
      exact member
    refine closing.client small orderly ?_ ?_
    · change (sys.client.deliver gcm d).Answered _
      rw [ran]
      exact closing.answered.completeSlot inv at_ answer member mem
    · change (sys.client.deliver gcm d).Closes
      rw [ran]
      exact closing.closes.completeSlot inv closing.answered sent member mem _
  · have same : sys.client.deliver gcm d = sys.client := by
      rcases sys.client.deliver_cases gcm d with ⟨-, same⟩ | ⟨p, mem, found, -⟩
      · exact same
      · have own : p.1 = d.call := by simpa using List.find?_some found
        exact (pending (own ▸ List.mem_map_of_mem (List.mem_of_find?_eq_some found))).elim
    refine closing.client small orderly ?_ ?_
    · change (sys.client.deliver gcm d).Answered _
      rw [same]
      exact closing.answered
    · change (sys.client.deliver gcm d).Closes
      rw [same]
      exact closing.closes

/-- The next message is handed over. -/
theorem Closing.serve (small : setup.maxKeySize < 2 ^ 64) {maxEntrySize : Nat}
    (config : cfg = ⟨setup.encKey, ciphertextSize maxEntrySize⟩)
    (values : sys.OutcomesFit kv s maxEntrySize) (closing : sys.Closing gcm kv setup s)
    {d : Incoming} (honest : sys.Honest (.serve d)) :
    (sys.step gcm cfg kv (.serve d)).Closing gcm kv setup s := by
  obtain ⟨decOk, encOk, textAt⟩ := honest
  rw [List.getElem?_map] at textAt
  obtain ⟨r, at_, same⟩ := Option.map_eq_some_iff.mp textAt
  have sent := List.mem_of_getElem? at_
  have key : cfg.encKey = setup.encKey := by rw [config]
  have brings := message_of_sent key closing.inv decOk sent same
  have ownId : idOf r.message.seqOp = sys.server.thread.clientId.toNat := by
    rw [closing.inv.clientId]
    exact closing.inv.client.numbered.sentId r sent
  have accepted := closing.inTurn.accepts closing.inv.client.numbered.seq at_ ownId
  have attended : (sys.step gcm cfg kv (.serve d)).Attended := by
    intro i t atI done
    rw [show (sys.step gcm cfg kv (.serve d)).served.length = sys.served.length + 1 from
      List.length_append]
    exact Nat.lt_succ_of_lt (closing.attended i t atI done)
  refine ⟨inv_step small closing.inv _, ?_, closing.answered, closing.closes, attended⟩
  have next := closing.inTurn.serve key at_ brings accepted encOk ?_ ?_
  · rw [same] at next
    exact next
  · intro v answers
    have messageAt : (sys.client.sent.map Sent.message)[sys.served.length]? = some r.message := by
      rw [List.getElem?_map, at_]
      rfl
    have answer := getElem?_execute kv.attend s messageAt
    rw [← List.map_take, ← closing.inTurn.state, answers] at answer
    rw [config]
    exact Nat.add_le_add_right (values v (List.mem_of_getElem? answer)) _
  · rw [config]
    exact Nat.add_le_add_right (Nat.zero_le _) _

/-- Values that fit at the end of a run fit at every step of it. -/
theorem along_outcomesFit {maxEntrySize : Nat} {acts : List Action}
    (values : (run (step gcm cfg kv) sys acts).OutcomesFit kv s maxEntrySize) :
    Along (step gcm cfg kv) (fun sys _ => sys.OutcomesFit kv s maxEntrySize) sys acts := by
  refine along_of_forall ?_
  rintro before a after rfl v member
  rw [run_append] at values
  obtain ⟨new, sent, -⟩ := (run_client_extends gcm cfg kv
    (run (step gcm cfg kv) sys before) (a :: after)).sent
  obtain ⟨later, grown⟩ := outcomes_grow kv s sent
  refine values v ?_
  rw [grown]
  exact List.mem_append_left _ member

theorem Closing.drains (closing : sys.Closing gcm kv setup s) : sys.Drains kv s := by
  have stops : sys.server.thread.stayConnected = false ↔
      ∃ r ∈ sys.client.sent.take sys.served.length, opOf r.message.seqOp = 3 := by
    rw [closing.inTurn.stopped, List.all_eq_false]
    simp
  refine ⟨closing.inTurn.log, ?_, stops, ?_, closing.inv.client.occupied.others,
    closing.closes.told, ?_⟩
  · rw [closing.inTurn.state, execute_attend]
    rfl
  · intro i r result at_ answer
    have sent := List.mem_of_getElem? at_
    split
    · rename_i pending
      rcases closing.inv.client.occupied.accounted r sent with ⟨-, none_⟩ | ⟨gone, -⟩
      · exact none_
      · exact (gone (closing.answered.waiting r sent pending)).elim
    · rename_i done
      obtain ⟨result', answer', completed⟩ := closing.answered.settled i r at_ done
      cases answer.symm.trans answer'
      exact completed
  · intro i r at_ op done
    have handled := closing.attended i r at_ done
    refine ⟨stops.mpr ⟨r, ?_, op⟩, ?_⟩
    · refine List.mem_of_getElem? (i := i) ?_
      rw [List.getElem?_take_of_lt handled]
      exact at_
    · rw [closing.inTurn.log]
      exact ((List.take_prefix_take_left (Nat.le_of_lt handled)).map _).filterMap _

/-- Over every honest run in which the client may send disconnect messages, in every state it
reaches: the calls around the disconnect messages are executed and completed, and a client that
takes itself for disconnected has stopped its thread after everything it had sent before. -/
theorem honest_run_drains (gcm : AesGcm) (kv : KvFunctions σ) (setup : Client.Setup) (s : σ)
    {kMaxMsgSize maxEntrySize : Nat} {cfg : ServerConfig}
    (hosted : hostServer kMaxMsgSize setup.encKey maxEntrySize = some cfg)
    (small : setup.maxKeySize < 2 ^ 64) (connects : 0 ≤ setup.sessionNr) {acts : List Action}
    (values : (run (step gcm cfg kv) (System.init setup s) acts).OutcomesFit kv s maxEntrySize)
    (orderly : Along (step gcm cfg kv) Orderly (System.init setup s) acts) :
    (run (step gcm cfg kv) (System.init setup s) acts).Drains kv s := by
  have config := config_of_hosted hosted
  have preserved : ∀ (sys : System σ) a, sys.Closing gcm kv setup s →
      sys.Orderly a ∧ sys.OutcomesFit kv s maxEntrySize →
      (sys.step gcm cfg kv a).Closing gcm kv setup s := by
    intro sys a closing met
    rcases met with ⟨here, fit⟩
    rcases a with (⟨k, iv, enc⟩ | d | ⟨iv, enc⟩) | d
    · exact closing.call small k iv enc
    · exact closing.poll small here
    · exact closing.sendDisconnect small iv enc
    · exact closing.serve small config fit here
  exact (run_invariant_of_along (I := fun sys : System σ => sys.Closing gcm kv setup s)
    preserved (closing_init gcm kv setup s connects)
    (orderly.and (along_outcomesFit values))).drains

end Runs

end System

namespace Sample

/-- A disconnect message between a put and a get of its key: the get is still executed, and the
client learns of the disconnect last. -/
def putDisconnectGet : List System.Action :=
  play system
    [fun _ => .client (.call (putCall 42) (.ofNat 1) enc),
      fun _ => .client (.sendDisconnect (.ofNat 2) enc),
      fun _ => .client (.call (getCall 43) (.ofNat 3) enc),
      (serveSent · 0), (serveSent · 1), (serveSent · 2),
      (respond · 2 2), (respond · 0 0), (respond · 1 1)]

theorem orderly_putDisconnectGet : Along systemStep System.Orderly system putDisconnectGet := by
  refine along_cons.mpr ⟨True.intro, along_cons.mpr ⟨True.intro, along_cons.mpr ⟨True.intro,
    along_cons.mpr ⟨?_, along_cons.mpr ⟨?_, along_cons.mpr ⟨?_, along_cons.mpr ⟨?_,
    along_cons.mpr ⟨?_, along_cons.mpr ⟨?_, along_nil _⟩⟩⟩⟩⟩⟩⟩⟩⟩
  · exact ⟨DecEnv.ok_ok, EncEnv.ok_ok _, by decide +kernel⟩
  · exact ⟨DecEnv.ok_ok, EncEnv.ok_ok _, by decide +kernel⟩
  · exact ⟨DecEnv.ok_ok, EncEnv.ok_ok _, by decide +kernel⟩
  · exact ⟨DecEnv.ok_ok, 2, by decide +kernel, by decide +kernel⟩
  · exact ⟨DecEnv.ok_ok, 0, by decide +kernel, by decide +kernel⟩
  · exact ⟨DecEnv.ok_ok, 1, by decide +kernel, by decide +kernel⟩

end Sample

theorem disconnect_between_calls :
    (run Sample.systemStep Sample.system Sample.putDisconnectGet).client.connected = false ∧
      (run Sample.systemStep Sample.system Sample.putDisconnectGet).server.kvLog.length = 2 ∧
      (run Sample.systemStep Sample.system Sample.putDisconnectGet).Drains .assoc [] := by
  have values : (run Sample.systemStep Sample.system Sample.putDisconnectGet).OutcomesFit .assoc []
      64 := by
    have fit : ∀ result ∈ (run Sample.systemStep Sample.system
        Sample.putDisconnectGet).outcomes .assoc [], ∀ v ∈ result, v.length ≤ 64 := by
      decide +kernel
    exact fun v member => fit (some v) member v rfl
  exact ⟨by decide +kernel, by decide +kernel, System.honest_run_drains .checksum .assoc
    (Sample.setup 10) [] (rfl : hostServer 1000 _ 64 = some Sample.config) (by decide)
    (by decide) values Sample.orderly_putDisconnectGet⟩

end NetworkStack
