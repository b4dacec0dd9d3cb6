import NetworkStack.Lib.Run
import NetworkStack.CodecSpec
import NetworkStack.Client

/-!
# Runs of a client

A run of a client is a list of actions: calls that find their slot free, single
continuations run by the event loop, and disconnect messages. A call that waits,
or that runs the event loop after sending, is such a call between continuations
(`call_unroll`), so every execution of the client is a run of these actions.

`call_cases`, `sendDisconnect_cases` and `deliver_cases` say everything an
action can do. The invariant of every run, `Client.Inv`, has three parts: the
numbering of the requests sent, what each slot holds and which callbacks have
been invoked, and the continuations still to run.
-/

namespace NetworkStack

open Machine

/-! ## What a continuation reads -/

/-- The header word a continuation reads, authentic or not. -/
def Delivery.word (d : Delivery) (gcm : AesGcm) (encKey : Bytes) : UInt64 :=
  (headerLeft gcm encKey d.env d.stack d.response).seqOp

/-- `decrypt_message` succeeds in the continuation for a tag with value pointer `value`. -/
def Delivery.Decrypts (d : Delivery) (gcm : AesGcm) (encKey : Bytes) (value : Option Nat)
    (mem : Mem) : Prop :=
  (decryptMessage gcm encKey d.env d.stack ⟨.null, callerPtr value, 0⟩ mem d.response).ret = 0

instance (d : Delivery) (gcm : AesGcm) (encKey : Bytes) (value : Option Nat) (mem : Mem) :
    Decidable (d.Decrypts gcm encKey value mem) :=
  inferInstanceAs (Decidable (_ = _))

theorem Delivery.decrypts_iff (d : Delivery) (gcm : AesGcm) (encKey : Bytes) (value : Option Nat)
    (mem : Mem) :
    d.Decrypts gcm encKey value mem ↔
      ¬ (decryptMessage gcm encKey d.env d.stack ⟨.null, callerPtr value, 0⟩ mem
        d.response).ret < 0 := by
  unfold Delivery.Decrypts
  have ret := decryptMessage_ret gcm encKey d.env d.stack ⟨.null, callerPtr value, 0⟩ mem d.response
  omega

/-- A response that decrypts carries a message, whose header the continuation reads. -/
theorem Delivery.Decrypts.opens {d : Delivery} {gcm : AesGcm} {encKey : Bytes}
    {value : Option Nat} {mem : Mem} (decrypts : d.Decrypts gcm encKey value mem) :
    ∃ m, openMessage gcm encKey d.response = some m ∧ d.word gcm encKey = m.seqOp := by
  obtain ⟨m, opens, carries⟩ := decryptMessage_ok value decrypts
  refine ⟨m, opens, ?_⟩
  have header := carries.header
  rw [decryptMessage_header] at header
  exact congrArg RdmaMsgHeader.seqOp header

namespace Client

/-! ## Actions -/

inductive Action : Type
  | call (k : Call) (iv : Iv) (enc : EncEnv)
  | poll (d : Delivery)
  | sendDisconnect (iv : Iv) (enc : EncEnv)

/-- The environment of a call during which the event loop runs nothing. -/
def CallEnv.idle (iv : Iv) (enc : EncEnv) : CallEnv := ⟨[], iv, enc, []⟩

/-- One action. A call that does not return, as its slot is occupied or an assertion fails,
leaves the client as it is. -/
def step (gcm : AesGcm) (c : Client) : Action → Client
  | .call k iv enc => ((c.call gcm (.idle iv enc) k).map Prod.fst).getD c
  | .poll d => c.deliver gcm d
  | .sendDisconnect iv enc => (c.sendDisconnectMessage gcm (.idle iv enc)).getD c

/-! ## Calls -/

/-- What a call submits; nothing where a null pointer is refused. -/
def Call.submission (k : Call) : Option Submission :=
  match k.request with
  | .get key value valueLen => key.map fun bytes =>
      { op := rdmaGet, userTag := k.userTag, callback := k.callback.map .user
        valueSize := valueLen, keyLen := bytes.length, value := some value
        payload := ⟨some bytes, none, 0⟩ }
  | .put key value => key.bind fun bytes => value.map fun src =>
      { op := rdmaPut, userTag := k.userTag, callback := k.callback.map .user
        valueSize := none, keyLen := bytes.length, value := some none
        payload := ⟨some bytes, some src, src.length⟩ }
  | .del key => key.map fun bytes =>
      { op := rdmaDelete, userTag := k.userTag, callback := k.callback.map .user
        valueSize := none, keyLen := bytes.length, value := some none
        payload := ⟨some bytes, none, 0⟩ }

/-- What `send_disconnect_message` submits. -/
def disconnectSubmission : Submission :=
  { op := rdmaErr, userTag := 0, callback := some .disconnect
    valueSize := none, keyLen := 0, value := none
    payload := ⟨none, none, 0⟩ }

/-- The assertions of a call. -/
def Admits (c : Client) (s : Submission) : Prop :=
  0 ≤ c.sessionNr ∧ s.keyLen ≤ c.maxKeySize ∧ s.payload.valueLen ≤ c.maxValSize

instance (c : Client) (s : Submission) : Decidable (c.Admits s) :=
  inferInstanceAs (Decidable (_ ∧ _))

theorem ite_none_left_iff {α : Type} {p q : Prop} [Decidable p] [Decidable q] {x : Option α}
    (opposite : p ↔ ¬ q) : (if p then none else x) = if q then x else none := by
  by_cases h : q
  · rw [if_neg (fun hp => opposite.mp hp h), if_pos h]
  · rw [if_pos (opposite.mpr h), if_neg h]

/-- The three members are one: refuse, assert, submit. -/
theorem call_eq (gcm : AesGcm) (env : CallEnv) (c : Client) (k : Call) :
    c.call gcm env k =
      match k.submission with
      | none => some (c.returns (-1))
      | some s =>
          if c.Admits s then
            (c.submit gcm env s k.loopIterations).map fun r => r.1.returns r.2
          else none := by
  rcases k with ⟨request, callback, userTag, loopIterations⟩
  cases request with
  | get key value valueLen =>
      cases key with
      | none => rfl
      | some bytes =>
          refine ite_none_left_iff ?_
          unfold Admits
          dsimp only
          omega
  | put key value =>
      cases key with
      | none => rfl
      | some bytes =>
          cases value with
          | none => rfl
          | some src =>
              refine ite_none_left_iff ?_
              unfold Admits
              dsimp only
              omega
  | del key =>
      cases key with
      | none => rfl
      | some bytes =>
          refine ite_none_left_iff ?_
          unfold Admits
          dsimp only
          omega

theorem Call.submission_op {k : Call} {s : Submission} (submits : k.submission = some s) :
    s.op.toNat < 3 := by
  rcases k with ⟨request, callback, userTag, loopIterations⟩
  cases request with
  | get key value valueLen =>
      obtain ⟨bytes, -, rfl⟩ := Option.map_eq_some_iff.mp submits
      exact (by decide : rdmaGet.toNat < 3)
  | put key value =>
      obtain ⟨bytes, -, rest⟩ := Option.bind_eq_some_iff.mp submits
      obtain ⟨src, -, rfl⟩ := Option.map_eq_some_iff.mp rest
      exact (by decide : rdmaPut.toNat < 3)
  | del key =>
      obtain ⟨bytes, -, rfl⟩ := Option.map_eq_some_iff.mp submits
      exact (by decide : rdmaDelete.toNat < 3)

/-- The slot of the next request. -/
def nextSlot (c : Client) : Slot := acceptedIndex c.queue.currentSeqOp

/-- The tag a submission fills in. -/
def newTag (c : Client) (s : Submission) : SentMessageTag where
  header := ⟨setOp c.queue.currentSeqOp s.op, UInt64.ofNat s.keyLen⟩
  value := s.value.getD (c.queue.queue c.nextSlot).value
  valueLen := s.valueSize
  userTag := s.userTag
  callback := s.callback
  valid := true
  call := c.calls

/-- The slot is given back. -/
def giveBack (c : Client) (s : Submission) : Client :=
  { c with queue := c.queue.setTag c.nextSlot { c.newTag s with valid := false } }

/-- The request is sent. -/
def enqueue (c : Client) (s : Submission) (ciphertext : Bytes) : Client :=
  { c with
    queue := (c.queue.setTag c.nextSlot (c.newTag s)).incSeq
    pending := c.pending ++ [(c.calls, c.nextSlot)]
    sent := c.sent ++ [⟨c.nextSlot, c.newTag s, s.payload, ciphertext⟩] }

theorem setTag_setTag (q : PendingRequestQueue) (k : Slot) (t u : SentMessageTag) :
    (q.setTag k t).setTag k u = q.setTag k u := by
  unfold PendingRequestQueue.setTag
  simp

/-- A submission that finds its slot free. -/
theorem submit_free (gcm : AesGcm) (iv : Iv) (enc : EncEnv) (loop : List (List Delivery))
    {c : Client} (free : (c.queue.queue c.nextSlot).valid = false) (s : Submission)
    (loopIterations : Nat) :
    c.submit gcm ⟨[], iv, enc, loop⟩ s loopIterations =
      match (encryptMessage gcm c.encKey enc iv (c.newTag s).header s.payload).2 with
      | none => some (c.giveBack s, -1)
      | some ciphertext =>
          some ((loop.take loopIterations).foldl (runEventLoopOnce gcm) (c.enqueue s ciphertext),
            0) := by
  unfold submit prepareNewRequest waitForSlot
  change Option.map _ (Option.map _ (if (c.queue.queue c.nextSlot).valid = true then none
    else some c)) = _
  rw [if_neg (by rw [free]; exact Bool.false_ne_true)]
  simp only [Option.map_some, PendingRequestQueue.setTag_queue_self, setTag_setTag]
  change some (match (encryptMessage gcm c.encKey enc iv (c.newTag s).header s.payload).2 with
    | none => _
    | some ciphertext => _) = _
  cases (encryptMessage gcm c.encKey enc iv (c.newTag s).header s.payload).2 with
  | none => rfl
  | some ciphertext => rfl

/-- A submission that does not wait and after which the event loop runs nothing. -/
theorem submit_idle (gcm : AesGcm) (iv : Iv) (enc : EncEnv) (c : Client) (s : Submission)
    (loopIterations : Nat) :
    c.submit gcm (.idle iv enc) s loopIterations =
      if (c.queue.queue c.nextSlot).valid then none
      else
        match (encryptMessage gcm c.encKey enc iv (c.newTag s).header s.payload).2 with
        | none => some (c.giveBack s, -1)
        | some ciphertext => some (c.enqueue s ciphertext, 0) := by
  cases free : (c.queue.queue c.nextSlot).valid with
  | true =>
      unfold submit prepareNewRequest waitForSlot CallEnv.idle
      change Option.map _ (Option.map _ (if (c.queue.queue c.nextSlot).valid = true then none
        else some c)) = _
      rw [free]
      rfl
  | false =>
      unfold CallEnv.idle
      rw [submit_free gcm iv enc [] free, List.take_nil]
      rfl

/-- Everything a call can do that finds its slot free. -/
theorem call_cases {gcm : AesGcm} {iv : Iv} {enc : EncEnv} {c c' : Client} {k : Call} {ret : Int}
    (called : c.call gcm (.idle iv enc) k = some (c', ret)) :
    (k.submission = none ∧ ret = -1 ∧ c' = (c.returns (-1)).1) ∨
    ∃ s, k.submission = some s ∧ c.Admits s ∧ (c.queue.queue c.nextSlot).valid = false ∧
      ((encryptMessage gcm c.encKey enc iv (c.newTag s).header s.payload).2 = none ∧ ret = -1 ∧
          c' = ((c.giveBack s).returns (-1)).1 ∨
        ∃ ciphertext,
          (encryptMessage gcm c.encKey enc iv (c.newTag s).header s.payload).2 = some ciphertext ∧
          ret = 0 ∧ c' = ((c.enqueue s ciphertext).returns 0).1) := by
  rw [call_eq] at called
  cases submits : k.submission with
  | none =>
      rw [submits] at called
      cases called
      exact Or.inl ⟨rfl, rfl, rfl⟩
  | some s =>
      rw [submits] at called
      dsimp only at called
      split at called
      · rename_i admits
        rw [submit_idle] at called
        split at called
        · cases called
        · rename_i free
          rw [Bool.not_eq_true] at free
          refine Or.inr ⟨s, rfl, admits, free, ?_⟩
          cases encrypts : (encryptMessage gcm c.encKey enc iv (c.newTag s).header s.payload).2 with
          | none =>
              rw [encrypts] at called
              cases called
              exact Or.inl ⟨rfl, rfl, rfl⟩
          | some ciphertext =>
              rw [encrypts] at called
              have result : (c.enqueue s ciphertext).returns 0 = (c', ret) := Option.some.inj called
              exact Or.inr ⟨ciphertext, rfl, (congrArg Prod.snd result).symm,
                (congrArg Prod.fst result).symm⟩
      · cases called

/-- Everything `send_disconnect_message` can do. -/
theorem sendDisconnect_cases {gcm : AesGcm} {iv : Iv} {enc : EncEnv} {c c' : Client}
    (called : c.sendDisconnectMessage gcm (.idle iv enc) = some c') :
    (c.queue.queue c.nextSlot).valid = false ∧
      (c' = (c.giveBack disconnectSubmission).nextCall ∨
        ∃ ciphertext,
          (encryptMessage gcm c.encKey enc iv (c.newTag disconnectSubmission).header
            disconnectSubmission.payload).2 = some ciphertext ∧
          c' = (c.enqueue disconnectSubmission ciphertext).nextCall) := by
  change (c.submit gcm (.idle iv enc) disconnectSubmission 5).map _ = some c' at called
  rw [submit_idle] at called
  split at called
  · cases called
  · rename_i free
    rw [Bool.not_eq_true] at free
    refine ⟨free, ?_⟩
    cases encrypts : (encryptMessage gcm c.encKey enc iv (c.newTag disconnectSubmission).header
        disconnectSubmission.payload).2 with
    | none =>
        rw [encrypts] at called
        cases called
        exact Or.inl rfl
    | some ciphertext =>
        rw [encrypts] at called
        exact Or.inr ⟨ciphertext, rfl, (Option.some.inj called).symm⟩

/-- Everything a call action can do: nothing, where the call does not return, else what
`call_cases` says. -/
theorem step_call_cases (gcm : AesGcm) (c : Client) (k : Call) (iv : Iv) (enc : EncEnv) :
    c.step gcm (.call k iv enc) = c ∨ c.step gcm (.call k iv enc) = (c.returns (-1)).1 ∨
    ∃ s, k.submission = some s ∧ c.Admits s ∧ (c.queue.queue c.nextSlot).valid = false ∧
      (c.step gcm (.call k iv enc) = ((c.giveBack s).returns (-1)).1 ∨
        ∃ ciphertext,
          (encryptMessage gcm c.encKey enc iv (c.newTag s).header s.payload).2 = some ciphertext ∧
          c.step gcm (.call k iv enc) = ((c.enqueue s ciphertext).returns 0).1) := by
  simp only [step]
  cases called : c.call gcm (.idle iv enc) k with
  | none => exact Or.inl rfl
  | some r =>
      right
      rcases call_cases called with
        ⟨-, -, eq⟩ | ⟨s, submits, admits, free, ⟨-, -, eq⟩ | ⟨ciphertext, encrypts, -, eq⟩⟩
      · exact Or.inl eq
      · exact Or.inr ⟨s, submits, admits, free, Or.inl eq⟩
      · exact Or.inr ⟨s, submits, admits, free, Or.inr ⟨ciphertext, encrypts, eq⟩⟩

/-- Everything a disconnect action can do. -/
theorem step_sendDisconnect_cases (gcm : AesGcm) (c : Client) (iv : Iv) (enc : EncEnv) :
    c.step gcm (.sendDisconnect iv enc) = c ∨ (c.queue.queue c.nextSlot).valid = false ∧
      (c.step gcm (.sendDisconnect iv enc) = (c.giveBack disconnectSubmission).nextCall ∨
        ∃ ciphertext,
          (encryptMessage gcm c.encKey enc iv (c.newTag disconnectSubmission).header
            disconnectSubmission.payload).2 = some ciphertext ∧
          c.step gcm (.sendDisconnect iv enc) =
            (c.enqueue disconnectSubmission ciphertext).nextCall) := by
  simp only [step]
  cases called : c.sendDisconnectMessage gcm (.idle iv enc) with
  | none => exact Or.inl rfl
  | some c' => exact Or.inr (sendDisconnect_cases called)

/-- What an action submits. -/
def Action.Submits (s : Submission) : Action → Prop
  | .call k _ _ => k.submission = some s
  | .poll _ => False
  | .sendDisconnect _ _ => s = disconnectSubmission

theorem Action.Submits.op {a : Action} {s : Submission} (submits : a.Submits s) :
    s.op.toNat < 4 := by
  cases a with
  | call k iv enc => exact Nat.lt_succ_of_lt (Call.submission_op submits)
  | poll d => exact submits.elim
  | sendDisconnect iv enc =>
      rw [submits]
      exact (by decide : rdmaErr.toNat < 4)

/-- Everything an action can do that is not a continuation. Up to the counter of calls and the
values returned, it leaves the client, gives the slot of its submission back, or sends it. -/
theorem step_cases (gcm : AesGcm) (c : Client) (a : Action) :
    (∃ d, a = .poll d) ∨
    (∀ d, a ≠ .poll d) ∧
    ∃ c' calls returned, c.step gcm a = { c' with calls := calls, returned := returned } ∧
      c.calls ≤ calls ∧
      (c' = c ∨ ∃ s, a.Submits s ∧ s.keyLen ≤ c.maxKeySize ∧
        (c.queue.queue c.nextSlot).valid = false ∧
        (c' = c.giveBack s ∨ ∃ enc iv ciphertext,
          (encryptMessage gcm c.encKey enc iv (c.newTag s).header s.payload).2 = some ciphertext ∧
          c' = c.enqueue s ciphertext)) := by
  have more := Nat.le_succ c.calls
  cases a with
  | poll d => exact Or.inl ⟨d, rfl⟩
  | call k iv enc =>
      refine Or.inr ⟨fun _ isPoll => Action.noConfusion isPoll, ?_⟩
      rcases c.step_call_cases gcm k iv enc with
        eq | eq | ⟨s, submits, admits, free, eq | ⟨text, encrypts, eq⟩⟩
      · exact ⟨c, _, _, eq, le_rfl, Or.inl rfl⟩
      · exact ⟨c, _, _, eq, more, Or.inl rfl⟩
      · exact ⟨c.giveBack s, _, _, eq, more,
          Or.inr ⟨s, submits, admits.2.1, free, Or.inl rfl⟩⟩
      · exact ⟨c.enqueue s text, _, _, eq, more,
          Or.inr ⟨s, submits, admits.2.1, free, Or.inr ⟨enc, iv, text, encrypts, rfl⟩⟩⟩
  | sendDisconnect iv enc =>
      refine Or.inr ⟨fun _ isPoll => Action.noConfusion isPoll, ?_⟩
      have keyLen : disconnectSubmission.keyLen ≤ c.maxKeySize := Nat.zero_le _
      rcases c.step_sendDisconnect_cases gcm iv enc with eq | ⟨free, eq | ⟨text, encrypts, eq⟩⟩
      · exact ⟨c, _, _, eq, le_rfl, Or.inl rfl⟩
      · exact ⟨c.giveBack disconnectSubmission, _, _, eq, more,
          Or.inr ⟨_, rfl, keyLen, free, Or.inl rfl⟩⟩
      · exact ⟨c.enqueue disconnectSubmission text, _, _, eq, more,
          Or.inr ⟨_, rfl, keyLen, free, Or.inr ⟨enc, iv, text, encrypts, rfl⟩⟩⟩

/-! ## Continuations -/

/-- The header word `w` answers the request of a tag: next sequence number, same ID. -/
def Answers (w : UInt64) (tag : SentMessageTag) : Prop :=
  seqOf w = (seqOf tag.header.seqOp + 1) % seqModulus ∧ idOf w = idOf tag.header.seqOp

instance (w : UInt64) (tag : SentMessageTag) : Decidable (Answers w tag) :=
  inferInstanceAs (Decidable (_ ∧ _))

/-- What the continuation of a request hands to `message_arrived`; nothing where it drops
the response. -/
def verdict (gcm : AesGcm) (encKey : Bytes) (tag : SentMessageTag) (mem : Mem) (d : Delivery) :
    Option (RetVal × UInt64) :=
  let w := d.word gcm encKey
  if d.Decrypts gcm encKey tag.value mem then
    if Answers w tag then
      some (if opOf tag.header.seqOp = opOf w then .opSuccess else .opFailed, w)
    else none
  else some (.invalidResponse, w)

/-- The slot `message_arrived` looks up for a header word. -/
def namedSlot (w : UInt64) : Slot := acceptedIndex (prevSeq w)

/-- The callback of a slot is invoked and the slot given back. -/
def completeSlot (c : Client) (k : Slot) (ret : RetVal) : Client :=
  c.complete (c.queue.invalidateSlot k ret).1 (c.queue.invalidateSlot k ret).2.toList

/-- `message_arrived` on what a continuation hands to it. -/
def settle (c : Client) : Option (RetVal × UInt64) → Client
  | none => c
  | some (ret, w) =>
      if (c.queue.queue (namedSlot w)).valid then c.completeSlot (namedSlot w) ret else c

theorem messageArrived_eq (c : Client) (ret : RetVal) (w : UInt64) :
    c.messageArrived ret w = c.settle (some (ret, w)) := by
  unfold messageArrived settle namedSlot completeSlot
  dsimp only
  rcases c.queue.messageArrived_cases ret w with ⟨free, arrived⟩ | ⟨valid, arrived⟩
  · rw [arrived, if_neg (by rw [free]; exact Bool.false_ne_true)]
    simp [complete]
  · rw [arrived, if_pos valid]

/-- A continuation changes memory and then settles its verdict. On success the memory is
what `decrypt_message` left, with the length stored. -/
theorem decryptContFunc_eq (gcm : AesGcm) (c : Client) (k : Slot) (d : Delivery) :
    ∃ mem, c.decryptContFunc gcm k d =
        { c with mem := mem }.settle (verdict gcm c.encKey (c.queue.queue k) c.mem d) ∧
      ∀ w, verdict gcm c.encKey (c.queue.queue k) c.mem d = some (.opSuccess, w) →
        mem = (storeValueLen { c with mem := (decryptMessage gcm c.encKey d.env d.stack
            ⟨.null, callerPtr (c.queue.queue k).value, 0⟩ c.mem d.response).mem }
          (c.queue.queue k).valueLen (decryptMessage gcm c.encKey d.env d.stack
            ⟨.null, callerPtr (c.queue.queue k).value, 0⟩ c.mem
              d.response).payload.valueLen).mem := by
  have header := decryptMessage_header gcm c.encKey d.env d.stack
    ⟨.null, callerPtr (c.queue.queue k).value, 0⟩ c.mem d.response
  have word : (headerLeft gcm c.encKey d.env d.stack d.response).seqOp = d.word gcm c.encKey := rfl
  unfold decryptContFunc verdict
  dsimp only
  rw [header, word]
  simp only [messageArrived_eq, ne_eq, and_mask_eq_iff, opFromSeqOp_eq_iff, seqOf_nextSeq,
    idOf_nextSeq]
  by_cases decrypts : d.Decrypts gcm c.encKey (c.queue.queue k).value c.mem
  · rw [if_neg ((d.decrypts_iff ..).mp decrypts), if_pos decrypts]
    by_cases answers : Answers (d.word gcm c.encKey) (c.queue.queue k)
    · rw [if_pos answers]
      unfold Answers at answers
      rw [if_neg (not_not_intro answers)]
      by_cases op : opOf (c.queue.queue k).header.seqOp = opOf (d.word gcm c.encKey)
      · rw [if_neg (not_not_intro op), if_pos op]
        refine ⟨_, ?_, fun _ _ => rfl⟩
        unfold storeValueLen
        cases (c.queue.queue k).valueLen with
        | none => rfl
        | some a => rfl
      · rw [if_pos op, if_neg op]
        exact ⟨_, rfl, by rintro w ⟨⟩⟩
    · rw [if_neg answers]
      unfold Answers at answers
      rw [if_pos answers]
      exact ⟨_, rfl, by rintro w ⟨⟩⟩
  · rw [if_pos (not_not.mp (mt (d.decrypts_iff ..).mpr decrypts)), if_neg decrypts]
    exact ⟨_, rfl, by rintro w ⟨⟩⟩

/-- Everything one continuation can do. -/
theorem deliver_cases (gcm : AesGcm) (c : Client) (d : Delivery) :
    (c.pending.find? (·.1 == d.call) = none ∧ c.deliver gcm d = c) ∨
    ∃ p mem, c.pending.find? (·.1 == d.call) = some p ∧
      c.deliver gcm d = { c with pending := c.pending.erase p, mem := mem }.settle
        (verdict gcm c.encKey (c.queue.queue p.2) c.mem d) := by
  unfold deliver
  cases found : c.pending.find? (·.1 == d.call) with
  | none => exact Or.inl ⟨rfl, rfl⟩
  | some p =>
      obtain ⟨mem, eq, -⟩ := decryptContFunc_eq gcm { c with pending := c.pending.erase p } p.2 d
      exact Or.inr ⟨p, mem, rfl, eq⟩

/-- A verdict does nothing, or completes the slot it names. -/
theorem settle_cases (c : Client) (v : Option (RetVal × UInt64)) :
    c.settle v = c ∨
      ∃ ret w, v = some (ret, w) ∧ (c.queue.queue (namedSlot w)).valid = true ∧
        c.settle v = c.completeSlot (namedSlot w) ret := by
  rcases v with _ | ⟨ret, w⟩
  · exact Or.inl rfl
  · dsimp only [settle]
    split
    · rename_i valid
      exact Or.inr ⟨ret, w, rfl, valid, rfl⟩
    · exact Or.inl rfl

/-! ## Calls that run the event loop -/

/-- The continuations a stretch of the event loop runs. -/
def polls (ds : List Delivery) : List Action := ds.map .poll

theorem run_polls (gcm : AesGcm) (c : Client) (ds : List Delivery) :
    run (step gcm) c (polls ds) = ds.foldl (deliver gcm) c :=
  List.foldl_map

theorem foldl_runEventLoopOnce (gcm : AesGcm) (c : Client) (batches : List (List Delivery)) :
    batches.foldl (runEventLoopOnce gcm) c = run (step gcm) c (polls batches.flatten) := by
  rw [run_polls, List.foldl_flatten]
  rfl

/-- The event loop neither reads nor writes the call counter and the returned values. -/
theorem deliver_history (gcm : AesGcm) (c : Client) (n : Nat) (returned : List (Nat × Int))
    (d : Delivery) :
    deliver gcm { c with calls := n, returned := returned } d =
      { c.deliver gcm d with calls := n, returned := returned } := by
  unfold deliver
  dsimp only
  cases c.pending.find? (·.1 == d.call) with
  | none => rfl
  | some p =>
      dsimp only [decryptContFunc]
      split
      · rfl
      · split
        · rfl
        · split
          · rfl
          · unfold storeValueLen
            cases (c.queue.queue p.2).valueLen with
            | none => rfl
            | some a => rfl

theorem run_polls_history (gcm : AesGcm) (c : Client) (n : Nat) (returned : List (Nat × Int))
    (ds : List Delivery) :
    run (step gcm) { c with calls := n, returned := returned } (polls ds) =
      { run (step gcm) c (polls ds) with calls := n, returned := returned } := by
  rw [run_polls, run_polls]
  induction ds generalizing c with
  | nil => rfl
  | cons d ds ih => rw [List.foldl_cons, deliver_history, ih, List.foldl_cons]

theorem run_polls_calls (gcm : AesGcm) (c : Client) (ds : List Delivery) :
    (run (step gcm) c (polls ds)).calls = c.calls ∧
      (run (step gcm) c (polls ds)).returned = c.returned := by
  have same := run_polls_history gcm c c.calls c.returned ds
  constructor
  · exact (congrArg Client.calls same).trans rfl
  · exact (congrArg Client.returned same).trans rfl

theorem run_polls_returns (gcm : AesGcm) (c : Client) (ret : Int) (ds : List Delivery) :
    run (step gcm) (c.returns ret).1 (polls ds) =
      ((run (step gcm) c (polls ds)).returns ret).1 := by
  obtain ⟨calls, returned⟩ := run_polls_calls gcm c ds
  dsimp only [returns, nextCall]
  rw [calls, returned]
  exact run_polls_history gcm c _ _ ds

theorem run_polls_nextCall (gcm : AesGcm) (c : Client) (ds : List Delivery) :
    run (step gcm) c.nextCall (polls ds) = (run (step gcm) c (polls ds)).nextCall := by
  obtain ⟨calls, returned⟩ := run_polls_calls gcm c ds
  have moved := run_polls_history gcm c (c.calls + 1) c.returned ds
  dsimp only [nextCall]
  rw [calls]
  exact moved.trans (by rw [← returned])

/-- Waiting for a slot is running continuations until it is free. -/
theorem waitForSlot_unroll {gcm : AesGcm} {index : Slot} {wait : List (List Delivery)}
    {c c' : Client} (waited : waitForSlot gcm index wait c = some c') :
    ∃ ds, c' = run (step gcm) c (polls ds) ∧ (c'.queue.queue index).valid = false := by
  induction wait generalizing c with
  | nil =>
      unfold waitForSlot at waited
      split at waited
      · cases waited
      · rename_i free
        cases waited
        exact ⟨[], rfl, by simpa using free⟩
  | cons batch wait ih =>
      unfold waitForSlot at waited
      split at waited
      · obtain ⟨ds, rfl, free⟩ := ih waited
        refine ⟨batch ++ ds, ?_, free⟩
        rw [run_polls, run_polls, List.foldl_append]
        rfl
      · rename_i free
        cases waited
        exact ⟨[], rfl, by simpa using free⟩

@[simp] theorem settle_currentSeqOp (c : Client) (v : Option (RetVal × UInt64)) :
    (c.settle v).queue.currentSeqOp = c.queue.currentSeqOp := by
  rcases c.settle_cases v with same | ⟨ret, w, -, -, done⟩
  · rw [same]
  · rw [done]
    rfl

theorem deliver_currentSeqOp (gcm : AesGcm) (c : Client) (d : Delivery) :
    (c.deliver gcm d).queue.currentSeqOp = c.queue.currentSeqOp := by
  rcases c.deliver_cases gcm d with ⟨-, same⟩ | ⟨p, mem, -, ran⟩
  · rw [same]
  · rw [ran, settle_currentSeqOp]

/-- The event loop does not touch what the constructor and `connect` set. -/
theorem deliver_config (gcm : AesGcm) (c : Client) (d : Delivery) :
    (c.deliver gcm d).encKey = c.encKey ∧ (c.deliver gcm d).sessionNr = c.sessionNr ∧
      (c.deliver gcm d).maxKeySize = c.maxKeySize ∧
      (c.deliver gcm d).maxValSize = c.maxValSize := by
  rcases c.deliver_cases gcm d with ⟨-, same⟩ | ⟨p, mem, -, ran⟩
  · rw [same]
    exact ⟨rfl, rfl, rfl, rfl⟩
  · rcases settle_cases { c with pending := c.pending.erase p, mem := mem }
      (verdict gcm c.encKey (c.queue.queue p.2) c.mem d) with same | ⟨ret, w, -, -, done⟩
    · rw [ran, same]
      exact ⟨rfl, rfl, rfl, rfl⟩
    · rw [ran, done]
      exact ⟨rfl, rfl, rfl, rfl⟩

theorem run_polls_admits_iff (gcm : AesGcm) (c : Client) (ds : List Delivery) (s : Submission) :
    (run (step gcm) c (polls ds)).Admits s ↔ c.Admits s := by
  rw [run_polls]
  induction ds generalizing c with
  | nil => exact Iff.rfl
  | cons d ds ih =>
      obtain ⟨-, sessionNr, maxKeySize, maxValSize⟩ := c.deliver_config gcm d
      rw [List.foldl_cons, ih, Admits, Admits, sessionNr, maxKeySize, maxValSize]

theorem run_polls_currentSeqOp (gcm : AesGcm) (c : Client) (ds : List Delivery) :
    (run (step gcm) c (polls ds)).queue.currentSeqOp = c.queue.currentSeqOp := by
  rw [run_polls]
  induction ds generalizing c with
  | nil => rfl
  | cons d ds ih => rw [List.foldl_cons, ih, deliver_currentSeqOp]

/-- A submission waits for its slot, encrypts, and sends or gives the slot back. -/
theorem submit_eq (gcm : AesGcm) (env : CallEnv) (c : Client) (s : Submission)
    (loopIterations : Nat) :
    c.submit gcm env s loopIterations =
      (waitForSlot gcm c.nextSlot env.wait c).map fun ready =>
        match (encryptMessage gcm ready.encKey env.enc env.iv (ready.newTag s).header
            s.payload).2 with
        | none => (ready.giveBack s, -1)
        | some ciphertext =>
            ((env.loop.take loopIterations).foldl (runEventLoopOnce gcm)
              (ready.enqueue s ciphertext), 0) := by
  cases waited : waitForSlot gcm c.nextSlot env.wait c with
  | none =>
      unfold submit prepareNewRequest
      change Option.map _ (Option.map _ (waitForSlot gcm c.nextSlot env.wait c)) = _
      rw [waited]
      rfl
  | some ready =>
      obtain ⟨before, eq, free⟩ := waitForSlot_unroll waited
      have seq : ready.queue.currentSeqOp = c.queue.currentSeqOp := by
        rw [eq, run_polls_currentSeqOp]
      have slot : ready.nextSlot = c.nextSlot := congrArg acceptedIndex seq
      have there : c.submit gcm env s loopIterations =
          ready.submit gcm ⟨[], env.iv, env.enc, env.loop⟩ s loopIterations := by
        unfold submit prepareNewRequest
        change Option.map _ (Option.map _ (waitForSlot gcm c.nextSlot env.wait c)) =
          Option.map _ (Option.map _ (if (ready.queue.queue ready.nextSlot).valid = true then none
            else some ready))
        rw [waited, slot, free, if_neg Bool.false_ne_true, ← seq]
      rw [← slot] at free
      rw [there, submit_free gcm _ _ _ free, Option.map_some]
      split <;> rfl

/-- A submission is a stretch of the event loop, a submission that does not wait, and
another stretch of the event loop. -/
theorem submit_unroll {gcm : AesGcm} {env : CallEnv} {c c' : Client} {s : Submission}
    {loopIterations : Nat} {ret : Int}
    (submitted : c.submit gcm env s loopIterations = some (c', ret)) :
    ∃ before after c₁,
      (run (step gcm) c (polls before)).submit gcm (.idle env.iv env.enc) s loopIterations =
        some (c₁, ret) ∧
      c' = run (step gcm) c₁ (polls after) := by
  rw [submit_eq] at submitted
  obtain ⟨ready, waited, result⟩ := Option.map_eq_some_iff.mp submitted
  obtain ⟨before, eq, free⟩ := waitForSlot_unroll waited
  have slot : ready.nextSlot = c.nextSlot := by
    rw [eq]
    exact congrArg acceptedIndex (run_polls_currentSeqOp gcm c before)
  rw [← slot] at free
  refine ⟨before, ?_⟩
  rw [← eq, submit_idle, free, if_neg Bool.false_ne_true]
  cases encrypts : (encryptMessage gcm ready.encKey env.enc env.iv (ready.newTag s).header
      s.payload).2 with
  | none =>
      rw [encrypts] at result
      cases result
      exact ⟨[], _, rfl, rfl⟩
  | some ciphertext =>
      rw [encrypts] at result
      rw [← (Prod.mk.inj result).1, ← (Prod.mk.inj result).2, foldl_runEventLoopOnce]
      exact ⟨_, _, rfl, rfl⟩

/-- Whatever a call does is a stretch of the event loop, the call without it, and another
stretch of the event loop. -/
theorem call_unroll {gcm : AesGcm} {env : CallEnv} {c c' : Client} {k : Call} {ret : Int}
    (called : c.call gcm env k = some (c', ret)) :
    ∃ before after c₁,
      (run (step gcm) c (polls before)).call gcm (.idle env.iv env.enc) k = some (c₁, ret) ∧
      c' = run (step gcm) c (polls before ++ .call k env.iv env.enc :: polls after) := by
  rw [call_eq] at called
  cases submits : k.submission with
  | none =>
      rw [submits] at called
      have there : c.call gcm (.idle env.iv env.enc) k = some (c', ret) := by
        rw [call_eq, submits]
        exact called
      refine ⟨[], [], c', there, ?_⟩
      change c' = step gcm c (.call k env.iv env.enc)
      simp only [step]
      rw [there]
      rfl
  | some s =>
      rw [submits] at called
      dsimp only at called
      split at called
      · rename_i admits
        obtain ⟨⟨c₂, ret'⟩, submitted, result⟩ := Option.map_eq_some_iff.mp called
        cases result
        obtain ⟨before, after, c₁, idle, rfl⟩ := submit_unroll submitted
        have admits' := (run_polls_admits_iff gcm c before s).mpr admits
        have there : (run (step gcm) c (polls before)).call gcm (.idle env.iv env.enc) k =
            some (c₁.returns ret') := by
          rw [call_eq, submits]
          dsimp only
          rw [if_pos admits', idle]
          rfl
        refine ⟨before, after, _, there, ?_⟩
        rw [run_append, run_cons]
        simp only [step]
        rw [there]
        exact (run_polls_returns gcm c₁ ret' after).symm
      · cases called

end Client

end NetworkStack
