import NetworkStack.QueueFull

/-!
# Callbacks that issue requests

A user's callback runs inside the event loop and may call the client. Here each
delivery comes with the calls its callback makes, which do not wait: they find
their slot free, or are not made. `prepare_new_request` takes its slot before it
waits and the sequence number after it, so a request that was sent in between
puts the two out of step: `slots_in_step_iff` says exactly when a request is
stored in the slot of its own sequence number. Without nested calls the members
are those of `Client` (`call_plain`).
-/

namespace NetworkStack

open Machine

namespace Reentrant

open Client (Call Submission CallEnv disconnectSubmission Answers namedSlot)

/-! ## The client with callbacks that call it -/

/-- A call made by a callback, with `loop_iterations = 0`. -/
structure Nested : Type where
  call : Call
  iv : Iv
  enc : EncEnv

/-- A response, and what the user's callback does if it is invoked for it. -/
structure Arrival : Type where
  delivery : Delivery
  nested : List Nested

/-- The calls of a callback, each made only when its slot is free. -/
def runNested (gcm : AesGcm) (c : Client) (nested : List Nested) : Client :=
  run (Client.step gcm) c (nested.map fun n => .call n.call n.iv n.enc)

/-- eRPC runs one continuation, which may invoke a callback. -/
def arrive (gcm : AesGcm) (c : Client) (a : Arrival) : Client :=
  let c' := c.deliver gcm a.delivery
  if (c'.completions.drop c.completions.length).any fun x => x.callback ≠ .disconnect then
    runNested gcm c' a.nested
  else c'

/-- `run_event_loop_once` -/
def runEventLoopOnce (gcm : AesGcm) (c : Client) (batch : List Arrival) : Client :=
  batch.foldl (arrive gcm) c

/-- The event-loop iterations, the global IV and the library outcomes of one call. -/
structure Env : Type where
  wait : List (List Arrival)
  iv : Iv
  enc : EncEnv
  loop : List (List Arrival)

/-- The wait loop of `prepare_new_request`. -/
def waitForSlot (gcm : AesGcm) (index : Slot) : List (List Arrival) → Client → Option Client
  | [], c => if (c.queue.queue index).valid then none else some c
  | batch :: wait, c =>
      if (c.queue.queue index).valid then
        waitForSlot gcm index wait (runEventLoopOnce gcm c batch)
      else some c

/-- `prepare_new_request`: the slot is the one of the sequence number before the wait, the
header gets the sequence number after it. -/
def prepareNewRequest (gcm : AesGcm) (wait : List (List Arrival)) (c : Client) (op : UInt8)
    (userTag : Nat) (cb : Option Callback) (valueSize : Option Nat) : Option (Client × Slot) :=
  let index := acceptedIndex c.queue.currentSeqOp
  (waitForSlot gcm index wait c).map fun c =>
    let ret := (c.queue.queue index).validate userTag cb valueSize
    let ret := { ret with
      header := { ret.header with seqOp := setOp c.queue.currentSeqOp op }
      call := c.calls }
    ({ c with queue := c.queue.setTag index ret }, index)

/-- `send_message` -/
def sendMessage (gcm : AesGcm) (c : Client) (s : Sent) (loop : List (List Arrival))
    (loopIterations : Nat) : Client :=
  (loop.take loopIterations).foldl (runEventLoopOnce gcm)
    { c with
      queue := c.queue.incSeq
      pending := c.pending ++ [(s.tag.call, s.slot)]
      sent := c.sent ++ [s] }

/-- The common part of `get`, `put`, `del` and `send_disconnect_message`. -/
def submit (gcm : AesGcm) (env : Env) (c : Client) (s : Submission) (loopIterations : Nat) :
    Option (Client × Int) :=
  (prepareNewRequest gcm env.wait c s.op s.userTag s.callback s.valueSize).map fun (c, index) =>
    let tag := c.queue.queue index
    let tag := { tag with
      header := { tag.header with keyLen := UInt64.ofNat s.keyLen }
      value := s.value.getD tag.value }
    match (encryptMessage gcm c.encKey env.enc env.iv tag.header s.payload).2 with
    | none => ({ c with queue := c.queue.setTag index { tag with valid := false } }, -1)
    | some ciphertext =>
        (sendMessage gcm { c with queue := c.queue.setTag index tag }
          ⟨index, tag, s.payload, ciphertext⟩ env.loop loopIterations, 0)

/-- `Client::get`, `put` and `del`: refuse, assert, submit. -/
def call (gcm : AesGcm) (env : Env) (c : Client) (k : Call) : Option (Client × Int) :=
  match k.submission with
  | none => some (c.returns (-1))
  | some s =>
      if c.Admits s then (submit gcm env c s k.loopIterations).map fun r => r.1.returns r.2
      else none

/-- `send_disconnect_message` -/
def sendDisconnectMessage (gcm : AesGcm) (env : Env) (c : Client) : Option Client :=
  (submit gcm env c disconnectSubmission 5).map fun r => r.1.nextCall

/-! ## Without nested calls -/

def Arrival.plain (d : Delivery) : Arrival := ⟨d, []⟩

def Env.plain (env : CallEnv) : Env where
  wait := env.wait.map fun batch => batch.map .plain
  iv := env.iv
  enc := env.enc
  loop := env.loop.map fun batch => batch.map .plain

theorem arrive_plain (gcm : AesGcm) (c : Client) (d : Delivery) :
    arrive gcm c (.plain d) = c.deliver gcm d := by
  unfold arrive
  dsimp only
  split
  · rfl
  · rfl

theorem runEventLoopOnce_plain (gcm : AesGcm) (c : Client) (batch : List Delivery) :
    runEventLoopOnce gcm c (batch.map .plain) = c.runEventLoopOnce gcm batch := by
  unfold runEventLoopOnce Client.runEventLoopOnce
  rw [List.foldl_map]
  simp only [arrive_plain]

theorem waitForSlot_plain (gcm : AesGcm) (index : Slot) (wait : List (List Delivery))
    (c : Client) :
    waitForSlot gcm index (wait.map fun batch => batch.map .plain) c =
      Client.waitForSlot gcm index wait c := by
  induction wait generalizing c with
  | nil => rfl
  | cons batch wait ih =>
      rw [List.map_cons, waitForSlot, Client.waitForSlot, runEventLoopOnce_plain, ih]

theorem submit_plain (gcm : AesGcm) (env : CallEnv) (c : Client) (s : Submission)
    (loopIterations : Nat) :
    submit gcm (.plain env) c s loopIterations = c.submit gcm env s loopIterations := by
  have loop : ∀ c : Client, ((Env.plain env).loop.take loopIterations).foldl
      (runEventLoopOnce gcm) c =
        (env.loop.take loopIterations).foldl (Client.runEventLoopOnce gcm) c := by
    intro c
    unfold Env.plain
    dsimp only
    rw [← List.map_take, List.foldl_map]
    simp only [runEventLoopOnce_plain]
  unfold submit Client.submit prepareNewRequest Client.prepareNewRequest sendMessage
    Client.sendMessage
  simp only [loop]
  change Option.map _ (Option.map _ (waitForSlot gcm _ (env.wait.map _) c)) = _
  rw [waitForSlot_plain]
  rfl

/-- The calls of the client are those without nested calls. -/
theorem call_plain (gcm : AesGcm) (env : CallEnv) (c : Client) (k : Call) :
    call gcm (.plain env) c k = c.call gcm env k := by
  unfold call
  rw [Client.call_eq]
  cases k.submission with
  | none => rfl
  | some s =>
      dsimp only
      rw [submit_plain]

theorem sendDisconnectMessage_plain (gcm : AesGcm) (env : CallEnv) (c : Client) :
    sendDisconnectMessage gcm (.plain env) c = c.sendDisconnectMessage gcm env := by
  unfold sendDisconnectMessage
  rw [submit_plain]
  rfl

/-! ## Sequence numbers and requests advance together -/

/-- The requests `new` were sent, each from the slot of its own sequence number, and the
current sequence number is past them. -/
structure Advances (c c' : Client) (new : List Sent) : Prop where
  sent : c'.sent = c.sent ++ new
  seq : seqOf c'.queue.currentSeqOp =
    (seqOf c.queue.currentSeqOp + 2 * new.length) % seqModulus
  slot : ∀ s ∈ new, s.slot = acceptedIndex s.tag.header.seqOp
  valid : ∀ s ∈ new, s.tag.valid = true

section Advances

variable {a b c c' : Client} {new new' : List Sent} {gcm : AesGcm}

theorem Advances.of_same (sent : c'.sent = c.sent)
    (current : c'.queue.currentSeqOp = c.queue.currentSeqOp) : Advances c c' [] := by
  refine ⟨by rw [sent, List.append_nil], ?_, by simp, by simp⟩
  rw [current]
  exact (Nat.mod_eq_of_lt (seqOf_lt _)).symm

theorem Advances.refl (c : Client) : Advances c c [] := .of_same rfl rfl

theorem Advances.trans (first : Advances a b new) (second : Advances b c new') :
    Advances a c (new ++ new') := by
  refine ⟨by rw [second.sent, first.sent, List.append_assoc], ?_, ?_, ?_⟩
  · rw [second.seq, first.seq, List.length_append]
    unfold seqModulus
    omega
  · intro s member
    rcases List.mem_append.mp member with old | young
    · exact first.slot s old
    · exact second.slot s young
  · intro s member
    rcases List.mem_append.mp member with old | young
    · exact first.valid s old
    · exact second.valid s young

/-- A request sent without waiting is in the slot of its own sequence number. -/
theorem advances_enqueue (c : Client) {s : Submission} (op : s.op.toNat < 4)
    (ciphertext : Bytes) :
    Advances c (c.enqueue s ciphertext) [⟨c.nextSlot, c.newTag s, s.payload, ciphertext⟩] := by
  refine ⟨rfl, ?_, ?_, ?_⟩
  · change seqOf (PendingRequestQueue.incSeq _).currentSeqOp = _
    rw [PendingRequestQueue.incSeq_currentSeqOp, PendingRequestQueue.setTag_currentSeqOp,
      seqOf_nextSeq, seqOf_nextSeq, List.length_singleton]
    unfold seqModulus
    omega
  · intro t member
    rw [List.mem_singleton.mp member]
    exact (c.acceptedIndex_newTag op).symm
  · intro t member
    rw [List.mem_singleton.mp member]
    rfl

theorem advances_action (gcm : AesGcm) (c : Client) (a : Client.Action) :
    ∃ new, Advances c (c.step gcm a) new := by
  rcases c.action_cases gcm a with quiet | ⟨s, ciphertext, sends⟩
  · exact ⟨[], .of_same quiet.sent quiet.current⟩
  · have enqueued := advances_enqueue c sends.op ciphertext
    refine ⟨_, ⟨sends.sent.trans enqueued.sent, ?_, enqueued.slot, enqueued.valid⟩⟩
    rw [sends.queue]
    exact enqueued.seq

/-- What holds of each element's step holds of the whole fold. -/
theorem advances_foldl {α : Type} {f : Client → α → Client}
    (each : ∀ c x, ∃ new, Advances c (f c x) new) (xs : List α) (c : Client) :
    ∃ new, Advances c (xs.foldl f c) new := by
  induction xs generalizing c with
  | nil => exact ⟨[], .refl c⟩
  | cons x xs ih =>
      rcases each c x with ⟨new, first⟩
      rcases ih (f c x) with ⟨new', rest⟩
      exact ⟨new ++ new', first.trans rest⟩

theorem advances_arrive (gcm : AesGcm) (c : Client) (a : Arrival) :
    ∃ new, Advances c (arrive gcm c a) new := by
  rcases advances_action gcm c (.poll a.delivery) with ⟨new, delivered⟩
  unfold arrive
  dsimp only
  split
  · obtain ⟨new', nested⟩ := advances_foldl (advances_action gcm)
      (a.nested.map fun n => .call n.call n.iv n.enc) (c.deliver gcm a.delivery)
    exact ⟨new ++ new', delivered.trans nested⟩
  · exact ⟨new, delivered⟩

theorem advances_runEventLoopOnce (gcm : AesGcm) (c : Client) (batch : List Arrival) :
    ∃ new, Advances c (runEventLoopOnce gcm c batch) new :=
  advances_foldl (advances_arrive gcm) batch c

theorem advances_waitForSlot {index : Slot} {wait : List (List Arrival)} {ready : Client}
    (waited : waitForSlot gcm index wait c = some ready) : ∃ new, Advances c ready new := by
  induction wait generalizing c with
  | nil =>
      unfold waitForSlot at waited
      split at waited
      · cases waited
      · cases waited
        exact ⟨[], .refl _⟩
  | cons batch wait ih =>
      unfold waitForSlot at waited
      split at waited
      · rcases advances_runEventLoopOnce gcm c batch with ⟨new, first⟩
        rcases ih waited with ⟨new', rest⟩
        exact ⟨new ++ new', first.trans rest⟩
      · cases waited
        exact ⟨[], .refl _⟩

end Advances

/-! ## A call that waits -/

/-- The tag filled in slot `index`, with the current sequence number. -/
def tagAt (c : Client) (index : Slot) (s : Submission) : SentMessageTag :=
  { c.newTag s with value := s.value.getD (c.queue.queue index).value }

/-- The request is sent from slot `index`. -/
def enqueueAt (c : Client) (index : Slot) (s : Submission) (ciphertext : Bytes) : Client :=
  { c with
    queue := (c.queue.setTag index (tagAt c index s)).incSeq
    pending := c.pending ++ [(c.calls, index)]
    sent := c.sent ++ [⟨index, tagAt c index s, s.payload, ciphertext⟩] }

/-- A submission takes the slot before it waits and everything else after. -/
theorem submit_eq (gcm : AesGcm) (env : Env) (c : Client) (s : Submission)
    (loopIterations : Nat) :
    submit gcm env c s loopIterations =
      (waitForSlot gcm c.nextSlot env.wait c).map fun ready =>
        match (encryptMessage gcm ready.encKey env.enc env.iv (ready.newTag s).header
            s.payload).2 with
        | none => ({ ready with
            queue := ready.queue.setTag c.nextSlot
              { tagAt ready c.nextSlot s with valid := false } }, -1)
        | some ciphertext => ((env.loop.take loopIterations).foldl (runEventLoopOnce gcm)
            (enqueueAt ready c.nextSlot s ciphertext), 0) := by
  unfold submit prepareNewRequest
  change Option.map _ (Option.map _ (waitForSlot gcm c.nextSlot env.wait c)) = _
  rw [Option.map_map]
  congr 1
  funext ready
  simp only [Function.comp_apply, PendingRequestQueue.setTag_queue_self, Client.setTag_setTag]
  change (match (encryptMessage gcm ready.encKey env.enc env.iv (ready.newTag s).header
      s.payload).2 with
    | none => _
    | some ciphertext => _) = _
  cases (encryptMessage gcm ready.encKey env.enc env.iv (ready.newTag s).header s.payload).2 with
  | none => rfl
  | some ciphertext => rfl

/-- Every request was sent from the slot of its own sequence number. -/
def Slots (c : Client) : Prop := ∀ s ∈ c.sent, s.slot = acceptedIndex s.tag.header.seqOp

/-- Every request was sent with a valid tag. -/
def Valid (c : Client) : Prop := ∀ s ∈ c.sent, s.tag.valid = true

/-- If the call sends its request, the callbacks invoked while it waits send a multiple of
`MAX_ACCEPTED_RESPONSES` requests. -/
def InStep (gcm : AesGcm) (env : Env) (c : Client) (s : Submission) : Prop :=
  ∀ ready, waitForSlot gcm c.nextSlot env.wait c = some ready →
    (encryptMessage gcm ready.encKey env.enc env.iv (ready.newTag s).header
      s.payload).2.isSome = true →
    (ready.sent.length - c.sent.length) % maxAcceptedResponses = 0

section Submit

variable {gcm : AesGcm} {c c' : Client} {new : List Sent}

theorem Advances.slots_iff (advances : Advances c c' new) : Slots c' ↔ Slots c := by
  unfold Slots
  rw [advances.sent]
  constructor
  · intro all s member
    exact all s (List.mem_append_left new member)
  · intro old s member
    rcases List.mem_append.mp member with before | young
    · exact old s before
    · exact advances.slot s young

theorem Advances.valid_of (advances : Advances c c' new) (old : Valid c) : Valid c' := by
  intro s member
  rw [advances.sent] at member
  rcases List.mem_append.mp member with before | young
  · exact old s before
  · exact advances.valid s young

/-- The slot was taken `new.length` requests ago. -/
theorem Advances.slot_iff (advances : Advances c c' new) {s : Submission}
    (op : s.op.toNat < 4) (index : Slot) :
    c.nextSlot = acceptedIndex (tagAt c' index s).header.seqOp ↔
      (c'.sent.length - c.sent.length) % maxAcceptedResponses = 0 := by
  have count : c'.sent.length - c.sent.length = new.length := by
    rw [advances.sent, List.length_append]
    omega
  have number : seqOf (tagAt c' index s).header.seqOp =
      (seqOf c.queue.currentSeqOp + 2 * new.length) % seqModulus :=
    (setOp_fields c'.queue.currentSeqOp op).1.trans advances.seq
  rw [count, Fin.ext_iff, Client.val_acceptedIndex_of_seq number]
  unfold Client.nextSlot
  rw [val_acceptedIndex]
  unfold maxAcceptedResponses maxPendingRequests
  omega

theorem slots_enqueueAt_iff (c : Client) (index : Slot) (s : Submission) (ciphertext : Bytes) :
    Slots (enqueueAt c index s ciphertext) ↔
      Slots c ∧ index = acceptedIndex (tagAt c index s).header.seqOp := by
  constructor
  · intro all
    exact ⟨fun t member => all t (List.mem_append_left _ member),
      all _ (List.mem_append_right _ (List.mem_singleton_self _))⟩
  · intro both t member
    rcases List.mem_append.mp member with old | young
    · exact both.1 t old
    · rw [List.mem_singleton.mp young]
      exact both.2

theorem valid_enqueueAt (old : Valid c) (index : Slot) (s : Submission) (ciphertext : Bytes) :
    Valid (enqueueAt c index s ciphertext) := by
  intro t member
  rcases List.mem_append.mp member with before | young
  · exact old t before
  · rw [List.mem_singleton.mp young]
    rfl

/-- Everything a submission can do that returns. -/
theorem submit_cases {env : Env} {s : Submission} {loopIterations : Nat} {ret : Int}
    (submitted : submit gcm env c s loopIterations = some (c', ret)) :
    ∃ ready new, waitForSlot gcm c.nextSlot env.wait c = some ready ∧ Advances c ready new ∧
      ((encryptMessage gcm ready.encKey env.enc env.iv (ready.newTag s).header s.payload).2 =
          none ∧ c'.sent = ready.sent ∨
        ∃ ciphertext new',
          (encryptMessage gcm ready.encKey env.enc env.iv (ready.newTag s).header s.payload).2 =
            some ciphertext ∧ Advances (enqueueAt ready c.nextSlot s ciphertext) c' new') := by
  rw [submit_eq] at submitted
  rcases Option.map_eq_some_iff.mp submitted with ⟨ready, waited, result⟩
  rcases advances_waitForSlot waited with ⟨new, advances⟩
  refine ⟨ready, new, waited, advances, ?_⟩
  cases encrypts : (encryptMessage gcm ready.encKey env.enc env.iv (ready.newTag s).header
      s.payload).2 with
  | none =>
      rw [encrypts] at result
      cases result
      exact Or.inl ⟨rfl, rfl⟩
  | some ciphertext =>
      rw [encrypts] at result
      obtain ⟨new', looped⟩ := advances_foldl (advances_runEventLoopOnce gcm)
        (env.loop.take loopIterations) (enqueueAt ready c.nextSlot s ciphertext)
      rw [← (Prod.mk.inj result).1]
      exact Or.inr ⟨ciphertext, new', rfl, looped⟩

theorem submit_valid {env : Env} {s : Submission} {loopIterations : Nat} {ret : Int}
    (valid : Valid c) (submitted : submit gcm env c s loopIterations = some (c', ret)) :
    Valid c' := by
  obtain ⟨ready, new, -, advances, ⟨-, sent⟩ | ⟨ciphertext, new', -, looped⟩⟩ :=
    submit_cases submitted
  · unfold Valid
    rw [sent]
    exact advances.valid_of valid
  · exact looped.valid_of (valid_enqueueAt (advances.valid_of valid) _ _ _)

/-- A submission that returns keeps the slots in step exactly under the condition. -/
theorem submit_slots_iff {env : Env} {s : Submission} {loopIterations : Nat} {ret : Int}
    (op : s.op.toNat < 4) (slots : Slots c)
    (submitted : submit gcm env c s loopIterations = some (c', ret)) :
    Slots c' ↔ InStep gcm env c s := by
  rcases submit_cases submitted with ⟨ready, new, waited, advances, outcome⟩
  have only : InStep gcm env c s ↔
      ((encryptMessage gcm ready.encKey env.enc env.iv (ready.newTag s).header
          s.payload).2.isSome = true →
        (ready.sent.length - c.sent.length) % maxAcceptedResponses = 0) := by
    unfold InStep
    rw [waited]
    simp
  have before := advances.slots_iff.mpr slots
  rcases outcome with ⟨fails, sent⟩ | ⟨ciphertext, new', encrypts, looped⟩
  · rw [only, fails]
    unfold Slots
    rw [sent]
    exact iff_of_true before (by simp)
  · rw [only, encrypts, looped.slots_iff, slots_enqueueAt_iff, advances.slot_iff op]
    exact ⟨fun both _ => both.2, fun zero => ⟨before, zero rfl⟩⟩

/-- A call that waits for ever sends nothing. -/
theorem inStep_of_blocked {env : Env} {s : Submission} {loopIterations : Nat}
    (blocked : submit gcm env c s loopIterations = none) : InStep gcm env c s := by
  intro ready waited
  rw [submit_eq, waited] at blocked
  cases blocked

end Submit

/-! ## Runs -/

inductive Action : Type
  | call (k : Call) (env : Env)
  | eventLoop (batch : List Arrival)
  | sendDisconnect (env : Env)

/-- One action. A call that does not return leaves the client as it is. -/
def step (gcm : AesGcm) (c : Client) : Action → Client
  | .call k env => ((call gcm env c k).map Prod.fst).getD c
  | .eventLoop batch => runEventLoopOnce gcm c batch
  | .sendDisconnect env => (sendDisconnectMessage gcm env c).getD c

/-- Every request was sent from the slot of its own sequence number, and while it is there,
the response to it completes that slot. -/
structure Placed (gcm : AesGcm) (c : Client) : Prop where
  slot : Slots c
  completes : ∀ s ∈ c.sent, ∀ d : Delivery,
    c.pending.find? (·.1 == d.call) = some (s.tag.call, s.slot) → c.queue.queue s.slot = s.tag →
    d.Decrypts gcm c.encKey s.tag.value c.mem → Answers (d.word gcm c.encKey) s.tag →
    c.completedSlot gcm d = some s.slot

/-- An action without nested calls. -/
def Action.plain : Client.Action → Action
  | .call k iv enc => .call k (.plain (.idle iv enc))
  | .poll d => .eventLoop [.plain d]
  | .sendDisconnect iv enc => .sendDisconnect (.plain (.idle iv enc))

/-- Without nested calls the runs are those of `Client`. -/
theorem run_plain (gcm : AesGcm) (c : Client) (acts : List Client.Action) :
    run (step gcm) c (acts.map .plain) = run (Client.step gcm) c acts := by
  have each : ∀ c a, step gcm c (.plain a) = c.step gcm a := by
    intro c a
    cases a with
    | call k iv enc => simp only [Action.plain, step, Client.step, call_plain]
    | poll d => exact arrive_plain gcm c d
    | sendDisconnect iv enc =>
        simp only [Action.plain, step, Client.step, sendDisconnectMessage_plain]
  unfold run
  rw [List.foldl_map]
  simp only [each]

/-- The condition on one action. -/
def Undisturbed (gcm : AesGcm) (c : Client) : Action → Prop
  | .call k env => ∀ s, k.submission = some s → c.Admits s → InStep gcm env c s
  | .eventLoop _ => True
  | .sendDisconnect env => InStep gcm env c disconnectSubmission

section Runs

variable {gcm : AesGcm} {c : Client}

/-- Where the slots are in step, a response completes the request it answers. -/
theorem placed_iff (valid : Valid c) : Placed gcm c ↔ Slots c := by
  refine ⟨Placed.slot, fun slots => ⟨slots, ?_⟩⟩
  intro s member d found inSlot decrypts answers
  have named : namedSlot (d.word gcm c.encKey) = s.slot := by
    rw [answers.namedSlot_eq, slots s member]
  unfold Client.completedSlot Client.verdict
  rw [found, Option.bind_some]
  dsimp only
  rw [inSlot, if_pos decrypts, if_pos answers, Option.bind_some]
  dsimp only
  rw [named, inSlot, valid s member, if_pos rfl]

theorem step_valid (valid : Valid c) (a : Action) : Valid (step gcm c a) := by
  cases a with
  | eventLoop batch =>
      rcases advances_runEventLoopOnce gcm c batch with ⟨new, advances⟩
      exact advances.valid_of valid
  | call k env =>
      simp only [step]
      cases called : call gcm env c k with
      | none => exact valid
      | some r =>
          unfold call at called
          split at called
          · cases called
            exact valid
          · split at called
            · rcases Option.map_eq_some_iff.mp called with ⟨r', submitted, rfl⟩
              have kept := submit_valid valid submitted
              exact kept
            · cases called
  | sendDisconnect env =>
      simp only [step, sendDisconnectMessage]
      cases submitted : submit gcm env c disconnectSubmission 5 with
      | none => exact valid
      | some r =>
          have kept := submit_valid valid submitted
          exact kept

/-- One action keeps the slots in step exactly under the condition. -/
theorem step_slots_iff (slots : Slots c) (a : Action) :
    Slots (step gcm c a) ↔ Undisturbed gcm c a := by
  cases a with
  | eventLoop batch =>
      rcases advances_runEventLoopOnce gcm c batch with ⟨new, advances⟩
      exact iff_of_true (advances.slots_iff.mpr slots) True.intro
  | call k env =>
      simp only [step, call, Undisturbed]
      cases submits : k.submission with
      | none => exact iff_of_true slots (by simp)
      | some s =>
          have op := Client.Call.submission_op submits
          by_cases admits : c.Admits s
          · have only : (∀ s', some s = some s' → c.Admits s' → InStep gcm env c s') ↔
                InStep gcm env c s := by simp [admits]
            rw [only]
            dsimp only
            rw [if_pos admits]
            cases submitted : submit gcm env c s k.loopIterations with
            | none => exact iff_of_true slots (inStep_of_blocked submitted)
            | some r =>
                have kept := submit_slots_iff (by omega) slots submitted
                exact kept
          · dsimp only
            rw [if_neg admits]
            refine iff_of_true slots ?_
            rintro _ ⟨⟩ admitted
            exact (admits admitted).elim
  | sendDisconnect env =>
      simp only [step, sendDisconnectMessage, Undisturbed]
      cases submitted : submit gcm env c disconnectSubmission 5 with
      | none => exact iff_of_true slots (inStep_of_blocked submitted)
      | some r =>
          have kept := submit_slots_iff (by decide) slots submitted
          exact kept

end Runs

/-- In every state of a run, each request is in the slot of its own sequence number and is
completed by its own response, if and only if no call of the run sends its request after
callbacks sent others while it waited (a multiple of `MAX_ACCEPTED_RESPONSES` apart). -/
theorem slots_in_step_iff (gcm : AesGcm) (setup : Client.Setup) (acts : List Action) :
    (∀ before, before <+: acts → Placed gcm (run (step gcm) setup.client before)) ↔
      Along (step gcm) (Undisturbed gcm) setup.client acts := by
  have start : Valid setup.client := by
    intro s member
    cases member
  refine forall_prefix_iff_along (I := Valid) (fun _ a valid => step_valid valid a) ?_ start
    ((placed_iff start).mpr ?_) acts
  · intro c a valid placed
    rw [placed_iff (step_valid valid a)]
    exact step_slots_iff placed.slot a
  · intro s member
    cases member

/-! ## A request out of step -/

section Overtaken

variable {id : UInt8} {s₀ : Nat} {gcm : AesGcm} {c : Client}

/-- The word that answers the next request. -/
theorem answers_newTag {s : Submission} (op : s.op.toNat < 4) {w : UInt64}
    (seq : seqOf w = (seqOf c.queue.currentSeqOp + 1) % seqModulus)
    (idEq : idOf w = idOf c.queue.currentSeqOp) : Answers w (c.newTag s) := by
  rcases setOp_fields c.queue.currentSeqOp op with ⟨newSeq, newId, -⟩
  unfold Answers Client.newTag
  dsimp only
  rw [newSeq, newId]
  exact ⟨seq, idEq⟩

/-- The response to the request that was sent last completes it, decrypted or not. -/
theorem completedSlot_enqueue (inv : c.Inv id s₀) {d : Delivery} {s : Submission}
    (op : s.op.toNat < 4) (own : d.call = c.calls)
    (answers : Answers (d.word gcm c.encKey) (c.newTag s)) (ciphertext : Bytes) :
    ((c.enqueue s ciphertext).returns 0).1.completedSlot gcm d = some c.nextSlot := by
  have none_ : c.pending.find? (·.1 == d.call) = none := by
    rw [List.find?_eq_none]
    intro p member same
    rcases inv.outstanding.sent p member with ⟨t, sent, call, -⟩
    have lt := inv.numbered.call t sent
    have eq : p.1 = d.call := eq_of_beq same
    omega
  have found : (c.pending ++ [(c.calls, c.nextSlot)]).find? (·.1 == d.call) =
      some (c.calls, c.nextSlot) := by
    rw [List.find?_append, none_, own]
    simp
  have tag : ((c.enqueue s ciphertext).returns 0).1.queue.queue c.nextSlot = c.newTag s :=
    c.enqueue_queue_self s ciphertext
  have named : namedSlot (d.word gcm c.encKey) = c.nextSlot := by
    rw [answers.namedSlot_eq, c.acceptedIndex_newTag op]
  unfold Client.completedSlot
  change ((c.pending ++ [(c.calls, c.nextSlot)]).find? _).bind _ = _
  rw [found, Option.bind_some, tag]
  unfold Client.verdict
  change Option.bind (if d.Decrypts gcm c.encKey _ c.mem then if Answers (d.word gcm c.encKey) _
    then _ else _ else _) _ = _
  rw [if_pos answers]
  split
  all_goals
    rw [Option.bind_some]
    change (if (((c.enqueue s ciphertext).returns 0).1.queue.queue
      (namedSlot (d.word gcm c.encKey))).valid = true then
        some (namedSlot (d.word gcm c.encKey)) else none) = _
    rw [named, tag]
    exact if_pos rfl

/-- A response completes the request in the slot of the current sequence number, and the
callback sends a request from the slot just freed. -/
theorem arrive_sends {d : Delivery} {n : Nested} {s : Submission} {f : Nat}
    (completes : c.completedSlot gcm d = some c.nextSlot)
    (user : (c.queue.queue c.nextSlot).callback = some (.user f))
    (submits : n.call.submission = some s) (admits : c.Admits s) (ok : n.enc.Ok) :
    ∃ ciphertext, arrive gcm c ⟨d, [n]⟩ =
      (((c.deliver gcm d).enqueue s ciphertext).returns 0).1 := by
  rcases Client.deliver_of_completedSlot completes with ⟨p, mem, ret, delivered⟩
  rcases c.deliver_config gcm d with ⟨-, sessionNr, maxKeySize, maxValSize⟩
  have next : (c.deliver gcm d).nextSlot = c.nextSlot :=
    congrArg acceptedIndex (Client.deliver_currentSeqOp gcm c d)
  have freed : ((c.deliver gcm d).queue.queue (c.deliver gcm d).nextSlot).valid = false := by
    rw [next, delivered, Client.completeSlot_queue_self]
  have invoked : (c.deliver gcm d).completions = c.completions ++
      [⟨(c.queue.queue c.nextSlot).call, .user f, ret, (c.queue.queue c.nextSlot).userTag⟩] := by
    rw [delivered]
    change c.completions ++ ((c.queue.queue c.nextSlot).invalidate ret).2.toList = _
    unfold SentMessageTag.invalidate
    rw [user]
    rfl
  have called : arrive gcm c ⟨d, [n]⟩ = (c.deliver gcm d).step gcm (.call n.call n.iv n.enc) := by
    unfold arrive
    dsimp only
    rw [invoked, List.drop_left]
    rfl
  have admits' : (c.deliver gcm d).Admits s := by
    unfold Client.Admits
    rw [sessionNr, maxKeySize, maxValSize]
    exact admits
  obtain ⟨ciphertext, encrypts⟩ := encryptMessage_succeeds ok gcm (c.deliver gcm d).encKey n.iv
    ((c.deliver gcm d).newTag s).header s.payload
  exact ⟨ciphertext, called.trans (Client.step_call_of_encrypts submits admits' freed encrypts)⟩

/-- The callback of the request that a call waits for sends a request from the same slot,
which is answered: the call goes on with the slot of the sequence number before. -/
theorem waitForSlot_overtaken (inv : c.Inv id s₀) {d d' : Delivery} {n : Nested}
    {s : Submission} {f : Nat} (full : c.queueFull = true)
    (completes : c.completedSlot gcm d = some c.nextSlot)
    (user : (c.queue.queue c.nextSlot).callback = some (.user f))
    (submits : n.call.submission = some s) (admits : c.Admits s) (ok : n.enc.Ok)
    (own : d'.call = c.calls) (answers : Answers (d'.word gcm c.encKey) (c.newTag s)) :
    ∃ ready, waitForSlot gcm c.nextSlot [[⟨d, [n]⟩], [.plain d']] c = some ready ∧
      ready.sent.length = c.sent.length + 1 := by
  rcases arrive_sends completes user submits admits ok with ⟨ciphertext, first⟩
  have current := Client.deliver_currentSeqOp gcm c d
  have history := c.deliver_sent gcm d
  have op := Client.Call.submission_op submits
  have next : (c.deliver gcm d).nextSlot = c.nextSlot := congrArg acceptedIndex current
  have answers' : Answers (d'.word gcm (c.deliver gcm d).encKey) ((c.deliver gcm d).newTag s) := by
    unfold Answers Client.newTag at answers ⊢
    rw [(c.deliver_config gcm d).1, current]
    exact answers
  have again := completedSlot_enqueue (inv.deliver gcm d) (by omega) (own.trans history.2.symm)
    answers' ciphertext
  rw [next] at again
  have refilled : (((((c.deliver gcm d).enqueue s ciphertext).returns 0).1).queue.queue
      c.nextSlot).valid = true := by
    rw [← next]
    exact congrArg SentMessageTag.valid ((c.deliver gcm d).enqueue_queue_self s ciphertext)
  have sent : (((c.deliver gcm d).enqueue s ciphertext).returns 0).1.sent.length =
      c.sent.length + 1 := by
    change ((c.deliver gcm d).sent ++ [_]).length = _
    rw [history.1, List.length_append, List.length_singleton]
  generalize (((c.deliver gcm d).enqueue s ciphertext).returns 0).1 = c₂
    at first again refilled sent
  have free : ((c₂.deliver gcm d').queue.queue c.nextSlot).valid = false := by
    rw [← Bool.not_eq_true, Client.deliver_valid_iff]
    exact fun both => both.2 again
  refine ⟨c₂.deliver gcm d', ?_, by rw [(c₂.deliver_sent gcm d').1, sent]⟩
  have waited : (c.queue.queue c.nextSlot).valid = true := full
  unfold waitForSlot
  rw [if_pos waited]
  change waitForSlot gcm c.nextSlot [[.plain d']] (arrive gcm c ⟨d, [n]⟩) = _
  rw [first]
  unfold waitForSlot
  rw [if_pos refilled]
  change waitForSlot gcm c.nextSlot [] (arrive gcm c₂ (.plain d')) = _
  rw [arrive_plain]
  unfold waitForSlot
  rw [free, if_neg Bool.false_ne_true]

end Overtaken

end Reentrant

/-! ## A nested put -/

namespace Sample

/-- A put that waits in a full ring: the put with sequence number 10 is answered, its callback
sends a put with sequence number 2058, and that one is answered. -/
def overtakenPut : Reentrant.Action :=
  .call (putCall 45)
    { wait := [[⟨arrives 0 (putResponse 10), [⟨putCall 46, .ofNat 4, enc⟩]⟩],
        [.plain (arrives 1024 (putResponse 2058))]]
      iv := .ofNat 5
      enc := enc
      loop := [] }

/-- The put goes on after one request was sent while it waited. -/
theorem overtakenPut_waits :
    ∃ ready, Reentrant.waitForSlot .checksum filled.nextSlot
        [[⟨arrives 0 (putResponse 10), [⟨putCall 46, .ofNat 4, enc⟩]⟩],
          [.plain (arrives 1024 (putResponse 2058))]] filled = some ready ∧
      ready.sent.length = filled.sent.length + 1 := by
  rcases two_filled with ⟨filling, ringed⟩
  have first := filling.slots (slot 10) (by decide +kernel)
  have length : two.sent.length = 2 := by decide +kernel
  have calls : two.calls = 2 := by decide +kernel
  have encKey : two.encKey = List.replicate 16 5 := by decide +kernel
  have current := ringed.inv.numbered.current
  have currentId := ringed.inv.numbered.currentId
  rw [filling.count, length] at current
  refine Reentrant.waitForSlot_overtaken (f := 3) ringed.inv ?_ ?_ ?_ rfl
    ((filling.admits _).mpr (by decide +kernel)) (EncEnv.ok_ok _)
    (by rw [filling.calls, calls]; rfl) ?_
  · rw [Client.queueFull_eq, nextSlot_filled, first]
    decide +kernel
  · rw [nextSlot_filled]
    exact filling.completedSlot (p := (0, slot 10)) (by decide +kernel) (by decide +kernel)
      (by decide +kernel)
  · rw [nextSlot_filled, first]
    decide +kernel
  · rw [filling.encKey, encKey]
    apply Reentrant.answers_newTag
    · decide
    · rw [current]
      decide +kernel
    · rw [currentId]
      decide +kernel

end Sample

/-- The put that was overtaken is stored in the slot of sequence number 10 and carries
sequence number 2060, whose slot is another one. -/
theorem overtaken_put_out_of_step :
    ¬ Reentrant.Placed .checksum (run (Reentrant.step .checksum) (Sample.setup 10).client
      (Sample.fill.map .plain ++ [Sample.overtakenPut])) := by
  rcases Sample.two_filled with ⟨-, ringed⟩
  rcases Sample.overtakenPut_waits with ⟨ready, waited, count⟩
  rw [run_snoc, Reentrant.run_plain]
  change ¬ Reentrant.Placed .checksum (Reentrant.step .checksum Sample.filled Sample.overtakenPut)
  intro placed
  have undisturbed := (Reentrant.step_slots_iff ringed.inv.numbered.slot _).mp placed.slot
  have zero := undisturbed _ rfl ((Sample.two_filled.1.admits _).mpr (by decide +kernel)) ready
    waited (Option.isSome_iff_exists.mpr (encryptMessage_succeeds (EncEnv.ok_ok _) _ _ _ _ _))
  rw [count, Nat.add_sub_cancel_left] at zero
  cases zero

end NetworkStack
