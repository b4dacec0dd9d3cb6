import NetworkStack.Process

/-!
# The ring of a client

What an operation of a client does to the ring is a sequence of moves: an action
that does not wait, the timeout sweep, or a change of the connection. A move
either leaves the requests and the sequence number, keeping or invalidating each
pending slot, or it fills the free slot of the current sequence number and
advances it by two (`move_cases`). From this follow the ring invariant, in every
state an operation passes through (`ring_invariant`), and that the sweep finds
the pending requests in the order they were issued (`sweep_in_order`).
-/

namespace NetworkStack

open Machine

namespace Client

/-! ## Moves -/

/-- `invalidate_all_requests`, called by the client. -/
def sweep (c : Client) : Client :=
  c.complete c.queue.invalidateAllRequests.1 c.queue.invalidateAllRequests.2

/-- What an operation is made of. -/
inductive Move : Type
  | act (a : Action)
  | sweep
  | set (encKey : Bytes) (sessionNr : Int) (connected : Bool)

def move (gcm : AesGcm) (c : Client) : Move → Client
  | .act a => c.step gcm a
  | .sweep => c.sweep
  | .set encKey sessionNr connected =>
      { c with encKey := encKey, sessionNr := sessionNr, connected := connected }

theorem move_sweep (gcm : AesGcm) (c : Client) : c.move gcm .sweep = c.sweep := rfl

/-- The client gets from `c` to `c'` by moves. -/
def Moves (gcm : AesGcm) (c c' : Client) : Prop :=
  ∃ moves, c' = run (move gcm) c moves

section Moves

variable {gcm : AesGcm} {a b c : Client}

theorem Moves.refl (c : Client) : Moves gcm c c := ⟨[], rfl⟩

theorem Moves.trans (first : Moves gcm a b) (second : Moves gcm b c) : Moves gcm a c := by
  rcases first with ⟨before, rfl⟩
  rcases second with ⟨after, rfl⟩
  exact ⟨before ++ after, (run_append a before after).symm⟩

theorem Moves.one (c : Client) (m : Move) : Moves gcm c (c.move gcm m) := ⟨[m], rfl⟩

theorem run_act (gcm : AesGcm) (c : Client) (acts : List Action) :
    run (move gcm) c (acts.map .act) = run (step gcm) c acts := by
  unfold run
  rw [List.foldl_map]
  rfl

/-- Actions are moves. -/
theorem Moves.actions (c : Client) (acts : List Action) : Moves gcm c (run (step gcm) c acts) :=
  ⟨acts.map .act, (run_act gcm c acts).symm⟩

theorem Moves.eventLoop (c : Client) (batches : List (List Delivery)) :
    Moves gcm c (batches.foldl (runEventLoopOnce gcm) c) := by
  rw [foldl_runEventLoopOnce]
  exact .actions c _

theorem Moves.call {env : CallEnv} {k : Call} {r : Client × Int}
    (called : c.call gcm env k = some r) : Moves gcm c r.1 := by
  rcases call_unroll called with ⟨before, after, -, -, eq⟩
  rw [eq]
  exact .actions c _

/-- A disconnect message is a stretch of the event loop, the message without waiting, and
another stretch of the event loop. -/
theorem Moves.sendDisconnectMessage {env : CallEnv} {c' : Client}
    (sent : c.sendDisconnectMessage gcm env = some c') : Moves gcm c c' := by
  rcases Option.map_eq_some_iff.mp sent with ⟨⟨submitted, ret⟩, submits, rfl⟩
  rcases submit_unroll submits with ⟨before, after, idle, submitsIdle, rfl⟩
  have called : (run (step gcm) c (polls before)).step gcm (.sendDisconnect env.iv env.enc) =
      idle.nextCall := by
    simp only [step, Client.sendDisconnectMessage]
    rw [submitsIdle]
    rfl
  dsimp only
  rw [← run_polls_nextCall, ← called]
  exact ((Moves.actions c (polls before)).trans
    (.one _ (.act (.sendDisconnect env.iv env.enc)))).trans (.actions _ (polls after))

theorem Moves.prepareDisconnectLoop {env : Nat → CallEnv} {n i : Nat} {c' : Client}
    (sent : c.prepareDisconnectLoop gcm env n i = some c') : Moves gcm c c' := by
  induction n generalizing i c with
  | zero =>
      cases sent
      exact .refl _
  | succ n ih =>
      unfold Client.prepareDisconnectLoop at sent
      split at sent
      · rcases Option.bind_eq_some_iff.mp sent with ⟨next, messaged, rest⟩
        exact (Moves.sendDisconnectMessage messaged).trans (ih rest)
      · cases sent
        exact .refl _

theorem Moves.disconnect {env : CallEnv} {isConnected : Bool} {c' : Client}
    (disconnected : c.disconnect gcm env isConnected = some c') : Moves gcm c c' := by
  unfold Client.disconnect at disconnected
  split at disconnected
  · rcases Option.map_eq_some_iff.mp disconnected with ⟨sent, messaged, rfl⟩
    exact (Moves.sendDisconnectMessage messaged).trans (.one sent .sweep)
  · cases disconnected
    exact .refl _

/-- Every operation is made of moves. -/
theorem exec_moves (gcm : AesGcm) (c : Client) (op : Op) : Moves gcm c (c.exec gcm op) := by
  cases op with
  | connect encryptionKey sessionNr wait =>
      have connects : Moves gcm c (c.connect encryptionKey sessionNr) := .one c (.set _ _ _)
      simp only [exec]
      split
      · exact connects
      · exact (connects.trans (.eventLoop _ wait)).trans (.one _ (.set _ _ true))
  | call k env =>
      simp only [exec]
      cases called : c.call gcm env k with
      | none => exact .refl c
      | some r => exact .call called
  | runEventLoop batches => exact .eventLoop c batches
  | prepareDisconnect env =>
      simp only [exec]
      cases prepared : c.prepareDisconnect gcm env with
      | none => exact .refl c
      | some c' => exact .prepareDisconnectLoop prepared
  | disconnect env isConnected =>
      simp only [exec]
      cases disconnected : c.disconnect gcm env (isConnected && decide (0 ≤ c.sessionNr)) with
      | none => exact .refl c
      | some c' => exact .disconnect disconnected

end Moves

/-! ## What a move does to the ring -/

/-- The requests and the sequence number stay, and each slot is kept or invalidated. -/
structure Clears (c c' : Client) : Prop where
  current : c'.queue.currentSeqOp = c.queue.currentSeqOp
  sent : c'.sent = c.sent
  slots : ∀ k, c'.queue.queue k = c.queue.queue k ∨
    c'.queue.queue k = { c.queue.queue k with valid := false }

/-- The requests and the sequence number stay, each pending slot is kept or invalidated, and
a free slot stays free. -/
structure Quiet (c c' : Client) : Prop where
  current : c'.queue.currentSeqOp = c.queue.currentSeqOp
  sent : c'.sent = c.sent
  pending : ∀ k, (c.queue.queue k).valid = true → c'.queue.queue k = c.queue.queue k ∨
    c'.queue.queue k = { c.queue.queue k with valid := false }
  free : ∀ k, (c.queue.queue k).valid = false → (c'.queue.queue k).valid = false

theorem Clears.refl (c : Client) : c.Clears c := ⟨rfl, rfl, fun _ => Or.inl rfl⟩

theorem Clears.trans {a b c : Client} (first : a.Clears b) (second : b.Clears c) :
    a.Clears c := by
  refine ⟨second.current.trans first.current, second.sent.trans first.sent, ?_⟩
  intro k
  rcases first.slots k with kept | cleared
  · rw [← kept]
    exact second.slots k
  · right
    rcases second.slots k with kept' | cleared'
    · rw [kept', cleared]
    · rw [cleared', cleared]

theorem Clears.quiet {c c' : Client} (clears : c.Clears c') : c.Quiet c' := by
  refine ⟨clears.current, clears.sent, fun k _ => clears.slots k, ?_⟩
  intro k free
  rcases clears.slots k with kept | cleared
  · rw [kept, free]
  · rw [cleared]

theorem clears_completeSlot (c : Client) (k : Slot) (ret : RetVal) :
    c.Clears (c.completeSlot k ret) := by
  refine ⟨rfl, rfl, ?_⟩
  intro j
  by_cases here : j = k
  · right
    rw [here, completeSlot_queue_self]
  · left
    exact completeSlot_queue_of_ne c ret here

theorem clears_deliver (gcm : AesGcm) (c : Client) (d : Delivery) :
    c.Clears (c.deliver gcm d) := by
  rcases c.deliver_cases gcm d with ⟨-, same⟩ | ⟨p, mem, -, ran⟩
  · rw [same]
    exact .refl c
  · have erased : c.Clears { c with pending := c.pending.erase p, mem := mem } :=
      ⟨rfl, rfl, fun _ => Or.inl rfl⟩
    rw [ran]
    rcases settle_cases { c with pending := c.pending.erase p, mem := mem }
      (verdict gcm c.encKey (c.queue.queue p.2) c.mem d) with same | ⟨ret, w, -, -, done⟩
    · rw [same]
      exact erased
    · rw [done]
      exact erased.trans (clears_completeSlot _ _ _)

theorem clears_invalidateLoop (n : Nat) (c : Client) (index : Slot) :
    c.Clears (c.complete (PendingRequestQueue.invalidateLoop n index c.queue).1
      (PendingRequestQueue.invalidateLoop n index c.queue).2) := by
  induction n generalizing c index with
  | zero => exact ⟨rfl, rfl, fun _ => Or.inl rfl⟩
  | succ n ih =>
      rw [complete_invalidateLoop_succ]
      refine Clears.trans ?_ (ih (c.sweepSlot index) (PendingRequestQueue.nextIndex index))
      unfold sweepSlot
      split
      · exact clears_completeSlot c index .timeout
      · exact .refl c

theorem clears_sweep (c : Client) : c.Clears c.sweep :=
  clears_invalidateLoop maxAcceptedResponses c (acceptedIndex c.queue.currentSeqOp)

/-- A slot that is given back was free before. -/
theorem quiet_giveBack {c : Client} (s : Submission)
    (free : (c.queue.queue c.nextSlot).valid = false) : c.Quiet (c.giveBack s) := by
  have own : ((c.giveBack s).queue.queue c.nextSlot).valid = false := by
    change ((c.queue.setTag c.nextSlot _).queue c.nextSlot).valid = false
    rw [PendingRequestQueue.setTag_queue_self]
  have others : ∀ k, k ≠ c.nextSlot → (c.giveBack s).queue.queue k = c.queue.queue k :=
    fun k ne => PendingRequestQueue.setTag_queue_of_ne _ _ ne
  refine ⟨rfl, rfl, ?_, ?_⟩
  · intro k valid
    left
    apply others
    rintro rfl
    rw [free] at valid
    cases valid
  · intro k freeK
    by_cases here : k = c.nextSlot
    · rw [here, own]
    · rw [others k here, freeK]

/-- A request was sent from the free slot of the current sequence number. -/
structure Sends (c c' : Client) (s : Submission) (ciphertext : Bytes) : Prop where
  op : s.op.toNat < 4
  free : (c.queue.queue c.nextSlot).valid = false
  queue : c'.queue = (c.enqueue s ciphertext).queue
  sent : c'.sent = (c.enqueue s ciphertext).sent

/-- Everything an action can do to the ring. -/
theorem action_cases (gcm : AesGcm) (c : Client) (a : Action) :
    c.Quiet (c.step gcm a) ∨ ∃ s ciphertext, c.Sends (c.step gcm a) s ciphertext := by
  rcases c.step_cases gcm a with ⟨d, rfl⟩ | ⟨-, c', calls, returned, eq, -, left⟩
  · exact Or.inl (clears_deliver gcm c d).quiet
  rw [eq]
  rcases left with rfl | ⟨s, submits, -, free, rfl | ⟨enc, iv, text, -, rfl⟩⟩
  · exact Or.inl ⟨rfl, rfl, fun _ _ => Or.inl rfl, fun _ free => free⟩
  · have quiet := quiet_giveBack s free
    exact Or.inl ⟨quiet.current, quiet.sent, quiet.pending, quiet.free⟩
  · exact Or.inr ⟨s, text, submits.op, free, rfl, rfl⟩

/-- Everything a move can do to the ring. -/
theorem move_cases (gcm : AesGcm) (c : Client) (m : Move) :
    c.Quiet (c.move gcm m) ∨ ∃ s ciphertext, c.Sends (c.move gcm m) s ciphertext := by
  cases m with
  | act a => exact action_cases gcm c a
  | sweep => exact Or.inl (clears_sweep c).quiet
  | set encKey sessionNr connected =>
      exact Or.inl ⟨rfl, rfl, fun _ _ => Or.inl rfl, fun _ free => free⟩

/-! ## The invariant -/

/-- The invariant of client runs; the current word carries no operation, and a request
still in its slot is among the last `MAX_ACCEPTED_RESPONSES` sent. -/
structure Ringed (id : UInt8) (s₀ : Nat) (c : Client) : Prop where
  inv : c.Inv id s₀
  op : opOf c.queue.currentSeqOp = 0
  recent : ∀ i s, c.sent[i]? = some s → c.queue.queue s.slot = s.tag →
    c.sent.length ≤ i + maxAcceptedResponses

section Ringed

variable {id : UInt8} {s₀ : Nat} {c c' : Client}

/-- Two sequence numbers in steps of two share a slot when their distance is a multiple of
the size of the ring. -/
theorem val_acceptedIndex_of_seq {w : UInt64} {n : Nat}
    (seq : seqOf w = (s₀ + 2 * n) % seqModulus) :
    (acceptedIndex w).val = (s₀ / 2 + n) % maxAcceptedResponses := by
  rw [val_acceptedIndex, seq]
  unfold seqModulus maxAcceptedResponses maxPendingRequests
  omega

theorem Numbered.val_slot (numbered : c.Numbered id s₀) {i : Nat} {s : Sent}
    (at_ : c.sent[i]? = some s) : s.slot.val = (s₀ / 2 + i) % maxAcceptedResponses := by
  rw [numbered.slot s (List.mem_of_getElem? at_)]
  exact val_acceptedIndex_of_seq (numbered.seq i s at_)

theorem Numbered.val_nextSlot (numbered : c.Numbered id s₀) :
    c.nextSlot.val = (s₀ / 2 + c.sent.length) % maxAcceptedResponses :=
  val_acceptedIndex_of_seq numbered.current

/-- What does not send a request keeps the invariant. -/
theorem Ringed.of_quiet (ringed : c.Ringed id s₀) (quiet : c.Quiet c') (inv : c'.Inv id s₀) :
    c'.Ringed id s₀ := by
  refine ⟨inv, by rw [quiet.current, ringed.op], ?_⟩
  intro i s at_ inSlot
  have validTag := inv.numbered.valid s (List.mem_of_getElem? at_)
  rw [quiet.sent] at at_ ⊢
  apply ringed.recent i s at_
  cases valid : (c.queue.queue s.slot).valid with
  | false =>
      have free := quiet.free s.slot valid
      rw [inSlot, validTag] at free
      cases free
  | true =>
      rcases quiet.pending s.slot valid with kept | cleared
      · rw [← kept, inSlot]
      · rw [inSlot] at cleared
        have := congrArg SentMessageTag.valid cleared
        rw [validTag] at this
        cases this

/-- A request 1024 positions back had the slot that the next one fills, so it is gone. -/
theorem Ringed.of_sends (ringed : c.Ringed id s₀) {s : Submission} {ciphertext : Bytes}
    (sends : c.Sends c' s ciphertext) (inv : c'.Inv id s₀) : c'.Ringed id s₀ := by
  refine ⟨inv, ?_, ?_⟩
  · rw [sends.queue]
    change opOf (PendingRequestQueue.incSeq _).currentSeqOp = 0
    rw [PendingRequestQueue.incSeq_currentSeqOp, opOf_nextSeq, opOf_nextSeq,
      PendingRequestQueue.setTag_currentSeqOp, ringed.op]
  · intro i t at_ inSlot
    rw [sends.sent] at at_ ⊢
    rw [sends.queue] at inSlot
    change (c.sent ++ [_])[i]? = some t at at_
    change (c.sent ++ [_]).length ≤ _
    rw [List.length_append, List.length_singleton]
    rcases getElem?_snoc at_ with old | ⟨rfl, rfl⟩
    · have other : t.slot ≠ c.nextSlot := by
        intro here
        rw [here, enqueue_queue_self] at inSlot
        exact ringed.inv.numbered.call_ne (List.mem_of_getElem? old)
          (congrArg SentMessageTag.call inSlot).symm
      rw [c.enqueue_queue_of_ne s ciphertext other] at inSlot
      have before := ringed.recent i t old inSlot
      have slots : t.slot.val ≠ c.nextSlot.val := fun same => other (Fin.ext same)
      rw [ringed.inv.numbered.val_slot old, ringed.inv.numbered.val_nextSlot] at slots
      unfold maxAcceptedResponses maxPendingRequests at *
      omega
    · unfold maxAcceptedResponses maxPendingRequests
      omega

theorem inv_move (inv : c.Inv id s₀) (gcm : AesGcm) (m : Move) : (c.move gcm m).Inv id s₀ := by
  cases m with
  | act a => exact inv_step inv gcm a
  | sweep => exact inv.invalidateAllRequests.1
  | set encKey sessionNr connected => exact inv.of_eq rfl rfl rfl rfl le_rfl

theorem ringed_move (ringed : c.Ringed id s₀) (gcm : AesGcm) (m : Move) :
    (c.move gcm m).Ringed id s₀ := by
  have inv := inv_move ringed.inv gcm m
  rcases c.move_cases gcm m with quiet | ⟨s, ciphertext, sends⟩
  · exact ringed.of_quiet quiet inv
  · exact ringed.of_sends sends inv

theorem ringed_run (ringed : c.Ringed id s₀) (gcm : AesGcm) (moves : List Move) :
    (run (move gcm) c moves).Ringed id s₀ :=
  run_invariant (I := fun c : Client => c.Ringed id s₀)
    (fun _ m ringed => ringed_move ringed gcm m) ringed moves

end Ringed

theorem ringed_constructed (setup : Setup) :
    setup.constructed.Ringed setup.id (seqOf setup.random) := by
  refine ⟨(inv_client setup).of_eq rfl rfl rfl rfl le_rfl, ?_, ?_⟩
  · exact (setId_fields setup.random setup.id).2.2
  · intro i s at_
    cases at_

/-- The invariant holds after any operations. -/
theorem ringed_exec (gcm : AesGcm) (setup : Setup) (ops : List Op) :
    (run (exec gcm) setup.constructed ops).Ringed setup.id (seqOf setup.random) := by
  refine run_invariant (I := fun c : Client => c.Ringed setup.id (seqOf setup.random)) ?_
    (ringed_constructed setup) ops
  intro c op ringed
  rcases exec_moves gcm c op with ⟨moves, eq⟩
  rw [eq]
  exact ringed_run ringed gcm moves

/-! ## The ring invariant -/

/-- The current word carries the ID and no operation, and a pending slot holds the request
of one of the last `MAX_ACCEPTED_RESPONSES` sequence numbers, in the slot of that number. -/
structure Ring (id : UInt8) (c : Client) : Prop where
  low : c.queue.currentSeqOp &&& (0x3ff : UInt64) = id.toUInt64 <<< 2
  slot : ∀ k, (c.queue.queue k).valid = true → acceptedIndex (c.queue.queue k).header.seqOp = k
  recent : ∀ k, (c.queue.queue k).valid = true → ∃ d, 1 ≤ d ∧ d ≤ maxAcceptedResponses ∧
    (seqOf (c.queue.queue k).header.seqOp + 2 * d) % seqModulus = seqOf c.queue.currentSeqOp

/-- Pending requests have different sequence numbers. -/
def Distinct (c : Client) : Prop :=
  ∀ j k, (c.queue.queue j).valid = true → (c.queue.queue k).valid = true →
    seqOf (c.queue.queue j).header.seqOp = seqOf (c.queue.queue k).header.seqOp → j = k

/-- No pending slot is overwritten: it is kept, or its request is invalidated. -/
def Keeps (c c' : Client) : Prop :=
  ∀ k, (c.queue.queue k).valid = true → c'.queue.queue k = c.queue.queue k ∨
    c'.queue.queue k = { c.queue.queue k with valid := false }

theorem Ringed.ring {id : UInt8} {s₀ : Nat} {c : Client} (ringed : c.Ringed id s₀) :
    c.Ring id := by
  have numbered := ringed.inv.numbered
  refine ⟨(and_low_eq_iff _ id).mpr ⟨numbered.currentId, ringed.op⟩, ?_, ?_⟩
  · intro k valid
    rcases ringed.inv.occupied.slots k valid with ⟨s, member, slot, tag⟩
    rw [← tag, ← numbered.slot s member, slot]
  · intro k valid
    rcases ringed.inv.occupied.slots k valid with ⟨s, member, slot, tag⟩
    rcases List.getElem?_of_mem member with ⟨i, at_⟩
    have lt := (List.getElem?_eq_some_iff.mp at_).1
    have recent := ringed.recent i s at_ (by rw [slot, tag])
    refine ⟨c.sent.length - i, by omega, by omega, ?_⟩
    rw [← tag, numbered.seq i s at_, numbered.current]
    unfold seqModulus
    omega

theorem Ring.distinct {id : UInt8} {c : Client} (ring : c.Ring id) : c.Distinct := by
  intro j k validJ validK same
  rw [← ring.slot j validJ, ← ring.slot k validK]
  exact acceptedIndex_congr same

theorem keeps_move (gcm : AesGcm) (c : Client) (m : Move) : c.Keeps (c.move gcm m) := by
  rcases c.move_cases gcm m with quiet | ⟨s, ciphertext, sends⟩
  · exact quiet.pending
  · intro k valid
    left
    have other : k ≠ c.nextSlot := by
      rintro rfl
      rw [sends.free] at valid
      cases valid
    rw [sends.queue, c.enqueue_queue_of_ne s ciphertext other]

/-- The ring invariant holds after any operations of a client, and in every state the next
operation passes through; none of its moves overwrites a pending slot. -/
theorem ring_invariant (gcm : AesGcm) (setup : Setup) (ops : List Op) :
    (run (exec gcm) setup.constructed ops).Ring setup.id ∧
      (run (exec gcm) setup.constructed ops).Distinct ∧
      ∀ op, ∃ moves,
        (run (exec gcm) setup.constructed ops).exec gcm op =
          run (move gcm) (run (exec gcm) setup.constructed ops) moves ∧
        Along (move gcm) (fun c m => c.Ring setup.id ∧ c.Keeps (c.move gcm m))
          (run (exec gcm) setup.constructed ops) moves := by
  have ringed := ringed_exec gcm setup ops
  refine ⟨ringed.ring, ringed.ring.distinct, ?_⟩
  intro op
  rcases exec_moves gcm _ op with ⟨moves, eq⟩
  refine ⟨moves, eq, along_of_forall ?_⟩
  intro before m after _
  exact ⟨(ringed_run ringed gcm before).ring, keeps_move gcm _ m⟩

/-! ## The timeout sweep -/

/-- The requests still in their slots, in the order they were sent. -/
def unfinished (c : Client) : List Sent :=
  c.sent.filter fun s => c.queue.queue s.slot = s.tag

/-- One invocation for each of these requests that has a callback: of this callback, with
`TIMEOUT` and the tag its caller passed. -/
def timeouts (requests : List Sent) : List Completion :=
  requests.filterMap fun s => s.tag.callback.map fun cb =>
    { call := s.tag.call, callback := cb, ret := .timeout, userTag := s.tag.userTag }

theorem iterate_nextIndex_ne (index : Slot) {i : Nat} (pos : 0 < i)
    (lt : i < maxAcceptedResponses) : PendingRequestQueue.nextIndex^[i] index ≠ index := by
  intro same
  have val := congrArg Fin.val same
  have bound := index.isLt
  rw [val_iterate_nextIndex] at val
  unfold maxAcceptedResponses maxPendingRequests at *
  omega

/-- The loop passes over slots that are free. -/
theorem invalidateLoop_free {q : PendingRequestQueue} (index : Slot) (m n : Nat)
    (free : ∀ i < m, (q.queue (PendingRequestQueue.nextIndex^[i] index)).valid = false) :
    PendingRequestQueue.invalidateLoop (m + n) index q =
      PendingRequestQueue.invalidateLoop n (PendingRequestQueue.nextIndex^[m] index) q := by
  induction m generalizing index with
  | zero => rw [Nat.zero_add, Function.iterate_zero_apply]
  | succ m ih =>
      have first : (q.queue index).valid = false := free 0 (Nat.succ_pos m)
      have rest := ih (PendingRequestQueue.nextIndex index) fun i lt =>
        free (i + 1) (Nat.succ_lt_succ lt)
      rw [Nat.succ_add, PendingRequestQueue.invalidateLoop]
      rw [first, if_neg Bool.false_ne_true, rest]
      rfl

/-- Over slots that were filled one after another, the loop invokes the callbacks of the
requests still there in that order. -/
theorem invalidateLoop_timeouts (q : PendingRequestQueue) (index : Slot) (requests : List Sent)
    (few : requests.length ≤ maxAcceptedResponses)
    (slots : ∀ i s, requests[i]? = some s → s.slot = PendingRequestQueue.nextIndex^[i] index)
    (valid : ∀ s ∈ requests, s.tag.valid = true)
    (holds : ∀ s ∈ requests, (q.queue s.slot).valid = true → q.queue s.slot = s.tag) :
    (PendingRequestQueue.invalidateLoop requests.length index q).2 =
      timeouts (requests.filter fun s => q.queue s.slot = s.tag) := by
  induction requests generalizing q index with
  | nil => rfl
  | cons s requests ih =>
      have here : s.slot = index := slots 0 s rfl
      have later : ∀ t ∈ requests, t.slot ≠ index := by
        intro t member
        rcases List.getElem?_of_mem member with ⟨i, at_⟩
        have lt := (List.getElem?_eq_some_iff.mp at_).1
        rw [slots (i + 1) t at_]
        exact iterate_nextIndex_ne index (Nat.succ_pos i) (by
          rw [List.length_cons] at few
          omega)
      -- the first slot is not among the later ones, so what they hold is unchanged
      have rest : ∀ q' : PendingRequestQueue, (∀ k, k ≠ index → q'.queue k = q.queue k) →
          (PendingRequestQueue.invalidateLoop requests.length
              (PendingRequestQueue.nextIndex index) q').2 =
            timeouts (requests.filter fun t => q.queue t.slot = t.tag) := by
        intro q' same
        have holds' : ∀ t ∈ requests, (q'.queue t.slot).valid = true →
            q'.queue t.slot = t.tag := by
          intro t member
          rw [same _ (later t member)]
          exact holds t (List.mem_cons_of_mem s member)
        rw [ih q' _ (Nat.le_of_succ_le few) (fun i t at_ => slots (i + 1) t at_)
          (fun t member => valid t (List.mem_cons_of_mem s member)) holds']
        congr 1
        apply List.filter_congr
        intro t member
        rw [same _ (later t member)]
      rw [List.length_cons, PendingRequestQueue.invalidateLoop]
      have tagValid := valid s List.mem_cons_self
      cases occupied : (q.queue index).valid with
      | true =>
          have inSlot : q.queue s.slot = s.tag :=
            holds s List.mem_cons_self (by rw [here, occupied])
          rw [if_pos rfl, rest _ fun k ne => q.invalidateSlot_queue_of_ne .timeout ne,
            List.filter_cons_of_pos (by simp [inSlot])]
          rw [here] at inSlot
          change ((q.queue index).invalidate .timeout).2.toList ++ _ = _
          rw [inSlot]
          unfold timeouts SentMessageTag.invalidate
          rw [List.filterMap_cons]
          cases s.tag.callback with
          | none => rfl
          | some cb => rfl
      | false =>
          have gone : q.queue s.slot ≠ s.tag := by
            intro same
            rw [here] at same
            rw [same, tagValid] at occupied
            cases occupied
          rw [if_neg Bool.false_ne_true, rest q fun _ _ => rfl,
            List.filter_cons_of_neg (by simp [gone])]
          rfl

section Sweep

variable {id : UInt8} {s₀ : Nat} {c : Client}

/-- A pending slot holds the request that was sent with its number, one of the last. -/
theorem Ringed.exists_sent (ringed : c.Ringed id s₀) {k : Slot}
    (valid : (c.queue.queue k).valid = true) :
    ∃ i s, c.sent[i]? = some s ∧ s.slot = k ∧ s.tag = c.queue.queue k ∧
      i < c.sent.length ∧ c.sent.length ≤ i + maxAcceptedResponses ∧
      k.val = (s₀ / 2 + i) % maxAcceptedResponses := by
  rcases ringed.inv.occupied.slots k valid with ⟨s, member, slot, tag⟩
  rcases List.getElem?_of_mem member with ⟨i, at_⟩
  refine ⟨i, s, at_, slot, tag, (List.getElem?_eq_some_iff.mp at_).1,
    ringed.recent i s at_ (by rw [slot, tag]), ?_⟩
  rw [← slot]
  exact ringed.inv.numbered.val_slot at_

/-- The slots before the one of the oldest request that can still be pending are free. -/
theorem Ringed.free_before (ringed : c.Ringed id s₀) {i : Nat}
    (before : i < maxAcceptedResponses - c.sent.length) :
    (c.queue.queue (PendingRequestQueue.nextIndex^[i] c.nextSlot)).valid = false := by
  by_contra occupied
  rw [Bool.not_eq_false] at occupied
  rcases ringed.exists_sent occupied with ⟨j, s, -, -, -, lt, -, val⟩
  rw [val_iterate_nextIndex, ringed.inv.numbered.val_nextSlot] at val
  unfold maxAcceptedResponses maxPendingRequests at *
  omega

/-- A request among the last ones is in its slot when the slot is pending. -/
theorem Ringed.holds (ringed : c.Ringed id s₀) {i : Nat} {s : Sent} (at_ : c.sent[i]? = some s)
    (last : c.sent.length ≤ i + maxAcceptedResponses)
    (valid : (c.queue.queue s.slot).valid = true) : c.queue.queue s.slot = s.tag := by
  rcases ringed.exists_sent valid with ⟨j, t, atT, -, tag, lt, recent, val⟩
  have lt' := (List.getElem?_eq_some_iff.mp at_).1
  rw [ringed.inv.numbered.val_slot at_] at val
  have same : i = j := by
    unfold maxAcceptedResponses maxPendingRequests at *
    omega
  subst same
  rw [at_] at atT
  rw [← tag, Option.some.inj atT]

/-- The requests that can still be pending start at the slot the loop gets to. -/
theorem Ringed.sweep_timeouts (ringed : c.Ringed id s₀) :
    c.queue.invalidateAllRequests.2 = timeouts c.unfinished := by
  have numbered := ringed.inv.numbered
  obtain ⟨m, few, count, split⟩ : ∃ m, m ≤ c.sent.length ∧
      maxAcceptedResponses = maxAcceptedResponses - c.sent.length + m ∧
      c.sent.length ≤ c.sent.length - m + maxAcceptedResponses :=
    ⟨min c.sent.length maxAcceptedResponses, by omega, by omega, by omega⟩
  have length : (c.sent.drop (c.sent.length - m)).length = m := by
    rw [List.length_drop]
    omega
  have older : (c.sent.take (c.sent.length - m)).filter
      (fun s => c.queue.queue s.slot = s.tag) = [] := by
    rw [List.filter_eq_nil_iff]
    intro s member inSlot
    rcases List.getElem?_of_mem member with ⟨i, at_⟩
    have lt := (List.getElem?_eq_some_iff.mp at_).1
    rw [List.length_take] at lt
    rw [List.getElem?_take_of_lt (by omega)] at at_
    have recent := ringed.recent i s at_ (of_decide_eq_true inSlot)
    omega
  have all : c.unfinished = (c.sent.drop (c.sent.length - m)).filter
      fun s => c.queue.queue s.slot = s.tag := by
    unfold unfinished
    conv_lhs => rw [← List.take_append_drop (c.sent.length - m) c.sent]
    rw [List.filter_append, older, List.nil_append]
  have skipped := invalidateLoop_free c.nextSlot (maxAcceptedResponses - c.sent.length) m
    fun i before => ringed.free_before before
  rw [← count] at skipped
  change (PendingRequestQueue.invalidateLoop maxAcceptedResponses c.nextSlot c.queue).2 = _
  rw [all, skipped]
  have loop := invalidateLoop_timeouts c.queue
    (PendingRequestQueue.nextIndex^[maxAcceptedResponses - c.sent.length] c.nextSlot)
    (c.sent.drop (c.sent.length - m)) (by omega) ?_ ?_ ?_
  · rw [length] at loop
    exact loop
  · intro i s at_
    rw [List.getElem?_drop] at at_
    apply Fin.ext
    rw [← Function.iterate_add_apply, val_iterate_nextIndex, numbered.val_slot at_,
      numbered.val_nextSlot]
    unfold maxAcceptedResponses maxPendingRequests at *
    omega
  · intro s member
    exact numbered.valid s (List.mem_of_mem_drop member)
  · intro s member valid
    rcases List.getElem?_of_mem member with ⟨i, at_⟩
    rw [List.getElem?_drop] at at_
    exact ringed.holds at_ (by omega) valid

/-- The unfinished requests are those in the pending slots. -/
theorem Ringed.valid_iff (ringed : c.Ringed id s₀) (k : Slot) :
    (c.queue.queue k).valid = true ↔
      ∃ s ∈ c.unfinished, s.slot = k ∧ s.tag = c.queue.queue k := by
  unfold unfinished
  constructor
  · intro valid
    rcases ringed.inv.occupied.slots k valid with ⟨s, member, slot, tag⟩
    refine ⟨s, List.mem_filter.mpr ⟨member, ?_⟩, slot, tag⟩
    rw [decide_eq_true_eq, slot, tag]
  · rintro ⟨s, member, -, tag⟩
    rw [← tag]
    exact ringed.inv.numbered.valid s (List.mem_of_mem_filter member)

/-- A ring without pending slots has nothing to sweep. -/
theorem invalidateAllRequests_free {q : PendingRequestQueue}
    (free : ∀ k, (q.queue k).valid = false) : q.invalidateAllRequests.2 = [] := by
  have skipped := invalidateLoop_free (acceptedIndex q.currentSeqOp) maxAcceptedResponses 0
    fun i _ => free _
  rw [Nat.add_zero] at skipped
  unfold PendingRequestQueue.invalidateAllRequests
  rw [skipped]
  rfl

end Sweep

/-- After any operations of a client, and in every state the next one passes through, the
sweep invokes with `TIMEOUT` the callbacks of the pending requests, each once and in the
order they were sent, leaves no slot pending, and a second sweep invokes nothing. -/
theorem sweep_in_order (gcm : AesGcm) (setup : Setup) (ops : List Op) (moves : List Move) :
    let c := run (move gcm) (run (exec gcm) setup.constructed ops) moves
    (∀ k, (c.queue.queue k).valid = true ↔
      ∃ s ∈ c.unfinished, s.slot = k ∧ s.tag = c.queue.queue k) ∧
    c.unfinished.Sublist c.sent ∧ (c.unfinished.map (·.tag.call)).Nodup ∧
    c.queue.invalidateAllRequests.2 = timeouts c.unfinished ∧
    (∀ k, (c.queue.invalidateAllRequests.1.queue k).valid = false) ∧
    c.queue.invalidateAllRequests.1.invalidateAllRequests.2 = [] := by
  intro c
  have ringed : c.Ringed setup.id (seqOf setup.random) :=
    ringed_run (ringed_exec gcm setup ops) gcm moves
  have free := ringed.inv.invalidateAllRequests.2
  have sublist : c.unfinished.Sublist c.sent := List.filter_sublist
  exact ⟨ringed.valid_iff, sublist, ringed.inv.numbered.nodup.sublist (sublist.map _),
    ringed.sweep_timeouts, free, invalidateAllRequests_free free⟩

end Client

end NetworkStack
