import NetworkStack.Ring

/-!
# What a full queue is

`queue_full` reads one slot, the one of the current sequence number, and takes
the ring to be full when that slot is pending. It is right as long as requests
complete in the order they were sent: `queue_full_iff` says which steps of a run
keep it right. A response that completes a younger request while the ring is
full makes it wrong.
-/

namespace NetworkStack

open Machine

namespace Client

/-! ## Which slot a response completes -/

/-- The slot that the continuation of a delivery completes. -/
def completedSlot (gcm : AesGcm) (c : Client) (d : Delivery) : Option Slot :=
  (c.pending.find? (·.1 == d.call)).bind fun p =>
    (verdict gcm c.encKey (c.queue.queue p.2) c.mem d).bind fun v =>
      if (c.queue.queue (namedSlot v.2)).valid then some (namedSlot v.2) else none

/-- The pending slots after a delivery. -/
theorem deliver_valid_iff (gcm : AesGcm) (c : Client) (d : Delivery) (k : Slot) :
    ((c.deliver gcm d).queue.queue k).valid = true ↔
      (c.queue.queue k).valid = true ∧ c.completedSlot gcm d ≠ some k := by
  unfold completedSlot
  rcases c.deliver_cases gcm d with ⟨none_, same⟩ | ⟨p, mem, found, ran⟩
  · rw [same, none_]
    simp
  · rw [found, ran, Option.bind_some]
    cases verdict gcm c.encKey (c.queue.queue p.2) c.mem d with
    | none => simp [settle]
    | some v =>
        rw [Option.bind_some]
        dsimp only [settle]
        split
        · by_cases here : k = namedSlot v.2
          · rw [here, completeSlot_queue_self]
            simp
          · rw [completeSlot_queue_of_ne _ v.1 here]
            simp [Ne.symm here]
        · simp

theorem deliver_of_completedSlot {gcm : AesGcm} {c : Client} {d : Delivery} {k : Slot}
    (completes : c.completedSlot gcm d = some k) :
    ∃ p mem ret, c.deliver gcm d =
      ({ c with pending := c.pending.erase p, mem := mem } : Client).completeSlot k ret := by
  unfold completedSlot at completes
  rcases c.deliver_cases gcm d with ⟨none_, -⟩ | ⟨p, mem, found, ran⟩
  · rw [none_] at completes
    cases completes
  · rw [found, Option.bind_some] at completes
    rcases Option.bind_eq_some_iff.mp completes with ⟨v, answered, named⟩
    refine ⟨p, mem, v.1, ?_⟩
    rw [ran, answered]
    split at named
    · rename_i valid
      rw [← Option.some.inj named]
      exact if_pos valid
    · cases named

/-- The action sends a request: it is admitted, its slot is free and it is encrypted. -/
def SendsRequest (gcm : AesGcm) (c : Client) : Action → Prop
  | .call k iv enc => ∃ s, k.submission = some s ∧ c.Admits s ∧
      (c.queue.queue c.nextSlot).valid = false ∧
      (encryptMessage gcm c.encKey enc iv (c.newTag s).header s.payload).2.isSome = true
  | .sendDisconnect iv enc => (c.queue.queue c.nextSlot).valid = false ∧
      (encryptMessage gcm c.encKey enc iv (c.newTag disconnectSubmission).header
        disconnectSubmission.payload).2.isSome = true
  | .poll _ => False

theorem step_call_of_encrypts {gcm : AesGcm} {c : Client} {k : Call} {iv : Iv} {enc : EncEnv}
    {s : Submission} {ciphertext : Bytes} (submits : k.submission = some s) (admits : c.Admits s)
    (free : (c.queue.queue c.nextSlot).valid = false)
    (encrypts : (encryptMessage gcm c.encKey enc iv (c.newTag s).header s.payload).2 =
      some ciphertext) :
    c.step gcm (.call k iv enc) = ((c.enqueue s ciphertext).returns 0).1 := by
  simp only [step]
  rw [call_eq, submits]
  dsimp only
  rw [if_pos admits, submit_idle, free, if_neg Bool.false_ne_true, encrypts]
  rfl

theorem sends_of_sendsRequest {gcm : AesGcm} {c : Client} {a : Action}
    (sends : SendsRequest gcm c a) : ∃ s ciphertext, c.Sends (c.step gcm a) s ciphertext := by
  cases a with
  | poll d => exact sends.elim
  | call k iv enc =>
      rcases sends with ⟨s, submits, admits, free, some_⟩
      rcases Option.isSome_iff_exists.mp some_ with ⟨ciphertext, encrypts⟩
      have op := Call.submission_op submits
      rw [step_call_of_encrypts submits admits free encrypts]
      exact ⟨s, ciphertext, by omega, free, rfl, rfl⟩
  | sendDisconnect iv enc =>
      rcases sends with ⟨free, some_⟩
      rcases Option.isSome_iff_exists.mp some_ with ⟨ciphertext, encrypts⟩
      have sent : c.step gcm (.sendDisconnect iv enc) =
          (c.enqueue disconnectSubmission ciphertext).nextCall := by
        simp only [step]
        change ((c.submit gcm (.idle iv enc) disconnectSubmission 5).map _).getD c = _
        rw [submit_idle, free, if_neg Bool.false_ne_true, encrypts]
        rfl
      rw [sent]
      exact ⟨disconnectSubmission, ciphertext, by decide, free, rfl, rfl⟩

/-- The same slots are pending, and the next one is the same. -/
def Still (c c' : Client) : Prop :=
  c'.nextSlot = c.nextSlot ∧ ∀ k, (c'.queue.queue k).valid = (c.queue.queue k).valid

theorem still_giveBack {c : Client} (s : Submission)
    (free : (c.queue.queue c.nextSlot).valid = false) : c.Still (c.giveBack s) := by
  refine ⟨rfl, ?_⟩
  intro k
  by_cases here : k = c.nextSlot
  · rw [here, free]
    exact (quiet_giveBack s free).free _ free
  · exact congrArg SentMessageTag.valid (PendingRequestQueue.setTag_queue_of_ne _ _ here)

/-- A call or disconnect message that sends nothing leaves the pending slots. -/
theorem still_of_not_sendsRequest {gcm : AesGcm} {c : Client} {a : Action}
    (silent : ¬ SendsRequest gcm c a) (notPoll : ∀ d, a ≠ .poll d) : c.Still (c.step gcm a) := by
  cases a with
  | poll d => exact (notPoll d rfl).elim
  | call k iv enc =>
      rcases c.step_call_cases gcm k iv enc with
        eq | eq | ⟨s, submits, admits, free, eq | ⟨text, encrypts, -⟩⟩
      · rw [eq]
        exact ⟨rfl, fun _ => rfl⟩
      · rw [eq]
        exact ⟨rfl, fun _ => rfl⟩
      · rw [eq]
        exact still_giveBack s free
      · exact (silent ⟨s, submits, admits, free, by rw [encrypts]; rfl⟩).elim
  | sendDisconnect iv enc =>
      rcases c.step_sendDisconnect_cases gcm iv enc with eq | ⟨free, eq | ⟨text, encrypts, -⟩⟩
      · rw [eq]
        exact ⟨rfl, fun _ => rfl⟩
      · rw [eq]
        exact still_giveBack disconnectSubmission free
      · exact (silent ⟨free, by rw [encrypts]; rfl⟩).elim

/-! ## The condition -/

theorem queueFull_eq (c : Client) : c.queueFull = (c.queue.queue c.nextSlot).valid := rfl

/-- All slots hold pending requests. -/
def AllPending (c : Client) : Prop := ∀ k, (c.queue.queue k).valid = true

/-- `queue_full` says that all slots are pending, and `prepare_new_request` waits only then:
without an iteration of the event loop it does not return. -/
def FullMeansFull (gcm : AesGcm) (c : Client) : Prop :=
  (c.queueFull = true ↔ c.AllPending) ∧
    ∀ op userTag cb valueSize,
      prepareNewRequest gcm [] c op userTag cb valueSize = none → c.AllPending

/-- A response that arrives while the current slot is pending completes no other slot, and a
request that is sent while the slot after its own is pending fills the last free slot. -/
def InOrder (gcm : AesGcm) (c : Client) : Move → Prop
  | .act (.poll d) => c.queueFull = true → ∀ k, c.completedSlot gcm d = some k → k = c.nextSlot
  | .act a => SendsRequest gcm c a →
      (c.queue.queue (PendingRequestQueue.nextIndex c.nextSlot)).valid = true →
      ∀ k, k ≠ c.nextSlot → (c.queue.queue k).valid = true
  | _ => True

theorem prepareNewRequest_nil_eq_none_iff (gcm : AesGcm) (c : Client) (op : UInt8) (userTag : Nat)
    (cb : Option Callback) (valueSize : Option Nat) :
    prepareNewRequest gcm [] c op userTag cb valueSize = none ↔ c.queueFull = true := by
  change Option.map _ (if c.queueFull = true then none else some c) = none ↔ _
  split
  · rename_i full
    exact iff_of_true rfl full
  · rename_i free
    exact iff_of_false (by simp) free

/-- Only one direction can fail. -/
theorem fullMeansFull_iff (gcm : AesGcm) (c : Client) :
    c.FullMeansFull gcm ↔ (c.queueFull = true → c.AllPending) := by
  constructor
  · intro means
    exact means.1.mp
  · intro only
    refine ⟨⟨only, fun all => all c.nextSlot⟩, ?_⟩
    intro op userTag cb valueSize waits
    exact only ((prepareNewRequest_nil_eq_none_iff ..).mp waits)

section Steps

variable {gcm : AesGcm} {c c' : Client}

/-- After a request the next slot is the one after its own. -/
theorem Sends.nextSlot {s : Submission} {ciphertext : Bytes} (sends : c.Sends c' s ciphertext) :
    c'.nextSlot = PendingRequestQueue.nextIndex c.nextSlot := by
  have seq : seqOf c'.queue.currentSeqOp = (seqOf c.queue.currentSeqOp + 2) % seqModulus := by
    rw [sends.queue]
    change seqOf (PendingRequestQueue.incSeq _).currentSeqOp = _
    rw [PendingRequestQueue.incSeq_currentSeqOp, PendingRequestQueue.setTag_currentSeqOp,
      seqOf_nextSeq, seqOf_nextSeq]
    unfold seqModulus
    omega
  apply Fin.ext
  unfold Client.nextSlot PendingRequestQueue.nextIndex
  dsimp only
  rw [val_acceptedIndex, val_acceptedIndex, seq]
  unfold seqModulus maxAcceptedResponses maxPendingRequests
  omega

theorem Sends.valid_iff {s : Submission} {ciphertext : Bytes} (sends : c.Sends c' s ciphertext)
    (k : Slot) :
    (c'.queue.queue k).valid = true ↔ k = c.nextSlot ∨ (c.queue.queue k).valid = true := by
  rw [sends.queue]
  by_cases here : k = c.nextSlot
  · rw [here, enqueue_queue_self]
    exact iff_of_true rfl (Or.inl rfl)
  · rw [c.enqueue_queue_of_ne s ciphertext here]
    simp [here]

theorem nextIndex_ne (index : Slot) : PendingRequestQueue.nextIndex index ≠ index :=
  iterate_nextIndex_ne index Nat.one_pos (by decide)

theorem queueFull_complete {q : PendingRequestQueue} (free : ∀ k, (q.queue k).valid = false)
    (done : List Completion) : (c.complete q done).queueFull = false :=
  free _

/-- After the sweep the queue is not full. -/
theorem Inv.queueFull_sweep {id : UInt8} {s₀ : Nat} (inv : c.Inv id s₀) :
    c.sweep.queueFull = false :=
  queueFull_complete inv.invalidateAllRequests.2 _

theorem full_of_still (still : c.Still c') :
    (c'.queueFull = true → c'.AllPending) ↔ (c.queueFull = true → c.AllPending) := by
  have full : c'.queueFull = c.queueFull := by
    rw [queueFull_eq, queueFull_eq, still.1, still.2]
  unfold AllPending
  simp only [full, still.2]

/-- A request keeps the property exactly when it fills the last free slot or the slot after
its own is free. -/
theorem full_of_sends {s : Submission} {ciphertext : Bytes} (sends : c.Sends c' s ciphertext) :
    (c'.queueFull = true → c'.AllPending) ↔
      ((c.queue.queue (PendingRequestQueue.nextIndex c.nextSlot)).valid = true →
        ∀ k, k ≠ c.nextSlot → (c.queue.queue k).valid = true) := by
  have full : c'.queueFull = true ↔
      (c.queue.queue (PendingRequestQueue.nextIndex c.nextSlot)).valid = true := by
    rw [queueFull_eq, sends.nextSlot, sends.valid_iff]
    simp [nextIndex_ne]
  rw [full]
  refine imp_congr_right fun _ => forall_congr' fun k => ?_
  rw [sends.valid_iff]
  exact or_iff_not_imp_left

/-- While the queue is full, a response keeps the property exactly when it completes no slot
but the current one. -/
theorem full_of_deliver (d : Delivery) (now : c.queueFull = true → c.AllPending) :
    ((c.deliver gcm d).queueFull = true → (c.deliver gcm d).AllPending) ↔
      (c.queueFull = true → ∀ k, c.completedSlot gcm d = some k → k = c.nextSlot) := by
  have next : (c.deliver gcm d).nextSlot = c.nextSlot :=
    congrArg acceptedIndex (deliver_currentSeqOp gcm c d)
  have full : (c.deliver gcm d).queueFull = true ↔
      c.queueFull = true ∧ c.completedSlot gcm d ≠ some c.nextSlot := by
    rw [queueFull_eq, queueFull_eq, next, deliver_valid_iff]
  rw [full]
  constructor
  · intro keeps isFull k completes
    by_contra other
    have still : c.completedSlot gcm d ≠ some c.nextSlot := by
      rw [completes]
      exact fun same => other (Option.some.inj same)
    exact ((deliver_valid_iff gcm c d k).mp (keeps ⟨isFull, still⟩ k)).2 completes
  · intro own both k
    rcases both with ⟨isFull, still⟩
    refine (deliver_valid_iff gcm c d k).mpr ⟨now isFull k, ?_⟩
    intro completes
    rw [own isFull k completes] at completes
    exact still completes

theorem fullMeansFull_move {id : UInt8} {s₀ : Nat} (inv : c.Inv id s₀) (m : Move)
    (now : c.FullMeansFull gcm) :
    (c.move gcm m).FullMeansFull gcm ↔ c.InOrder gcm m := by
  rw [fullMeansFull_iff] at now ⊢
  have submits : ∀ a : Action, (∀ d, a ≠ .poll d) →
      (((c.step gcm a).queueFull = true → (c.step gcm a).AllPending) ↔
        (SendsRequest gcm c a →
          (c.queue.queue (PendingRequestQueue.nextIndex c.nextSlot)).valid = true →
          ∀ k, k ≠ c.nextSlot → (c.queue.queue k).valid = true)) := by
    intro a notPoll
    by_cases request : SendsRequest gcm c a
    · rcases sends_of_sendsRequest request with ⟨s, ciphertext, sends⟩
      rw [full_of_sends sends]
      exact ⟨fun keeps _ => keeps, fun keeps => keeps request⟩
    · rw [full_of_still (still_of_not_sendsRequest request notPoll)]
      exact iff_of_true now fun sent => (request sent).elim
  cases m with
  | act a =>
      cases a with
      | poll d => exact full_of_deliver d now
      | call k iv enc => exact submits (.call k iv enc) (by simp)
      | sendDisconnect iv enc => exact submits (.sendDisconnect iv enc) (by simp)
  | sweep =>
      refine iff_of_true ?_ True.intro
      intro isFull
      rw [move_sweep, inv.queueFull_sweep] at isFull
      cases isFull
  | set encKey sessionNr connected => exact iff_of_true now True.intro

end Steps

/-- In every state of a run `queue_full` is true exactly when all slots are pending, if and
only if every move of the run meets the condition. -/
theorem queue_full_iff (gcm : AesGcm) (setup : Setup) (moves : List Move) :
    (∀ before, before <+: moves →
      (run (move gcm) setup.constructed before).FullMeansFull gcm) ↔
      Along (move gcm) (InOrder gcm) setup.constructed moves := by
  refine forall_prefix_iff_along
    (I := fun c : Client => c.Inv setup.id (seqOf setup.random))
    (fun _ m inv => inv_move inv gcm m) (fun _ m inv now => fullMeansFull_move inv m now)
    (ringed_constructed setup).inv ?_ moves
  rw [fullMeansFull_iff]
  intro isFull
  cases isFull

/-! ## Filling the ring -/

/-- After `n` more calls that sent their requests and were not answered. -/
structure Filled (n : Nat) (c c' : Client) : Prop where
  count : c'.sent.length = c.sent.length + n
  calls : c'.calls = c.calls + n
  slots : ∀ k, (c.queue.queue k).valid = true → c'.queue.queue k = c.queue.queue k
  pending : ∃ new, c'.pending = c.pending ++ new
  encKey : c'.encKey = c.encKey
  mem : c'.mem = c.mem
  admits : ∀ s, c'.Admits s ↔ c.Admits s

section Fill

variable {id : UInt8} {s₀ : Nat} {gcm : AesGcm} {c : Client}

theorem Ringed.actions (ringed : c.Ringed id s₀) (gcm : AesGcm) (acts : List Action) :
    (run (step gcm) c acts).Ringed id s₀ := by
  obtain ⟨moves, eq⟩ : Moves gcm c (run (step gcm) c acts) := .actions c acts
  rw [eq]
  exact ringed_run ringed gcm moves

/-- As long as there is room, a call that is not answered takes the next slot. -/
theorem Ringed.fill (ringed : c.Ringed id s₀) {k : Call} {s : Submission}
    (submits : k.submission = some s) (admits : c.Admits s) (iv : Iv) {enc : EncEnv}
    (ok : enc.Ok) (n : Nat) (room : c.sent.length + n ≤ maxAcceptedResponses) :
    c.Filled n (run (step gcm) c (List.replicate n (.call k iv enc))) := by
  induction n with
  | zero => exact ⟨rfl, rfl, fun _ _ => rfl, ⟨[], by simp⟩, rfl, rfl, fun _ => Iff.rfl⟩
  | succ n ih =>
      have filled := ih (by omega)
      have here := ringed.actions gcm (List.replicate n (.call k iv enc))
      rw [List.replicate_succ', run_snoc]
      generalize run (step gcm) c (List.replicate n (.call k iv enc)) = c' at filled here ⊢
      have free : (c'.queue.queue c'.nextSlot).valid = false :=
        here.free_before (i := 0) (by rw [filled.count]; omega)
      obtain ⟨ciphertext, encrypts⟩ :=
        encryptMessage_succeeds ok gcm c'.encKey iv (c'.newTag s).header s.payload
      rw [step_call_of_encrypts submits ((filled.admits s).mpr admits) free encrypts]
      rcases filled.pending with ⟨pending, eqPending⟩
      refine ⟨?_, ?_, ?_, ?_, filled.encKey, filled.mem, filled.admits⟩
      · change (c'.sent ++ [_]).length = _
        rw [List.length_append, filled.count]
        rfl
      · change c'.calls + 1 = _
        rw [filled.calls, Nat.add_assoc]
      · intro j valid
        have kept := filled.slots j valid
        refine (c'.enqueue_queue_of_ne s ciphertext ?_).trans kept
        rintro rfl
        rw [← kept, free] at valid
        cases valid
      · change ∃ new, c'.pending ++ [_] = c.pending ++ new
        exact ⟨_, by rw [eqPending, List.append_assoc]⟩

/-- What a response completes stays the same while the ring fills. -/
theorem Filled.completedSlot {n : Nat} {c' : Client} (filled : c.Filled n c') {d : Delivery}
    {p : Nat × Slot} (found : c.pending.find? (·.1 == d.call) = some p)
    (waiting : (c.queue.queue p.2).valid = true) {k : Slot}
    (completes : c.completedSlot gcm d = some k) : c'.completedSlot gcm d = some k := by
  rcases filled.pending with ⟨new, eq⟩
  unfold Client.completedSlot at completes ⊢
  rw [eq, List.find?_append, found, Option.some_or, Option.bind_some, filled.encKey, filled.mem,
    filled.slots p.2 waiting]
  rw [found, Option.bind_some] at completes
  rcases Option.bind_eq_some_iff.mp completes with ⟨v, answered, named⟩
  rw [answered, Option.bind_some]
  split at named
  · rename_i valid
    rw [filled.slots _ valid, if_pos valid]
    exact named
  · cases named

end Fill

end Client

/-! ## A queue that is not full -/

namespace Sample

/-- A ring of puts, of which the second has sequence number 12. -/
def fill : List Client.Action :=
  twoPuts ++ List.replicate 1022 (.call (putCall 44) (.ofNat 3) enc)

/-- The client that sent them. -/
def filled : Client := run (Client.step .checksum) (setup 10).client fill

/-- The client after the first two. -/
def two : Client := run (Client.step .checksum) (setup 10).client twoPuts

theorem two_filled : two.Filled 1022 filled ∧ filled.Ringed 7 10 := by
  have start : (setup 10).client.Ringed 7 (seqOf (setup 10).random) :=
    Client.ringed_run (Client.ringed_constructed (setup 10)) .checksum
      [.set (List.replicate 16 5) 0 true]
  have ringed : two.Ringed 7 (seqOf (setup 10).random) := start.actions .checksum twoPuts
  have eq : filled = run (Client.step .checksum) two
      (List.replicate 1022 (.call (putCall 44) (.ofNat 3) enc)) := run_append ..
  have length : two.sent.length = 2 := by decide +kernel
  rw [eq]
  refine ⟨ringed.fill (k := putCall 44) rfl (by decide +kernel) (.ofNat 3) (EncEnv.ok_ok _) 1022
    (by rw [length]; decide), ?_⟩
  have number : seqOf (setup 10).random = 10 := by decide
  rw [← number]
  exact ringed.actions .checksum _

/-- In the full ring the next slot is that of the first put again. -/
theorem nextSlot_filled : filled.nextSlot = slot 10 := by
  rcases two_filled with ⟨filling, ringed⟩
  have length : two.sent.length = 2 := by decide +kernel
  apply Fin.ext
  rw [ringed.inv.numbered.val_nextSlot, filling.count, length]
  decide

/-- The response to the second put completes it. -/
theorem completedSlot_filled :
    filled.completedSlot .checksum (arrives 1 (putResponse 12)) = some (slot 12) :=
  two_filled.1.completedSlot (p := (1, slot 12)) (by decide +kernel) (by decide +kernel)
    (by decide +kernel)

end Sample

/-- The second of 1024 puts is answered first: the queue is reported full, and a slot is
free. -/
theorem second_put_answered_first :
    let c := run (Client.move .checksum) (Sample.setup 10).constructed
      (.set (List.replicate 16 5) 0 true :: (Sample.fill.map .act ++
        [.act (.poll (Sample.arrives 1 (Sample.putResponse 12)))]))
    c.queueFull = true ∧ (c.queue.queue (Sample.slot 12)).valid = false := by
  have eq : run (Client.move .checksum) (Sample.setup 10).constructed
      (.set (List.replicate 16 5) 0 true :: (Sample.fill.map .act ++
        [.act (.poll (Sample.arrives 1 (Sample.putResponse 12)))])) =
      Sample.filled.deliver .checksum (Sample.arrives 1 (Sample.putResponse 12)) := by
    rw [run_cons, run_snoc, Client.run_act]
    rfl
  have first : (Sample.filled.queue.queue (Sample.slot 10)).valid = true := by
    rw [Sample.two_filled.1.slots (Sample.slot 10) (by decide +kernel)]
    decide +kernel
  have next : (Sample.filled.deliver .checksum
      (Sample.arrives 1 (Sample.putResponse 12))).nextSlot = Sample.slot 10 :=
    (congrArg acceptedIndex (Client.deliver_currentSeqOp ..)).trans Sample.nextSlot_filled
  dsimp only
  rw [eq]
  constructor
  · rw [Client.queueFull_eq, next, Client.deliver_valid_iff, Sample.completedSlot_filled]
    exact ⟨first, by decide⟩
  · rw [← Bool.not_eq_true, Client.deliver_valid_iff, Sample.completedSlot_filled]
    exact fun both => both.2 rfl

end NetworkStack
