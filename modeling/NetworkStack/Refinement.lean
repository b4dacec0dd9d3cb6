import NetworkStack.Network

/-!
# The stack refines a sequential store

Over an honest network, which hands every request to the thread once and in the
order it was issued, and delivers the responses in any order, the calls of the
client are calls of a sequential KV store (`Machine.execute` of the application's
functions): the same invocations with the same bytes, the same results in the
callbacks, the same values in the caller's buffers. Nothing bounds the run, so
the sequence number may wrap in it.

The invariant of honest runs has one part for each side. `Ordered` relates the
thread to the requests handed over so far; `Answered` relates the ring to the
responses that came back.
-/

namespace NetworkStack

open Machine

/-! ## Calls and requests -/

/-- The KV invocation a call asks for; nothing where a null pointer is refused. -/
def Client.Call.kvCall (k : Client.Call) : Option KvCall :=
  match k.request with
  | .get key _ _ => key.map .get
  | .put key value => key.bind fun bytes => value.map fun src => .put bytes src
  | .del key => key.map .delete

/-- A sent request asks for what the call asks for, and its tag holds the callback, the
user tag and, for a get, the pointers of the call. -/
structure Sent.IsFor (r : Sent) (k : Client.Call) : Prop where
  kvCall : r.message.kvCall = k.kvCall
  callback : r.tag.callback = k.callback.map .user
  userTag : r.tag.userTag = k.userTag
  pointers : ∀ key value len, k.request = .get key value len →
    r.tag.value = value ∧ r.tag.valueLen = len

namespace Client

/-- The request of a call asks for what the call asks for. -/
theorem isFor_of_submission (c : Client) {k : Call} {s : Submission}
    (submits : k.submission = some s) (ciphertext : Bytes) :
    Sent.IsFor ⟨c.nextSlot, c.newTag s, s.payload, ciphertext⟩ k ∧
      ∃ call, k.kvCall = some call := by
  have op : opOf (c.newTag s).header.seqOp = s.op.toNat :=
    (setOp_fields c.queue.currentSeqOp (by have := Call.submission_op submits; omega)).2.2
  obtain ⟨callback, userTag⟩ := Call.submission_callback submits
  rcases k with ⟨request, cb, tag, loopIterations⟩
  cases request with
  | get key value valueLen =>
      obtain ⟨bytes, rfl, rfl⟩ := Option.map_eq_some_iff.mp submits
      refine ⟨⟨?_, callback, userTag, ?_⟩, .get bytes, rfl⟩
      · unfold Message.kvCall Sent.message
        dsimp only
        rw [op]
        rfl
      · rintro _ _ _ ⟨⟩
        exact ⟨rfl, rfl⟩
  | put key value =>
      obtain ⟨bytes, rfl, rest⟩ := Option.bind_eq_some_iff.mp submits
      obtain ⟨src, rfl, rfl⟩ := Option.map_eq_some_iff.mp rest
      refine ⟨⟨?_, callback, userTag, by rintro _ _ _ ⟨⟩⟩, .put bytes src, rfl⟩
      unfold Message.kvCall Sent.message
      dsimp only
      rw [op]
      rfl
  | del key =>
      obtain ⟨bytes, rfl, rfl⟩ := Option.map_eq_some_iff.mp submits
      refine ⟨⟨?_, callback, userTag, by rintro _ _ _ ⟨⟩⟩, .delete bytes, rfl⟩
      unfold Message.kvCall Sent.message
      dsimp only
      rw [op]
      rfl

end Client

/-! ## The thread's side -/

/-- The thread has executed the first calls, one for each request it was handed, expects
the request after them, and answered each with the result of its call. -/
structure Ordered {σ : Type} (gcm : AesGcm) (encKey : Bytes) (kv : KvFunctions σ) (s : σ)
    (sent : List Sent) (calls : List KvCall) (srv : Server σ)
    (served : List (Bytes × Option Bytes)) : Prop where
  log : srv.kvLog.map Prod.snd = calls.take served.length
  state : srv.kv = (execute kv.invoke s (calls.take served.length)).1
  fresh : served = [] → srv.thread.nextSeq = 0
  expects : ∀ (i : Nat) (r : Sent), served.length = i + 1 → sent[i]? = some r →
    srv.thread.nextSeq = r.message.expected
  replies : ∀ (i : Nat) (entry : Bytes × Option Bytes), served[i]? = some entry →
    ∃ (r : Sent) (b : Bytes) (result : Option Bytes), sent[i]? = some r ∧
      entry = (r.ciphertext, some b) ∧ (execute kv.invoke s calls).2[i]? = some result ∧
      openMessage gcm encKey b = some (r.message.response result)

section Thread

variable {σ : Type} {gcm : AesGcm} {encKey : Bytes} {cfg : ServerConfig} {kv : KvFunctions σ}
  {s : σ} {sent : List Sent} {calls : List KvCall} {srv : Server σ}
  {served : List (Bytes × Option Bytes)}

theorem Ordered.length_le (ordered : Ordered gcm encKey kv s sent calls srv served) :
    served.length ≤ sent.length ∧ served.length ≤ calls.length := by
  cases served with
  | nil => exact ⟨Nat.zero_le _, Nat.zero_le _⟩
  | cons entry rest =>
      obtain ⟨last, isLast⟩ : ∃ last, (entry :: rest)[rest.length]? = some last :=
        ⟨_, List.getElem?_eq_getElem (Nat.lt_succ_self rest.length)⟩
      obtain ⟨r, b, result, at_, -, answer, -⟩ := ordered.replies rest.length last isLast
      have lt := (List.getElem?_eq_some_iff.mp at_).1
      have lt' := (List.getElem?_eq_some_iff.mp answer).1
      rw [length_execute] at lt'
      exact ⟨lt, lt'⟩

/-- New requests change nothing for the thread. -/
theorem Ordered.grow (ordered : Ordered gcm encKey kv s sent calls srv served)
    (newSent : List Sent) (newCalls : List KvCall) :
    Ordered gcm encKey kv s (sent ++ newSent) (calls ++ newCalls) srv served := by
  obtain ⟨sentLe, callsLe⟩ := ordered.length_le
  have upTo : (calls ++ newCalls).take served.length = calls.take served.length :=
    List.take_append_of_le_length callsLe
  refine ⟨by rw [upTo]; exact ordered.log, by rw [upTo]; exact ordered.state, ordered.fresh, ?_, ?_⟩
  · intro i r length at_
    rw [List.getElem?_append_left (by omega)] at at_
    exact ordered.expects i r length at_
  · intro i entry at_
    obtain ⟨r, b, result, atSent, eq, answer, opens⟩ := ordered.replies i entry at_
    obtain ⟨rest, grown⟩ := prefix_execute_append kv.invoke s calls newCalls
    refine ⟨r, b, result, ?_, eq, ?_, opens⟩
    · rw [List.getElem?_append_left (List.getElem?_eq_some_iff.mp atSent).1]
      exact atSent
    · rw [← grown, List.getElem?_append_left (List.getElem?_eq_some_iff.mp answer).1]
      exact answer

/-- The next request is accepted: its number is the expected one, or nothing is expected. -/
theorem Ordered.accepts (ordered : Ordered gcm encKey kv s sent calls srv served) {s₀ : Nat}
    (seq : ∀ (i : Nat) (r : Sent), sent[i]? = some r →
      seqOf r.tag.header.seqOp = (s₀ + 2 * i) % seqModulus)
    {r : Sent} (at_ : sent[served.length]? = some r)
    (ownId : idOf r.message.seqOp = srv.thread.clientId.toNat) :
    srv.thread.Accepts r.message.seqOp := by
  refine ⟨ownId, ?_⟩
  cases length : served.length with
  | zero => exact Or.inl (ordered.fresh (List.eq_nil_of_length_eq_zero length))
  | succ i =>
      have lt := (List.getElem?_eq_some_iff.mp at_).1
      obtain ⟨t, before⟩ : ∃ t, sent[i]? = some t := ⟨_, List.getElem?_eq_getElem (by omega)⟩
      have expected : seqOf srv.thread.nextSeq = (s₀ + 2 * (i + 1)) % seqModulus := by
        rw [ordered.expects i t length before, Message.expected, seqOf_expected]
        change (seqOf t.tag.header.seqOp + 2) % seqModulus = _
        rw [seq i t before, Nat.mod_add_mod]
        rfl
      have number : seqOf r.message.seqOp = (s₀ + 2 * (i + 1)) % seqModulus := by
        rw [length] at at_
        exact seq (i + 1) r at_
      right
      rw [number, expected, Int.sub_self]
      exact Nat.zero_le _

/-- Handing over the next request keeps the thread's side. -/
theorem Ordered.serve (ordered : Ordered gcm encKey kv s sent calls srv served)
    (key : cfg.encKey = encKey) {d : Incoming} {r : Sent} {call : KvCall}
    (at_ : sent[served.length]? = some r) (callAt : calls[served.length]? = some call)
    (asks : r.message.kvCall = some call) (brings : d.message gcm cfg = some r.message)
    (accepted : srv.thread.Accepts r.message.seqOp) (ok : d.env.enc.Ok)
    (fits : ∀ v, (kv.invoke srv.kv call).2 = some v → ciphertextSize v.length ≤ cfg.maxMsgSize)
    (empty : ciphertextSize 0 ≤ cfg.maxMsgSize) :
    Ordered gcm encKey kv s sent calls (srv.serve gcm cfg kv d)
      (served ++ [(r.ciphertext, srv.reply gcm cfg kv d)]) := by
  obtain ⟨handled, answers⟩ := handle_of_accepts kv asks accepted
  have served' : srv.serve gcm cfg kv d = srv.handle kv r.message := by
    rw [serve_eq, brings]
    rfl
  have fitsAnswer : ciphertextSize (r.message.response (kv.invoke srv.kv call).2).value.length ≤
      cfg.maxMsgSize := by
    cases result : (kv.invoke srv.kv call).2 with
    | none => exact empty
    | some v => exact fits v result
  obtain ⟨out, sentOut, opens⟩ := reply_of_answer brings answers fitsAnswer ok
  have next : calls.take (served.length + 1) = calls.take served.length ++ [call] := by
    rw [List.take_add_one, callAt, Option.toList_some]
  rw [served', handled, sentOut]
  refine ⟨?_, ?_, ?_, ?_, ?_⟩
  · rw [List.length_append, List.length_singleton, next, List.map_append, ordered.log]
    rfl
  · rw [List.length_append, List.length_singleton, next, execute_snoc, ← ordered.state]
  · intro nothing
    simp at nothing
  · intro i t length atI
    rw [List.length_append, List.length_singleton, Nat.add_right_cancel_iff] at length
    subst length
    cases at_.symm.trans atI
    rfl
  · intro i entry atI
    rcases getElem?_snoc atI with old | ⟨rfl, rfl⟩
    · exact ordered.replies i entry old
    · refine ⟨r, out, _, at_, rfl, getElem?_execute kv.invoke s callAt, ?_⟩
      rw [← ordered.state, ← key]
      exact opens

end Thread

/-! ## The client's side -/

namespace Client

/-- What a callback is told about the result of a KV invocation. -/
def status (result : Option Bytes) : RetVal := if result.isSome then .opSuccess else .opFailed

/-- A request whose continuation is still to run is in its slot, and every other one has
been completed with its result. -/
structure Answered (c : Client) (results : List (Option Bytes)) : Prop where
  waiting : ∀ r ∈ c.sent, r.tag.call ∈ c.pending.map Prod.fst → c.queue.queue r.slot = r.tag
  settled : ∀ (i : Nat) (r : Sent), c.sent[i]? = some r → r.tag.call ∉ c.pending.map Prod.fst →
    ∃ result, results[i]? = some result ∧
      c.completionsOf r.tag.call = (r.tag.invalidate (status result)).2.toList

section Answers

variable {id : UInt8} {s₀ : Nat} {c : Client} {results : List (Option Bytes)} {gcm : AesGcm}

theorem Answered.grow (answered : c.Answered results) (new : List (Option Bytes)) :
    c.Answered (results ++ new) := by
  refine ⟨answered.waiting, ?_⟩
  intro i r at_ done
  obtain ⟨result, answer, completed⟩ := answered.settled i r at_ done
  refine ⟨result, ?_, completed⟩
  rw [List.getElem?_append_left (List.getElem?_eq_some_iff.mp answer).1]
  exact answer

/-- A request that waits in its slot does not wait in a free one. -/
theorem Inv.slot_ne_nextSlot (inv : c.Inv id s₀) {r : Sent} (member : r ∈ c.sent)
    (inSlot : c.queue.queue r.slot = r.tag)
    (free : (c.queue.queue c.nextSlot).valid = false) : r.slot ≠ c.nextSlot := by
  intro same
  rw [← same, inSlot, inv.numbered.valid r member] at free
  cases free

theorem Answered.giveBack (answered : c.Answered results) (inv : c.Inv id s₀) (s : Submission)
    (free : (c.queue.queue c.nextSlot).valid = false) :
    (c.giveBack s).Answered results := by
  refine ⟨?_, answered.settled⟩
  intro r member pending
  have inSlot := answered.waiting r member pending
  have other : (c.giveBack s).queue.queue r.slot = c.queue.queue r.slot :=
    PendingRequestQueue.setTag_queue_of_ne _ _ (inv.slot_ne_nextSlot member inSlot free)
  rw [other]
  exact inSlot

theorem Answered.enqueue (answered : c.Answered results) (inv : c.Inv id s₀) (s : Submission)
    (free : (c.queue.queue c.nextSlot).valid = false) (ciphertext : Bytes) :
    (c.enqueue s ciphertext).Answered results := by
  have pendingIff : ∀ r ∈ c.sent, (r.tag.call ∈ (c.enqueue s ciphertext).pending.map Prod.fst ↔
      r.tag.call ∈ c.pending.map Prod.fst) := by
    intro r member
    change r.tag.call ∈ (c.pending ++ [(c.calls, c.nextSlot)]).map Prod.fst ↔ _
    have old := inv.numbered.call r member
    rw [List.map_append, List.mem_append]
    refine or_iff_left ?_
    intro own
    rw [List.map_singleton, List.mem_singleton] at own
    omega
  have newPending : c.calls ∈ (c.enqueue s ciphertext).pending.map Prod.fst :=
    List.mem_map_of_mem (f := Prod.fst) (List.mem_append_right _ (List.mem_singleton_self _))
  refine ⟨?_, ?_⟩
  · intro r member pending
    rw [enqueue_queue]
    rcases List.mem_append.mp member with old | new
    · have inSlot := answered.waiting r old ((pendingIff r old).mp pending)
      rw [PendingRequestQueue.setTag_queue_of_ne _ _ (inv.slot_ne_nextSlot old inSlot free)]
      exact inSlot
    · rw [List.mem_singleton.mp new, PendingRequestQueue.setTag_queue_self]
  · intro i r at_ done
    change (c.sent ++ [_])[i]? = some r at at_
    rcases getElem?_snoc at_ with old | ⟨-, rfl⟩
    · rw [pendingIff r (List.mem_of_getElem? old)] at done
      exact answered.settled i r old done
    · exact (done newPending).elim

theorem Answered.call (answered : c.Answered results) (inv : c.Inv id s₀) (k : Call) (iv : Iv)
    (enc : EncEnv) : (c.step gcm (.call k iv enc)).Answered results := by
  rcases c.step_call_cases gcm k iv enc with eq | eq | ⟨s, -, -, free, eq | ⟨text, -, eq⟩⟩
  · rwa [eq]
  · rw [eq]
    exact ⟨answered.waiting, answered.settled⟩
  · rw [eq]
    have kept := answered.giveBack inv s free
    exact ⟨kept.waiting, kept.settled⟩
  · rw [eq]
    have kept := answered.enqueue inv s free text
    exact ⟨kept.waiting, kept.settled⟩

/-- The bytes that arrive for a request carry the response with its result. -/
structure Responds (gcm : AesGcm) (c : Client) (d : Delivery) (r : Sent)
    (result : Option Bytes) : Prop where
  env : d.env.Ok
  sent : r ∈ c.sent
  call : r.tag.call = d.call
  request : opOf r.tag.header.seqOp ≠ 3
  opens : openMessage gcm c.encKey d.response = some (r.message.response result)

variable {d : Delivery} {r : Sent} {result : Option Bytes}

/-- The response answers its request with its result. -/
theorem Responds.verdict_eq (responds : c.Responds gcm d r result) (mem : Mem) :
    verdict gcm c.encKey r.tag mem d = some (status result, d.word gcm c.encKey) ∧
      Answers (d.word gcm c.encKey) r.tag := by
  have decrypts : d.Decrypts gcm c.encKey r.tag.value mem :=
    decryptMessage_of_open responds.env responds.opens
  obtain ⟨m, opens, word⟩ := decrypts.opens
  cases responds.opens.symm.trans opens
  obtain ⟨seq, idEq, op⟩ := r.message.response_fields result
  have answers : Answers (d.word gcm c.encKey) r.tag := by
    rw [word]
    exact ⟨seq, idEq⟩
  refine ⟨?_, answers⟩
  unfold verdict status
  dsimp only
  rw [if_pos decrypts, if_pos answers, word, op]
  cases result with
  | none =>
      have differs : opOf r.tag.header.seqOp ≠ 3 := responds.request
      simp [differs]
  | some v => simp [Sent.message]

/-- While its continuation is still to run, the request is the one eRPC runs it for. -/
theorem Responds.find (responds : c.Responds gcm d r result) (inv : c.Inv id s₀)
    (pending : d.call ∈ c.pending.map Prod.fst) :
    c.pending.find? (·.1 == d.call) = some (d.call, r.slot) := by
  rcases List.mem_map.mp pending with ⟨p, member, own⟩
  rcases inv.outstanding.sent p member with ⟨t, sent, call, slot⟩
  cases inv.numbered.sent_eq sent responds.sent (by rw [call, own, responds.call])
  rw [← own, inv.outstanding.find_eq member, slot]

/-- The continuation completes its own slot, and a value it succeeds with is in the
caller's memory. -/
theorem Responds.deliver_eq (responds : c.Responds gcm d r result) (inv : c.Inv id s₀)
    (answered : c.Answered results) (pending : d.call ∈ c.pending.map Prod.fst) :
    ∃ mem, c.deliver gcm d =
        ({ c with pending := c.pending.erase (d.call, r.slot), mem := mem } : Client).completeSlot
          r.slot (status result) ∧
      ∀ v, result = some v →
        (∀ a, r.tag.value = some a → mem.read (.caller a) v.length = v) ∧
          ∀ cell, r.tag.valueLen = some cell → mem.sizes cell = v.length := by
  have found := responds.find inv pending
  have inSlot := answered.waiting r responds.sent (responds.call ▸ pending)
  obtain ⟨verdictEq, answers⟩ := responds.verdict_eq c.mem
  have named : namedSlot (d.word gcm c.encKey) = r.slot :=
    answers.namedSlot_eq.trans (inv.numbered.slot r responds.sent).symm
  obtain ⟨mem, ran, stores⟩ := decryptContFunc_eq gcm
    { c with pending := c.pending.erase (d.call, r.slot) } r.slot d
  dsimp only at ran stores
  rw [inSlot, verdictEq] at ran
  rw [inSlot] at stores
  refine ⟨mem, ?_, ?_⟩
  · unfold Client.deliver
    rw [found]
    dsimp only
    rw [ran]
    dsimp only [settle]
    rw [named, inSlot, inv.numbered.valid r responds.sent, if_pos rfl]
  · rintro v rfl
    have decrypts : d.Decrypts gcm c.encKey r.tag.value c.mem :=
      decryptMessage_of_open responds.env responds.opens
    obtain ⟨m, opens, carries⟩ := decryptMessage_ok r.tag.value decrypts
    cases responds.opens.symm.trans opens
    rw [stores _ verdictEq]
    constructor
    · intro a isBuffer
      have read := carries.value
      rw [carries.buffer a isBuffer] at read
      unfold storeValueLen
      cases r.tag.valueLen with
      | none => exact read
      | some cell => exact read
    · intro cell isCell
      rw [isCell, carries.valueLen]
      exact Function.update_self ..

/-- The continuation of one call has run, and all others are still to run. -/
theorem Inv.mem_pending_erase_iff (inv : c.Inv id s₀) {n : Nat} {k : Slot}
    (member : (n, k) ∈ c.pending) (m : Nat) :
    m ∈ (c.pending.erase (n, k)).map Prod.fst ↔ m ≠ n ∧ m ∈ c.pending.map Prod.fst := by
  have nodup : c.pending.Nodup := inv.outstanding.nodup.of_map
  constructor
  · intro among
    obtain ⟨p, left, rfl⟩ := List.mem_map.mp among
    obtain ⟨other, before⟩ := nodup.mem_erase_iff.mp left
    refine ⟨fun same => other ?_, List.mem_map_of_mem before⟩
    exact List.inj_on_of_nodup_map inv.outstanding.nodup before member same
  · intro left
    rcases left with ⟨ne, among⟩
    obtain ⟨p, before, rfl⟩ := List.mem_map.mp among
    refine List.mem_map_of_mem (nodup.mem_erase_iff.mpr ⟨?_, before⟩)
    rintro rfl
    exact ne rfl

/-- Completing the slot of a request with its result, when its continuation has run, keeps
the client's side. -/
theorem Answered.completeSlot (answered : c.Answered results) (inv : c.Inv id s₀) {i : Nat}
    (at_ : c.sent[i]? = some r) (answer : results[i]? = some result)
    (pending : (r.tag.call, r.slot) ∈ c.pending) (mem : Mem) :
    (({ c with pending := c.pending.erase (r.tag.call, r.slot), mem := mem } : Client).completeSlot
      r.slot (status result)).Answered results := by
  have sent := List.mem_of_getElem? at_
  have inSlot := answered.waiting r sent (List.mem_map_of_mem (f := Prod.fst) pending)
  have left := inv.mem_pending_erase_iff pending
  refine ⟨?_, ?_⟩
  · intro t member stillPending
    obtain ⟨other, before⟩ := (left t.tag.call).mp stillPending
    have there := answered.waiting t member before
    have slot : t.slot ≠ r.slot := by
      intro same
      rw [same, inSlot] at there
      exact other (congrArg SentMessageTag.call there).symm
    rw [completeSlot_queue_of_ne _ _ slot]
    exact there
  · intro j t atJ done
    have notLeft : ¬ (t.tag.call ≠ r.tag.call ∧ t.tag.call ∈ c.pending.map Prod.fst) :=
      mt (left t.tag.call).mpr done
    by_cases own : t.tag.call = r.tag.call
    · have index := inv.numbered.index_eq atJ at_ own
      subst index
      have same := Option.some.inj (atJ.symm.trans at_)
      subst same
      refine ⟨result, answer, ?_⟩
      have completed := completionsOf_completeSlot_self
        { c with pending := c.pending.erase (t.tag.call, t.slot), mem := mem } t.slot
        (status result)
      dsimp only at completed
      rw [inSlot] at completed
      rw [completed]
      rcases inv.occupied.accounted t sent with ⟨-, none_⟩ | ⟨gone, -⟩
      · change c.completionsOf t.tag.call ++ _ = _
        rw [none_, List.nil_append]
      · exact (gone inSlot).elim
    · obtain ⟨result', answer', completed⟩ := answered.settled j t atJ
        (fun among => notLeft ⟨own, among⟩)
      refine ⟨result', answer', ?_⟩
      rw [completionsOf_completeSlot_of_ne]
      · exact completed
      · dsimp only
        rw [inSlot]
        exact own

/-- A response that arrives keeps the client's side. -/
theorem Answered.deliver (answered : c.Answered results) (inv : c.Inv id s₀)
    (responds : c.Responds gcm d r result) {i : Nat} (at_ : c.sent[i]? = some r)
    (answer : results[i]? = some result) : (c.deliver gcm d).Answered results := by
  by_cases pending : d.call ∈ c.pending.map Prod.fst
  · obtain ⟨mem, ran, -⟩ := responds.deliver_eq inv answered pending
    have member := List.mem_of_find?_eq_some (responds.find inv pending)
    rw [← responds.call] at ran member
    rw [ran]
    exact answered.completeSlot inv at_ answer member mem
  · have same : c.deliver gcm d = c := by
      rcases c.deliver_cases gcm d with ⟨-, same⟩ | ⟨p, mem, found, -⟩
      · exact same
      · have own : p.1 = d.call := by simpa using List.find?_some found
        exact (pending (own ▸ List.mem_map_of_mem (List.mem_of_find?_eq_some found))).elim
    rwa [same]

end Answers

/-- What an action that is no disconnect message sends belongs to the calls it issues. -/
theorem step_issues (gcm : AesGcm) (c : Client) {a : Action} (ordinary : a.Ordinary) :
    ∃ new, (c.step gcm a).sent = c.sent ++ new ∧
      List.Forall₂ Sent.IsFor new (c.issues gcm a) ∧
      (c.issues gcm a).map Call.kvCall = ((c.issues gcm a).filterMap Call.kvCall).map some := by
  rcases c.step_sends gcm a with
    ⟨same, none_⟩ | ⟨k, iv, enc, s, text, -, submits, -, eq, one⟩ | ⟨iv, enc, text, rfl, -⟩
  · rw [none_, same]
    exact ⟨[], (List.append_nil _).symm, .nil, rfl⟩
  · obtain ⟨isFor, call, asks⟩ := c.isFor_of_submission submits text
    rw [one, eq]
    exact ⟨_, rfl, .cons isFor .nil, by simp [asks]⟩
  · exact ordinary.elim

end Client

/-! ## Honest runs -/

namespace System

variable {σ : Type}

/-- The KV invocations that the calls issued so far ask for, in order. -/
def requested (sys : System σ) : List KvCall := sys.issued.filterMap Client.Call.kvCall

/-- The network hands over every request once and in the order of issue, delivers to every
request only what the thread answered it with, and no library call fails in between. -/
def Honest (sys : System σ) : Action → Prop
  | .serve d => d.env.dec.Ok ∧ d.env.enc.Ok ∧
      (sys.client.sent.map (·.ciphertext))[sys.served.length]? = some d.ciphertext
  | .client (.poll d) => d.env.Ok ∧ ∃ i : Nat,
      (sys.client.sent.map (·.tag.call))[i]? = some d.call ∧
      (sys.served.map Prod.snd)[i]? = some (some d.response)
  | .client (.call _ _ _) => True
  | .client (.sendDisconnect _ _) => False

/-- The system as a sequential store that was called with the calls issued so far: each asks
for one invocation; as many as were handed over were invoked, in order, and left the state
they leave one after another; and of the calls that returned 0 each has had its callback
invoked once, with its result and its own user tag, unless its continuation is still to
run. -/
structure Simulates (kv : KvFunctions σ) (s : σ) (sys : System σ) : Prop where
  asks : sys.issued.map Client.Call.kvCall = sys.requested.map some
  numbered : sys.client.accepted.length = sys.issued.length
  invoked : sys.server.kvLog.map Prod.snd = sys.requested.take sys.served.length
  state : sys.server.kv = (execute kv.invoke s (sys.requested.take sys.served.length)).1
  completed : ∀ (i : Nat) (k : Client.Call) (n : Nat) (result : Option Bytes),
    sys.issued[i]? = some k → sys.client.accepted[i]? = some n →
    (execute kv.invoke s sys.requested).2[i]? = some result →
    sys.client.completionsOf n =
      if n ∈ sys.client.pending.map Prod.fst then []
      else (k.callback.map fun cb => ⟨n, .user cb, Client.status result, k.userTag⟩).toList
  others : ∀ n, n ∉ sys.client.accepted → sys.client.completionsOf n = []

/-- When the continuation of a successful get runs, the caller's buffer and length cell hold
what the store returns for it. -/
def DeliversValue (gcm : AesGcm) (kv : KvFunctions σ) (s : σ) (sys : System σ) : Action → Prop
  | .client (.poll d) => ∀ (i : Nat) (k : Client.Call) (key : Option Bytes)
      (value len : Option Nat) (v : Bytes), sys.issued[i]? = some k →
      k.request = .get key value len → sys.client.accepted[i]? = some d.call →
      d.call ∈ sys.client.pending.map Prod.fst →
      (execute kv.invoke s sys.requested).2[i]? = some (some v) →
      (∀ a, value = some a → (sys.client.deliver gcm d).mem.read (.caller a) v.length = v) ∧
        ∀ cell, len = some cell → (sys.client.deliver gcm d).mem.sizes cell = v.length
  | _ => True

/-- The invariant of honest runs. -/
structure Refined (gcm : AesGcm) (kv : KvFunctions σ) (setup : Client.Setup) (s : σ)
    (sys : System σ) : Prop where
  inv : sys.Inv gcm setup
  accepted : sys.client.sent.map (·.tag.call) = sys.client.accepted
  matched : List.Forall₂ Sent.IsFor sys.client.sent sys.issued
  asks : sys.issued.map Client.Call.kvCall = sys.requested.map some
  ordered : Ordered gcm setup.encKey kv s sys.client.sent sys.requested sys.server sys.served
  answered : sys.client.Answered (execute kv.invoke s sys.requested).2

section Runs

variable {gcm : AesGcm} {cfg : ServerConfig} {kv : KvFunctions σ} {setup : Client.Setup} {s : σ}
  {sys : System σ}

theorem refined_init (gcm : AesGcm) (kv : KvFunctions σ) (setup : Client.Setup) (s : σ) :
    (System.init setup s).Refined gcm kv setup s := by
  refine ⟨inv_init gcm setup s, rfl, .nil, rfl, ⟨rfl, rfl, fun _ => rfl, ?_, ?_⟩, ⟨?_, ?_⟩⟩
  · intro i r length
    cases length
  · intro i entry at_
    cases at_
  · intro r member
    cases member
  · intro i r at_
    cases at_

/-- The call that a sent request is for. -/
theorem Refined.call_at (refined : sys.Refined gcm kv setup s) {i : Nat} {r : Sent}
    (at_ : sys.client.sent[i]? = some r) :
    ∃ k call, sys.issued[i]? = some k ∧ r.IsFor k ∧ sys.requested[i]? = some call ∧
      r.message.kvCall = some call := by
  obtain ⟨lt, rfl⟩ := List.getElem?_eq_some_iff.mp at_
  have lt' : i < sys.issued.length := refined.matched.length_eq ▸ lt
  have isFor := refined.matched.get lt lt'
  have asks := congrArg (·[i]?) refined.asks
  rw [List.getElem?_map, List.getElem?_map, List.getElem?_eq_getElem lt'] at asks
  obtain ⟨call, callAt, isCall⟩ := Option.map_eq_some_iff.mp asks.symm
  exact ⟨_, call, List.getElem?_eq_getElem lt', isFor, callAt, isFor.kvCall.trans isCall.symm⟩

/-- What an honest delivery brings to the client. -/
theorem Refined.responds (refined : sys.Refined gcm kv setup s) {d : Delivery}
    (honest : sys.Honest (.client (.poll d))) :
    ∃ (i : Nat) (r : Sent) (result : Option Bytes), sys.client.sent[i]? = some r ∧
      (execute kv.invoke s sys.requested).2[i]? = some result ∧
      sys.client.Responds gcm d r result := by
  obtain ⟨ok, i, callAt, responseAt⟩ := honest
  rw [List.getElem?_map] at callAt responseAt
  obtain ⟨entry, entryAt, response⟩ := Option.map_eq_some_iff.mp responseAt
  obtain ⟨r, b, result, at_, rfl, answer, opens⟩ := refined.ordered.replies i entry entryAt
  cases response
  rw [at_] at callAt
  obtain ⟨k, call, -, -, -, asks⟩ := refined.call_at at_
  refine ⟨i, r, result, at_, answer, ok, List.mem_of_getElem? at_, Option.some.inj callAt, ?_, ?_⟩
  · intro isErr
    rw [(r.message.kvCall_eq_none_iff).mpr isErr] at asks
    cases asks
  · rw [refined.inv.under.encKey]
    exact opens

/-- An action of the client keeps the invariant. -/
theorem refined_client (small : setup.maxKeySize < 2 ^ 64) (refined : sys.Refined gcm kv setup s)
    {a : Client.Action} (honest : sys.Honest (.client a)) :
    (sys.step gcm cfg kv (.client a)).Refined gcm kv setup s := by
  have ordinary : a.Ordinary := by
    cases a with
    | sendDisconnect iv enc => exact honest
    | call k iv enc => exact True.intro
    | poll d => exact True.intro
  obtain ⟨new, sent, isFor, asks⟩ := sys.client.step_issues gcm ordinary
  have requested : (sys.step gcm cfg kv (.client a)).requested =
      sys.requested ++ (sys.client.issues gcm a).filterMap Client.Call.kvCall :=
    List.filterMap_append
  obtain ⟨later, results⟩ := prefix_execute_append kv.invoke s sys.requested
    ((sys.client.issues gcm a).filterMap Client.Call.kvCall)
  have answered : (sys.client.step gcm a).Answered (execute kv.invoke s sys.requested).2 := by
    cases a with
    | sendDisconnect iv enc => exact ordinary.elim
    | call k iv enc => exact refined.answered.call refined.inv.client k iv enc
    | poll d =>
        obtain ⟨i, r, result, at_, answer, responds⟩ := refined.responds honest
        exact refined.answered.deliver refined.inv.client responds at_ answer
  refine ⟨inv_step small refined.inv _, Client.step_accepted gcm refined.accepted ordinary, ?_, ?_,
    ?_, ?_⟩
  · change List.Forall₂ _ (sys.client.step gcm a).sent (sys.issued ++ sys.client.issues gcm a)
    rw [sent]
    exact List.rel_append refined.matched isFor
  · rw [requested]
    change (sys.issued ++ sys.client.issues gcm a).map _ = _
    rw [List.map_append, List.map_append, refined.asks, asks]
  · rw [requested]
    change Ordered _ _ _ _ (sys.client.step gcm a).sent _ _ _
    rw [sent]
    exact refined.ordered.grow new _
  · rw [requested, ← results]
    exact answered.grow later

/-- Every call whose continuation has run was handed to the thread. -/
def Attended (sys : System σ) : Prop :=
  ∀ (i : Nat) (r : Sent), sys.client.sent[i]? = some r →
    r.tag.call ∉ sys.client.pending.map Prod.fst → i < sys.served.length

/-- The client's actions keep the calls that wait waiting, apart from the continuation that
is run. -/
theorem attended_client (cfg : ServerConfig) (kv : KvFunctions σ) (inv : sys.Inv gcm setup)
    (attended : sys.Attended) {a : Client.Action}
    (honest : ∀ d, a = .poll d → sys.Honest (.client (.poll d))) :
    (sys.step gcm cfg kv (.client a)).Attended := by
  intro j r at_ done
  change (sys.client.step gcm a).sent[j]? = some r at at_
  change r.tag.call ∉ (sys.client.step gcm a).pending.map Prod.fst at done
  change j < sys.served.length
  rcases sys.client.step_cases gcm a with ⟨d, rfl⟩ | ⟨-, c', calls, returned, eq, -, left⟩
  · change (sys.client.deliver gcm d).sent[j]? = some r at at_
    change r.tag.call ∉ (sys.client.deliver gcm d).pending.map Prod.fst at done
    rw [(sys.client.deliver_sent gcm d).1] at at_
    by_cases waited : r.tag.call ∈ sys.client.pending.map Prod.fst
    · -- it waited before, so that this is the continuation that was run
      have own : r.tag.call = d.call := by
        rcases sys.client.deliver_cases gcm d with ⟨-, same⟩ | ⟨p, mem, found, ran⟩
        · rw [same] at done
          exact (done waited).elim
        · have call : p.1 = d.call := by simpa using List.find?_some found
          rw [ran, Client.settle_pending] at done
          by_contra other
          rw [← call] at other
          exact done ((inv.client.mem_pending_erase_iff
            (List.mem_of_find?_eq_some found) _).mpr ⟨other, waited⟩)
      obtain ⟨-, i, callAt, responseAt⟩ := honest d rfl
      rw [List.getElem?_map] at callAt
      obtain ⟨t, atI, call⟩ := Option.map_eq_some_iff.mp callAt
      cases inv.client.numbered.index_eq at_ atI (own.trans call.symm)
      have lt := (List.getElem?_eq_some_iff.mp responseAt).1
      rwa [List.length_map] at lt
    · exact attended j r at_ waited
  · rw [eq] at at_ done
    rcases left with rfl | ⟨s, -, -, -, rfl | ⟨enc, iv, text, -, rfl⟩⟩
    · exact attended j r at_ done
    · exact attended j r at_ done
    · rcases getElem?_snoc at_ with old | ⟨-, rfl⟩
      · refine attended j r old fun waited => done ?_
        exact List.map_subset Prod.fst (List.subset_append_left _ _) waited
      · exact (done (List.mem_map_of_mem (f := Prod.fst)
          (List.mem_append_right _ (List.mem_singleton_self _)))).elim

/-- The values the store returned so far fit in an entry. -/
def ValuesFit (kv : KvFunctions σ) (s : σ) (maxEntrySize : Nat) (sys : System σ) : Prop :=
  ∀ v, some v ∈ (execute kv.invoke s sys.requested).2 → v.length ≤ maxEntrySize

/-- A delivery to the thread keeps the invariant. -/
theorem refined_serve (small : setup.maxKeySize < 2 ^ 64) {maxEntrySize : Nat}
    (config : cfg = ⟨setup.encKey, ciphertextSize maxEntrySize⟩)
    (values : sys.ValuesFit kv s maxEntrySize)
    (refined : sys.Refined gcm kv setup s) {d : Incoming} (honest : sys.Honest (.serve d)) :
    (sys.step gcm cfg kv (.serve d)).Refined gcm kv setup s := by
  obtain ⟨decOk, encOk, textAt⟩ := honest
  rw [List.getElem?_map] at textAt
  obtain ⟨r, at_, same⟩ := Option.map_eq_some_iff.mp textAt
  have sent := List.mem_of_getElem? at_
  have key : cfg.encKey = setup.encKey := by rw [config]
  obtain ⟨k, call, -, -, callAt, asks⟩ := refined.call_at at_
  have brings := message_of_sent key refined.inv decOk sent same
  have ownId : idOf r.message.seqOp = sys.server.thread.clientId.toNat := by
    rw [refined.inv.clientId]
    exact refined.inv.client.numbered.sentId r sent
  have accepted := refined.ordered.accepts refined.inv.client.numbered.seq at_ ownId
  refine ⟨inv_step small refined.inv _, refined.accepted, refined.matched, refined.asks, ?_,
    refined.answered⟩
  have next := refined.ordered.serve key at_ callAt asks brings accepted encOk ?_ ?_
  · rw [same] at next
    exact next
  · intro v answers
    have answer := getElem?_execute kv.invoke s callAt
    rw [← refined.ordered.state, answers] at answer
    rw [config]
    exact Nat.add_le_add_right (values v (List.mem_of_getElem? answer)) _
  · rw [config]
    exact Nat.add_le_add_right (Nat.zero_le _) _

theorem exists_run_requested (gcm : AesGcm) (cfg : ServerConfig) (kv : KvFunctions σ)
    (sys : System σ) (acts : List Action) :
    ∃ later, (run (step gcm cfg kv) sys acts).requested = sys.requested ++ later := by
  refine run_invariant (I := fun t : System σ => ∃ later, t.requested = sys.requested ++ later) ?_
    ⟨[], (List.append_nil _).symm⟩ acts
  intro t a grown
  rcases grown with ⟨later, eq⟩
  cases a with
  | serve d => exact ⟨later, eq⟩
  | client a =>
      refine ⟨later ++ (t.client.issues gcm a).filterMap Client.Call.kvCall, ?_⟩
      rw [← List.append_assoc, ← eq]
      exact List.filterMap_append

/-- Values that fit at the end of a run fit before each of its steps. -/
theorem along_valuesFit {maxEntrySize : Nat} {acts : List Action}
    (values : (run (step gcm cfg kv) sys acts).ValuesFit kv s maxEntrySize) :
    Along (step gcm cfg kv) (fun sys _ => sys.ValuesFit kv s maxEntrySize) sys acts := by
  refine along_of_forall ?_
  rintro before a after rfl v member
  rw [run_append] at values
  obtain ⟨later, eq⟩ := exists_run_requested gcm cfg kv
    (run (step gcm cfg kv) sys before) (a :: after)
  refine values v ?_
  rw [eq]
  exact (prefix_execute_append kv.invoke s _ later).subset member

/-- The invariant says that the system simulates the store. -/
theorem Refined.simulates (refined : sys.Refined gcm kv setup s) : sys.Simulates kv s := by
  refine ⟨refined.asks, ?_, refined.ordered.log, refined.ordered.state, ?_, ?_⟩
  · rw [← refined.accepted, List.length_map]
    exact refined.matched.length_eq
  · intro i k n result kAt nAt answer
    rw [← refined.accepted, List.getElem?_map] at nAt
    obtain ⟨r, at_, rfl⟩ := Option.map_eq_some_iff.mp nAt
    have sent := List.mem_of_getElem? at_
    obtain ⟨k', call, kAt', isFor, -⟩ := refined.call_at at_
    cases kAt.symm.trans kAt'
    split
    · rename_i pending
      rcases refined.inv.client.occupied.accounted r sent with ⟨-, none_⟩ | ⟨gone, -⟩
      · exact none_
      · exact (gone (refined.answered.waiting r sent pending)).elim
    · rename_i done
      obtain ⟨result', answer', completed⟩ := refined.answered.settled i r at_ done
      cases answer.symm.trans answer'
      rw [completed, SentMessageTag.invalidate, isFor.callback, isFor.userTag, Option.map_map]
      rfl
  · intro n unsent
    rw [← refined.accepted] at unsent
    refine refined.inv.client.occupied.others n ?_
    rintro r member rfl
    exact unsent (List.mem_map_of_mem member)

/-- In a state of an honest run, a successful get finds its value. -/
theorem Refined.deliversValue (refined : sys.Refined gcm kv setup s) {a : Action}
    (honest : sys.Honest a) : sys.DeliversValue gcm kv s a := by
  rcases a with (_ | d | _) | _
  · exact True.intro
  · intro i k key value len v kAt isGet callAt pending answer
    obtain ⟨j, r, result, at_, answer', responds⟩ := refined.responds honest
    rw [← refined.accepted, List.getElem?_map] at callAt
    obtain ⟨t, atI, call⟩ := Option.map_eq_some_iff.mp callAt
    have index := refined.inv.client.numbered.index_eq atI at_ (call.trans responds.call.symm)
    subst index
    cases answer.symm.trans answer'
    obtain ⟨k', -, kAt', isFor, -⟩ := refined.call_at at_
    cases kAt.symm.trans kAt'
    obtain ⟨isValue, isLen⟩ := isFor.pointers key value len isGet
    obtain ⟨mem, ran, holds⟩ := responds.deliver_eq refined.inv.client refined.answered pending
    obtain ⟨buffer, cell⟩ := holds v rfl
    rw [isValue] at buffer
    rw [isLen] at cell
    rw [ran]
    exact ⟨buffer, cell⟩
  · exact True.intro
  · exact True.intro

/-- Over every honest run, of any length and from any initial sequence word: the system is a
sequential store in every state it reaches, and a successful get finds its value in the
caller's buffer. -/
theorem honest_run_simulates (gcm : AesGcm) (kv : KvFunctions σ) (setup : Client.Setup) (s : σ)
    {kMaxMsgSize maxEntrySize : Nat} {cfg : ServerConfig}
    (hosted : hostServer kMaxMsgSize setup.encKey maxEntrySize = some cfg)
    (small : setup.maxKeySize < 2 ^ 64) {acts : List Action}
    (values : (run (step gcm cfg kv) (System.init setup s) acts).ValuesFit kv s maxEntrySize)
    (honest : Along (step gcm cfg kv) Honest (System.init setup s) acts) :
    (run (step gcm cfg kv) (System.init setup s) acts).Simulates kv s ∧
      Along (step gcm cfg kv) (DeliversValue gcm kv s) (System.init setup s) acts := by
  have config : cfg = ⟨setup.encKey, ciphertextSize maxEntrySize⟩ := by
    unfold hostServer at hosted
    split at hosted
    · cases hosted
    · exact (Option.some.inj hosted).symm
  have along := honest.and (along_valuesFit values)
  have preserved : ∀ (sys : System σ) a, sys.Refined gcm kv setup s →
      sys.Honest a ∧ sys.ValuesFit kv s maxEntrySize →
      (sys.step gcm cfg kv a).Refined gcm kv setup s := by
    intro sys a refined met
    rcases met with ⟨here, fit⟩
    cases a with
    | client a => exact refined_client small refined here
    | serve d => exact refined_serve small config fit refined here
  have start := refined_init gcm kv setup s
  constructor
  · exact (run_invariant_of_along (I := fun sys : System σ => sys.Refined gcm kv setup s)
      preserved start along).simulates
  · refine (Along.with_invariant preserved start along).mono ?_
    intro sys a met
    rcases met with ⟨refined, here, -⟩
    exact refined.deliversValue here

end Runs

end System

namespace Sample

def getCall (userTag : Nat) : Client.Call :=
  ⟨.get (some [1]) (some 100) (some 5), some 4, userTag, 0⟩

def wrapping : System (List (Bytes × Bytes)) := System.init (setup (2 ^ 54 - 2)) []

/-- A put and a get of its key, whose number has wrapped to 0; the get is answered first. -/
def putThenGet : List System.Action :=
  play wrapping
    [fun _ => .client (.call (putCall 42) (.ofNat 1) enc),
      fun _ => .client (.call (getCall 43) (.ofNat 2) enc),
      (serveSent · 0), (serveSent · 1), (respond · 1 1), (respond · 0 0)]

theorem honest_putThenGet : Along systemStep System.Honest wrapping putThenGet := by
  refine along_cons.mpr ⟨True.intro, along_cons.mpr ⟨True.intro, along_cons.mpr ⟨?_,
    along_cons.mpr ⟨?_, along_cons.mpr ⟨?_, along_cons.mpr ⟨?_, along_nil _⟩⟩⟩⟩⟩⟩
  · exact ⟨DecEnv.ok_ok, EncEnv.ok_ok _, by decide +kernel⟩
  · exact ⟨DecEnv.ok_ok, EncEnv.ok_ok _, by decide +kernel⟩
  · exact ⟨DecEnv.ok_ok, 1, by decide +kernel, by decide +kernel⟩
  · exact ⟨DecEnv.ok_ok, 0, by decide +kernel, by decide +kernel⟩

end Sample

/-- Across the wrap, the put and the get are those of the store, and the get finds what the
put stored. -/
theorem put_then_get_simulates :
    (run Sample.systemStep Sample.wrapping Sample.putThenGet).client.completions =
        [⟨1, .user 4, .opSuccess, 43⟩, ⟨0, .user 3, .opSuccess, 42⟩] ∧
      (run Sample.systemStep Sample.wrapping Sample.putThenGet).Simulates .assoc [] ∧
      Along Sample.systemStep (System.DeliversValue .checksum .assoc []) Sample.wrapping
        Sample.putThenGet := by
  have values : (run Sample.systemStep Sample.wrapping Sample.putThenGet).ValuesFit .assoc []
      64 := by
    have fit : ∀ result ∈ (execute KvFunctions.assoc.invoke []
        (run Sample.systemStep Sample.wrapping Sample.putThenGet).requested).2,
          ∀ v ∈ result, v.length ≤ 64 := by decide +kernel
    exact fun v member => fit (some v) member v rfl
  exact ⟨by decide +kernel, System.honest_run_simulates .checksum .assoc
    (Sample.setup (2 ^ 54 - 2)) [] (rfl : hostServer 1000 _ 64 = some Sample.config) (by decide)
    values Sample.honest_putThenGet⟩

end NetworkStack
