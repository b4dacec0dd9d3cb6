import NetworkStack.Network
import NetworkStack.Ring

/-!
# The two directions

Requests and responses are sealed under one key and have one format. What keeps a
client from taking a request of its own for a response is the parity of the
sequence number alone: `inc_seq` advances it by two and a response answers with
the next one. In every run, wraps of the sequence number included, the tags that
continuations are given have the parity of the number the client started with
(`OneParity`), and so have the messages it sent, which it can open itself as long
as its key stays (`Reopens`).
-/

namespace NetworkStack

open ByteStream Machine

/-! ## What is sent opens -/

theorem encryptPart_take (update : Nat → Bool) (ks : Nat → UInt8) (pos : Nat)
    (src : Option Bytes) (len : Nat) :
    encryptPart update ks pos (src.map (List.take len)) len =
      encryptPart update ks pos src len := by
  cases src with
  | none => rfl
  | some bytes =>
      simp only [encryptPart, Option.map_some]
      rw [List.take_take, Nat.min_self]

/-- Of the key, only what the header says is encrypted. -/
theorem encryptMessage_take (gcm : AesGcm) (encKey : Bytes) (e : EncEnv) (iv : Iv)
    (header : RdmaMsgHeader) (payload : RdmaEncPayload) :
    encryptMessage gcm encKey e iv header
        { payload with key := payload.key.map (List.take header.keyLen.toNat) } =
      encryptMessage gcm encKey e iv header payload := by
  unfold encryptMessage encryptBody
  simp only [encryptPart_take]

/-- A ciphertext carries a message with the header word it was encrypted with, also if the length
of the key does not fit the header. -/
theorem encryptMessage_opens {gcm : AesGcm} {encKey : Bytes} {e : EncEnv} {iv : Iv}
    {header : RdmaMsgHeader} {payload : RdmaEncPayload} {ciphertext : Bytes}
    (keyLen : header.keyLen.toNat ≤ (payload.key.getD []).length)
    (valueLen : payload.valueLen = (payload.value.getD []).length)
    (encrypts : (encryptMessage gcm encKey e iv header payload).2 = some ciphertext) :
    ∃ m, openMessage gcm encKey ciphertext = some m ∧ m.seqOp = header.seqOp := by
  have length : ((payload.key.getD []).take header.keyLen.toNat).length = header.keyLen.toNat := by
    rw [List.length_take]
    exact Nat.min_eq_left keyLen
  have describes : Describes header
      { payload with key := payload.key.map (List.take header.keyLen.toNat) }
      ⟨header.seqOp, (payload.key.getD []).take header.keyLen.toNat, payload.value.getD []⟩ := by
    refine ⟨rfl, ?_, ?_, ?_, Client.getD_nil_or _, valueLen⟩
    · rw [length, UInt64.ofNat_toNat]
    · rw [length]
      exact UInt64.toNat_lt _
    · cases payload.key with
      | none => exact Or.inr ⟨rfl, List.take_nil⟩
      | some bytes => exact Or.inl rfl
  rw [← encryptMessage_take] at encrypts
  rcases encryptMessage_seals describes encrypts with ⟨used, rfl⟩
  exact ⟨_, openMessage_sealMessage gcm encKey used describes.keyLt, rfl⟩

namespace Client

/-! ## One parity -/

/-- The tags that continuations are given have the parity of `s₀`. -/
def OneParity (s₀ : Nat) (c : Client) : Prop :=
  ∀ p ∈ c.pending, seqOf (c.queue.queue p.2).header.seqOp % 2 = s₀ % 2

section Parity

variable {id : UInt8} {s₀ : Nat} {c c' : Client}

/-- The sequence number of the next request has the parity of the first. -/
theorem Numbered.newTag_parity (numbered : c.Numbered id s₀) {s : Submission}
    (op : s.op.toNat < 4) : seqOf (c.newTag s).header.seqOp % 2 = s₀ % 2 := by
  have seq := (setOp_fields c.queue.currentSeqOp op).1
  have current := numbered.current
  change seqOf (setOp c.queue.currentSeqOp s.op) % 2 = s₀ % 2
  unfold seqModulus at current
  omega

/-- Every request sent has the parity of the first. -/
theorem Numbered.sent_parity (numbered : c.Numbered id s₀) {s : Sent} (member : s ∈ c.sent) :
    seqOf s.tag.header.seqOp % 2 = s₀ % 2 := by
  rcases List.getElem?_of_mem member with ⟨i, at_⟩
  have seq := numbered.seq i s at_
  unfold seqModulus at seq
  omega

/-- Invalidating slots leaves the headers in them. -/
theorem Clears.header (clears : c.Clears c') (k : Slot) :
    (c'.queue.queue k).header = (c.queue.queue k).header := by
  rcases clears.slots k with kept | cleared
  · rw [kept]
  · rw [cleared]

theorem OneParity.of_clears (parity : c.OneParity s₀) (clears : c.Clears c')
    (pending : ∀ p ∈ c'.pending, p ∈ c.pending) : c'.OneParity s₀ := by
  intro p member
  rw [clears.header]
  exact parity p (pending p member)

/-- A slot that is given back keeps a tag of the same parity. -/
theorem OneParity.giveBack (parity : c.OneParity s₀) (numbered : c.Numbered id s₀)
    {s : Submission} (op : s.op.toNat < 4) : (c.giveBack s).OneParity s₀ := by
  intro p member
  change seqOf ((c.queue.setTag c.nextSlot _).queue p.2).header.seqOp % 2 = s₀ % 2
  by_cases here : p.2 = c.nextSlot
  · rw [here, PendingRequestQueue.setTag_queue_self]
    exact numbered.newTag_parity op
  · rw [PendingRequestQueue.setTag_queue_of_ne _ _ here]
    exact parity p member

theorem OneParity.enqueue (parity : c.OneParity s₀) (numbered : c.Numbered id s₀)
    {s : Submission} (op : s.op.toNat < 4) (ciphertext : Bytes) :
    (c.enqueue s ciphertext).OneParity s₀ := by
  intro p member
  by_cases here : p.2 = c.nextSlot
  · rw [here, enqueue_queue_self]
    exact numbered.newTag_parity op
  · rw [c.enqueue_queue_of_ne s ciphertext here]
    rcases List.mem_append.mp member with old | new
    · exact parity p old
    · rw [List.mem_singleton.mp new] at here
      exact (here rfl).elim

/-- Running a continuation only takes continuations away. -/
theorem pending_deliver (gcm : AesGcm) (c : Client) (d : Delivery) {p : Nat × Slot}
    (member : p ∈ (c.deliver gcm d).pending) : p ∈ c.pending := by
  rcases c.deliver_cases gcm d with ⟨-, same⟩ | ⟨q, mem, -, ran⟩
  · rwa [same] at member
  · rw [ran, settle_pending] at member
    exact List.mem_of_mem_erase member

/-- Completions leave the key, the requests sent and the continuations still to run. -/
theorem complete_frame (c : Client) (q : PendingRequestQueue) (done : List Completion) :
    (c.complete q done).encKey = c.encKey ∧ (c.complete q done).sent = c.sent ∧
      (c.complete q done).pending = c.pending :=
  ⟨rfl, rfl, rfl⟩

theorem sweep_frame (c : Client) :
    c.sweep.encKey = c.encKey ∧ c.sweep.sent = c.sent ∧ c.sweep.pending = c.pending := by
  rw [sweep]
  exact c.complete_frame _ _

theorem oneParity_step (inv : c.Inv id s₀) (parity : c.OneParity s₀) (gcm : AesGcm) (a : Action) :
    (c.step gcm a).OneParity s₀ := by
  rcases c.step_cases gcm a with ⟨d, rfl⟩ | ⟨-, c', calls, returned, eq, -, left⟩
  · exact parity.of_clears (clears_deliver gcm c d) fun _ => pending_deliver gcm c d
  rw [eq]
  rcases left with rfl | ⟨s, submits, -, -, rfl | ⟨enc, iv, text, -, rfl⟩⟩
  · exact parity
  · exact parity.giveBack inv.numbered submits.op
  · exact parity.enqueue inv.numbered submits.op text

theorem oneParity_move (inv : c.Inv id s₀) (parity : c.OneParity s₀) (gcm : AesGcm) (m : Move) :
    (c.move gcm m).OneParity s₀ := by
  cases m with
  | act a => exact oneParity_step inv parity gcm a
  | sweep =>
      refine parity.of_clears (clears_sweep c) fun p member => ?_
      rwa [move_sweep, c.sweep_frame.2.2] at member
  | set encKey sessionNr connected => exact parity

theorem oneParity_run (gcm : AesGcm) (setup : Setup) (moves : List Move) :
    (run (move gcm) setup.client moves).Inv setup.id (seqOf setup.random) ∧
      (run (move gcm) setup.client moves).OneParity (seqOf setup.random) := by
  refine run_invariant (I := fun c : Client => c.Inv setup.id (seqOf setup.random) ∧
    c.OneParity (seqOf setup.random)) ?_ ?_ moves
  · rintro c m ⟨inv, parity⟩
    exact ⟨inv_move inv gcm m, oneParity_move inv parity gcm m⟩
  · refine ⟨inv_client setup, ?_⟩
    intro p member
    cases member

/-- A request does not answer another one of the same parity. -/
theorem not_answers_of_parity {w : UInt64} {tag : SentMessageTag}
    (same : seqOf w % 2 = seqOf tag.header.seqOp % 2) : ¬ Answers w tag := by
  rintro ⟨seq, -⟩
  unfold seqModulus at seq
  omega

end Parity

/-! ## One key -/

/-- A move that does not change the key. -/
def Move.Keyed (key : Bytes) : Move → Prop
  | .set encKey _ _ => encKey = key
  | _ => True

/-- The client has the key, and what it sent opens under it with the header word of its tag. -/
structure Reopens (gcm : AesGcm) (key : Bytes) (c : Client) : Prop where
  encKey : c.encKey = key
  opens : ∀ s ∈ c.sent, ∃ m, openMessage gcm key s.ciphertext = some m ∧
    m.seqOp = s.tag.header.seqOp

section Key

variable {gcm : AesGcm} {key : Bytes} {c c' : Client}

theorem Reopens.of_eq (reopens : c.Reopens gcm key) (encKey : c'.encKey = c.encKey)
    (sent : c'.sent = c.sent) : c'.Reopens gcm key := by
  refine ⟨encKey.trans reopens.encKey, ?_⟩
  rw [sent]
  exact reopens.opens

theorem Reopens.enqueue (reopens : c.Reopens gcm key) {s : Submission}
    (wellFormed : s.WellFormed) {enc : EncEnv} {iv : Iv} {ciphertext : Bytes} (encrypts :
      (encryptMessage gcm c.encKey enc iv (c.newTag s).header s.payload).2 = some ciphertext) :
    (c.enqueue s ciphertext).Reopens gcm key := by
  refine ⟨reopens.encKey, ?_⟩
  intro t member
  rcases List.mem_append.mp member with old | new
  · exact reopens.opens t old
  · rw [List.mem_singleton.mp new]
    rw [reopens.encKey] at encrypts
    refine encryptMessage_opens ?_ wellFormed.valueLen encrypts
    rw [← wellFormed.keyLen]
    change (UInt64.ofNat s.keyLen).toNat ≤ s.keyLen
    rw [UInt64.toNat_ofNat']
    exact Nat.mod_le _ _

theorem reopens_step (reopens : c.Reopens gcm key) (a : Action) :
    (c.step gcm a).Reopens gcm key := by
  rcases c.step_cases gcm a with ⟨d, rfl⟩ | ⟨-, c', calls, returned, eq, -, left⟩
  · exact reopens.of_eq (c.deliver_config gcm d).1 (c.deliver_sent gcm d).1
  have kept : c'.Reopens gcm key := by
    rcases left with rfl | ⟨s, submits, -, -, rfl | ⟨enc, iv, text, encrypts, rfl⟩⟩
    · exact reopens
    · exact reopens.of_eq rfl rfl
    · exact reopens.enqueue submits.wellFormed encrypts
  rw [eq]
  exact kept.of_eq rfl rfl

theorem reopens_move (reopens : c.Reopens gcm key) {m : Move} (keyed : m.Keyed key) :
    (c.move gcm m).Reopens gcm key := by
  cases m with
  | act a => exact reopens_step reopens a
  | sweep => exact reopens.of_eq c.sweep_frame.1 c.sweep_frame.2.1
  | set encKey sessionNr connected => exact ⟨keyed, reopens.opens⟩

theorem reopens_run (gcm : AesGcm) (setup : Setup) {moves : List Move}
    (keyed : ∀ m ∈ moves, m.Keyed setup.encKey) :
    (run (move gcm) setup.client moves).Reopens gcm setup.encKey := by
  refine run_invariant_of_along (I := fun c : Client => c.Reopens gcm setup.encKey)
    (C := fun _ (m : Move) => m.Keyed setup.encKey)
    (fun _ _ reopens keyed => reopens_move reopens keyed) ⟨rfl, ?_⟩ (along_of_forall ?_)
  · intro s member
    cases member
  · rintro before m after rfl
    exact keyed m (by simp)

end Key

/-! ## A client's own messages -/

/-- A response that decrypts is rejected by the comparison of sequence number and ID with those of
the request of `p`; no slot changes and no callback is invoked. -/
structure Rejects (gcm : AesGcm) (c : Client) (p : Nat × Slot) (d : Delivery) : Prop where
  differs : d.word gcm c.encKey &&& (seqMask ||| idMask) ≠
    nextSeq (c.queue.queue p.2).header.seqOp &&& (idMask ||| seqMask)
  queue : (c.deliver gcm d).queue = c.queue
  completions : (c.deliver gcm d).completions = c.completions

/-- What decrypts and does not answer the request is rejected. -/
theorem Outstanding.rejects {gcm : AesGcm} {c : Client} (outstanding : c.Outstanding)
    {p : Nat × Slot} (member : p ∈ c.pending) {d : Delivery} (own : d.call = p.1)
    (decrypts : d.Decrypts gcm c.encKey (c.queue.queue p.2).value c.mem)
    (wrong : ¬ Answers (d.word gcm c.encKey) (c.queue.queue p.2)) : c.Rejects gcm p d := by
  have none_ : verdict gcm c.encKey (c.queue.queue p.2) c.mem d = none := by
    unfold verdict
    dsimp only
    rw [if_pos decrypts, if_neg wrong]
  have found := outstanding.find_eq member
  rw [← own] at found
  have ran : ∃ mem, c.deliver gcm d = { c with pending := c.pending.erase p, mem := mem } := by
    rcases c.deliver_cases gcm d with ⟨lost, -⟩ | ⟨q, mem, found', ran⟩
    · rw [found] at lost
      cases lost
    · rw [found] at found'
      cases found'
      rw [none_] at ran
      exact ⟨mem, ran⟩
  rcases ran with ⟨mem, ran⟩
  refine ⟨?_, by rw [ran], by rw [ran]⟩
  rw [ne_eq, and_mask_eq_iff, seqOf_nextSeq, idOf_nextSeq]
  exact wrong

/-- In every run, all requests that a client has sent have one parity. So none of them passes the
check for the response to any of its requests, and while its key stays, one that is delivered as
that response is rejected, given that it decrypts; which it does when no library call fails. -/
theorem own_message_rejected (gcm : AesGcm) (setup : Setup) (moves : List Move) {c : Client}
    (reached : run (move gcm) setup.client moves = c) :
    (∀ s ∈ c.sent, seqOf s.tag.header.seqOp % 2 = seqOf setup.random % 2) ∧
    ∀ p ∈ c.pending, ∀ m ∈ c.sent,
      m.tag.header.seqOp &&& (seqMask ||| idMask) ≠
          nextSeq (c.queue.queue p.2).header.seqOp &&& (idMask ||| seqMask) ∧
        ((∀ x ∈ moves, x.Keyed setup.encKey) →
          ∀ d : Delivery, d.call = p.1 → d.response = m.ciphertext →
            (d.env.Ok → d.Decrypts gcm c.encKey (c.queue.queue p.2).value c.mem) ∧
            (d.Decrypts gcm c.encKey (c.queue.queue p.2).value c.mem → c.Rejects gcm p d)) := by
  rcases oneParity_run gcm setup moves with ⟨inv, parity⟩
  rw [reached] at inv parity
  refine ⟨fun s member => inv.numbered.sent_parity member, ?_⟩
  intro p pending m sent
  have wrong : ¬ Answers m.tag.header.seqOp (c.queue.queue p.2) := by
    apply not_answers_of_parity
    rw [inv.numbered.sent_parity sent, parity p pending]
  refine ⟨?_, ?_⟩
  · rw [ne_eq, and_mask_eq_iff, seqOf_nextSeq, idOf_nextSeq]
    exact wrong
  · intro keyed d own response
    have reopens := reopens_run gcm setup keyed
    rw [reached] at reopens
    rcases reopens.opens m sent with ⟨message, opens, word⟩
    rw [← response, ← reopens.encKey] at opens
    refine ⟨fun ok => decryptMessage_of_open ok opens, fun decrypts => ?_⟩
    refine inv.outstanding.rejects pending own decrypts ?_
    rcases decrypts.opens with ⟨message', opens', word'⟩
    rw [opens] at opens'
    cases opens'
    rwa [word', word]

end Client

namespace Sample

/-- A client that sent two puts, with sequence numbers 11 and 13. -/
def oddPuts : Client := run (Client.move .checksum) (setup 11).client (twoPuts.map .act)

/-- The bytes arrive as the response to the request of `call`, and there is no memory for a
key. -/
def arrivesWithoutMemory (call : Nat) (response : Bytes) : Delivery :=
  ⟨call, response, ⟨0, 0⟩, { DecEnv.ok with keyMalloc := false }⟩

end Sample

/-- Either of two puts, delivered as the response to the second. -/
theorem own_puts_rejected :
    Sample.oddPuts.sent.length = 2 ∧ (1, Sample.slot 13) ∈ Sample.oddPuts.pending ∧
      ∀ m ∈ Sample.oddPuts.sent, Sample.oddPuts.Rejects .checksum (1, Sample.slot 13)
        (Sample.arrives 1 m.ciphertext) := by
  have pending : (1, Sample.slot 13) ∈ Sample.oddPuts.pending := by decide +kernel
  have keyed : ∀ x ∈ Sample.twoPuts.map Client.Move.act, x.Keyed (Sample.setup 11).encKey := by
    intro x member
    rcases List.mem_map.mp member with ⟨a, -, rfl⟩
    trivial
  refine ⟨by decide +kernel, pending, ?_⟩
  intro m sent
  have own := (Client.own_message_rejected .checksum (Sample.setup 11) _ rfl).2 _ pending m sent
  rcases own.2 keyed (Sample.arrives 1 m.ciphertext) rfl rfl with ⟨decrypts, rejects⟩
  exact rejects (decrypts DecEnv.ok_ok)

/-- Without memory for its key, the first put does not decrypt when it is delivered as its own
response: the request is completed as an invalid response and its callback invoked. -/
theorem own_put_without_memory_completes :
    ∃ m ∈ Sample.oddPuts.sent, Sample.oddPuts.Waiting 0 (Sample.slot 11) ∧
      Sample.oddPuts.completions = [] ∧
      (Sample.oddPuts.deliver .checksum (Sample.arrivesWithoutMemory 0 m.ciphertext)).completions =
        [⟨0, .user 3, .invalidResponse, 42⟩] ∧
      ¬ Sample.oddPuts.Rejects .checksum (0, Sample.slot 11)
        (Sample.arrivesWithoutMemory 0 m.ciphertext) := by
  have before : Sample.oddPuts.completions = [] := by decide +kernel
  have after : (Sample.oddPuts.sent.head?.map fun m => (Sample.oddPuts.deliver .checksum
      (Sample.arrivesWithoutMemory 0 m.ciphertext)).completions) =
        some [⟨0, .user 3, .invalidResponse, 42⟩] := by
    decide +kernel
  rcases Option.map_eq_some_iff.mp after with ⟨m, first, completed⟩
  refine ⟨m, List.mem_of_head? first, ⟨by decide +kernel, by decide +kernel, by decide +kernel⟩,
    before, completed, ?_⟩
  intro rejects
  have same := rejects.completions
  rw [completed, before] at same
  cases same

end NetworkStack
