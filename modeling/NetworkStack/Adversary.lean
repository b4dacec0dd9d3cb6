import NetworkStack.Network

/-!
# A network that replays, redirects and reflects

The adversary holds every ciphertext that either endpoint produced and may hand
any of them to either endpoint, but cannot make another one that opens.
Requests and responses are told apart by nothing but the parity of their
sequence numbers, which `is_seq_valid` does not look at, and the disconnect
branch looks at neither the ID nor the sequence number.
-/

namespace NetworkStack

open Machine

namespace System

variable {σ : Type} {gcm : AesGcm} {cfg : ServerConfig} {kv : KvFunctions σ}
  {setup : Client.Setup} {sys : System σ}

/-! ## Shutting the thread down -/

/-- The disconnect messages the client sent. -/
def disconnects (sys : System σ) : List Bytes :=
  (sys.client.sent.filter fun s => opOf s.tag.header.seqOp = 3).map (·.ciphertext)

/-- A disconnect message of the client that the thread has not handled before. -/
def FreshDisconnect (sys : System σ) (ciphertext : Bytes) : Prop :=
  ciphertext ∈ sys.disconnects ∧ ciphertext ∉ sys.served.map Prod.fst

/-- Handling a delivery, the thread calls `terminate`, sets `stay_connected` to false, or
overwrites `next_seq` with the word of a message with operation `RDMA_ERR`. -/
def ShutsDown (gcm : AesGcm) (cfg : ServerConfig) (kv : KvFunctions σ) (srv : Server σ)
    (d : Incoming) : Prop :=
  (srv.serve gcm cfg kv d).shutdowns ≠ srv.shutdowns ∨
    (srv.thread.stayConnected = true ∧ (srv.serve gcm cfg kv d).thread.stayConnected = false) ∨
    ∃ m, d.message gcm cfg = some m ∧ opOf m.seqOp = 3 ∧
      (srv.serve gcm cfg kv d).thread.nextSeq ≠ srv.thread.nextSeq

/-- The thread shuts down only for a fresh disconnect message of its client. -/
def ShutsDownOnRequest (gcm : AesGcm) (cfg : ServerConfig) (kv : KvFunctions σ)
    (sys : System σ) : Action → Prop
  | .serve d => ShutsDown gcm cfg kv sys.server d → sys.FreshDisconnect d.ciphertext
  | .client _ => True

/-- Every message with operation `RDMA_ERR` that is delivered to the thread is a fresh
disconnect message of its client. -/
def ErrorsAreDisconnects (gcm : AesGcm) (cfg : ServerConfig) (sys : System σ) : Action → Prop
  | .serve d => ∀ m, d.message gcm cfg = some m → opOf m.seqOp = 3 →
      sys.FreshDisconnect d.ciphertext
  | .client _ => True

/-- The disconnect branch is taken for every message with operation `RDMA_ERR`, and no other
branch touches the connection. -/
theorem shutsDown_iff (srv : Server σ) (d : Incoming) :
    ShutsDown gcm cfg kv srv d ↔ ∃ m, d.message gcm cfg = some m ∧ opOf m.seqOp = 3 := by
  unfold ShutsDown
  rw [serve_eq]
  cases brings : d.message gcm cfg with
  | none => simp
  | some m =>
      simp only [Option.elim_some, Option.some.injEq, exists_eq_left']
      by_cases error : opOf m.seqOp = 3
      · refine iff_of_true (Or.inl ?_) error
        rw [Server.handle, (m.kvCall_eq_none_iff).mpr error]
        simp
      · refine iff_of_false ?_ error
        obtain ⟨call, asks⟩ := Message.exists_kvCall error
        have same : (srv.handle kv m).shutdowns = srv.shutdowns ∧
            (srv.handle kv m).thread.stayConnected = srv.thread.stayConnected := by
          unfold Server.handle
          rw [asks]
          dsimp only
          split <;> exact ⟨rfl, rfl⟩
        intro shuts
        rcases shuts with terminates | ⟨connected, disconnected⟩ | ⟨isError, -⟩
        · exact terminates same.1
        · rw [same.2, connected] at disconnected
          cases disconnected
        · exact error isError

/-- In every run, whatever is delivered: the thread is shut down only by fresh disconnect
messages of its client exactly when no other message with operation `RDMA_ERR` reaches
it. -/
theorem shutdowns_requested_iff (gcm : AesGcm) (cfg : ServerConfig) (kv : KvFunctions σ)
    (setup : Client.Setup) (s : σ) (acts : List Action) :
    Along (step gcm cfg kv) (ShutsDownOnRequest gcm cfg kv) (System.init setup s) acts ↔
      Along (step gcm cfg kv) (ErrorsAreDisconnects gcm cfg) (System.init setup s) acts := by
  refine along_congr (I := fun _ => True) ?_ (fun _ _ _ _ => True.intro) True.intro acts
  intro sys a _
  cases a with
  | client a => exact Iff.rfl
  | serve d =>
      constructor
      · intro rightly m brings error
        exact rightly ((shutsDown_iff sys.server d).mpr ⟨m, brings, error⟩)
      · intro only shuts
        obtain ⟨m, brings, error⟩ := (shutsDown_iff sys.server d).mp shuts
        exact only m brings error

/-! ## Forging a success -/

/-- Bytes the adversary can deliver: produced by an endpoint, or opening to nothing. -/
def Available (gcm : AesGcm) (encKey : Bytes) (sys : System σ) (b : Bytes) : Prop :=
  b ∈ sys.client.sent.map (·.ciphertext) ∨ b ∈ sys.served.filterMap Prod.snd ∨
    openMessage gcm encKey b = none

instance (gcm : AesGcm) (encKey : Bytes) (sys : System σ) (b : Bytes) :
    Decidable (sys.Available gcm encKey b) :=
  inferInstanceAs (Decidable (_ ∨ _))

/-- The network delivers nothing but available bytes. -/
def Adversary (gcm : AesGcm) (encKey : Bytes) (sys : System σ) : Action → Prop
  | .serve d => sys.Available gcm encKey d.ciphertext
  | .client (.poll d) => sys.Available gcm encKey d.response
  | .client _ => True

instance (gcm : AesGcm) (encKey : Bytes) (sys : System σ) :
    (a : Action) → Decidable (sys.Adversary gcm encKey a)
  | .serve d => inferInstanceAs (Decidable (sys.Available gcm encKey d.ciphertext))
  | .client (.poll d) => inferInstanceAs (Decidable (sys.Available gcm encKey d.response))
  | .client (.call _ _ _) => isTrue True.intro
  | .client (.sendDisconnect _ _) => isTrue True.intro

/-- A response that the thread produced and that is delivered back to it is no error
response, and its number is more than the tolerance away from the number the thread
expects. -/
def ReflectsNothing (gcm : AesGcm) (cfg : ServerConfig) (sys : System σ) : Action → Prop
  | .serve d => d.ciphertext ∈ sys.served.filterMap Prod.snd →
      ∀ r ∈ d.message gcm cfg,
        opOf r.seqOp ≠ 3 ∧ sys.server.thread.nextSeq ≠ 0 ∧
          seqThreshold * 2 <
            ((seqOf r.seqOp : Int) - (seqOf sys.server.thread.nextSeq : Int)).natAbs
  | .client _ => True

instance (gcm : AesGcm) (cfg : ServerConfig) (sys : System σ) :
    (a : Action) → Decidable (sys.ReflectsNothing gcm cfg a)
  | .serve _ => inferInstanceAs (Decidable (_ → _))
  | .client _ => isTrue True.intro

/-- The KV function of a sent request was invoked with its key and value. -/
def Executed (sys : System σ) (s : Sent) : Prop :=
  ∀ call, s.message.kvCall = some call → (s.message.seqOp, call) ∈ sys.server.kvLog

/-- Where the responses come from, and what the successes rest on. -/
structure Traced (gcm : AesGcm) (encKey : Bytes) (sys : System σ) : Prop where
  origin : ∀ q b, (q, some b) ∈ sys.served → ∃ s ∈ sys.client.sent, s.ciphertext = q ∧
    sys.Executed s ∧ ∃ result, openMessage gcm encKey b = some (s.message.response result)
  success : ∀ x ∈ sys.client.completions, x.ret = .opSuccess →
    ∃ s ∈ sys.client.sent, s.tag.call = x.call ∧ sys.Executed s

/-- A response accepted for the request in a slot was produced while its request was
handled. -/
def AcceptsOwnResponse (gcm : AesGcm) (sys : System σ) : Action → Prop
  | .client (.poll d) => ∀ n k ret w, sys.client.pending.find? (·.1 == d.call) = some (n, k) →
      (sys.client.queue.queue k).valid = true →
      Client.verdict gcm sys.client.encKey (sys.client.queue.queue k) sys.client.mem d =
        some (ret, w) → ret ≠ .invalidResponse →
      ∃ s ∈ sys.client.sent, s.tag = sys.client.queue.queue k ∧
        (s.ciphertext, some d.response) ∈ sys.served
  | _ => True

end System

/-! ### The server's side -/

section Server

variable {σ : Type} {gcm : AesGcm} {cfg : ServerConfig} {kv : KvFunctions σ}

theorem kvLog_handle_mono {srv : Server σ} {m : Message} {entry : UInt64 × KvCall}
    (member : entry ∈ srv.kvLog) : entry ∈ (srv.handle kv m).kvLog := by
  unfold Server.handle
  split
  · exact member
  · split
    · exact List.mem_append_left _ member
    · exact member

theorem kvLog_serve_mono {srv : Server σ} {d : Incoming} {entry : UInt64 × KvCall}
    (member : entry ∈ srv.kvLog) : entry ∈ (srv.serve gcm cfg kv d).kvLog := by
  rw [serve_eq]
  cases d.message gcm cfg with
  | none => exact member
  | some m => exact kvLog_handle_mono member

/-- An answered message is answered after its KV invocation, if it asks for one. -/
theorem answer_inv {srv : Server σ} {m r : Message} (answers : srv.answer kv m = some r) :
    (∃ result, r = m.response result) ∧
      ∀ call, m.kvCall = some call → (m.seqOp, call) ∈ (srv.handle kv m).kvLog := by
  unfold Server.answer at answers
  unfold Server.handle
  cases asked : m.kvCall with
  | none =>
      rw [asked] at answers
      cases answers
      exact ⟨⟨none, rfl⟩, by simp⟩
  | some call =>
      rw [asked] at answers
      dsimp only at answers ⊢
      split at answers
      · rename_i accepted
        cases answers
        refine ⟨⟨_, rfl⟩, ?_⟩
        rintro call' ⟨⟩
        rw [if_pos accepted]
        exact List.mem_append_right _ (List.mem_singleton_self _)
      · cases answers

end Server

/-! ### The client's side -/

namespace Client

theorem verdict_inv {gcm : AesGcm} {encKey : Bytes} {tag : SentMessageTag} {mem : Mem}
    {d : Delivery} {ret : RetVal} {w : UInt64}
    (verdictEq : verdict gcm encKey tag mem d = some (ret, w)) (accepted : ret ≠ .invalidResponse) :
    d.Decrypts gcm encKey tag.value mem ∧ w = d.word gcm encKey ∧ Answers w tag := by
  unfold verdict at verdictEq
  dsimp only at verdictEq
  split at verdictEq
  · rename_i decrypts
    split at verdictEq
    · rename_i answers
      cases verdictEq
      exact ⟨decrypts, rfl, answers⟩
    · cases verdictEq
  · cases verdictEq
    exact (accepted rfl).elim

/-- An accepted response names the slot of the request it was delivered for. -/
theorem Inv.namedSlot_of_verdict {id : UInt8} {s₀ : Nat} {gcm : AesGcm} {c : Client}
    (inv : c.Inv id s₀) {d : Delivery} {n : Nat} {k : Slot} {ret : RetVal} {w : UInt64}
    (found : c.pending.find? (·.1 == d.call) = some (n, k))
    (verdictEq : verdict gcm c.encKey (c.queue.queue k) c.mem d = some (ret, w))
    (accepted : ret ≠ .invalidResponse) : namedSlot w = k := by
  obtain ⟨-, -, answers⟩ := verdict_inv verdictEq accepted
  exact answers.namedSlot_eq.trans
    (inv.outstanding.slot (n, k) (List.mem_of_find?_eq_some found))

/-- A callback invoked by a continuation is the one of the slot that its verdict names. -/
theorem mem_completions_deliver {gcm : AesGcm} {c : Client} {d : Delivery} {x : Completion}
    (member : x ∈ (c.deliver gcm d).completions) :
    x ∈ c.completions ∨ ∃ n k ret w, c.pending.find? (·.1 == d.call) = some (n, k) ∧
      verdict gcm c.encKey (c.queue.queue k) c.mem d = some (ret, w) ∧
      (c.queue.queue (namedSlot w)).valid = true ∧
      x.call = (c.queue.queue (namedSlot w)).call ∧ x.ret = ret := by
  rcases c.deliver_cases gcm d with ⟨-, same⟩ | ⟨⟨n, k⟩, mem, found, ran⟩
  · rw [same] at member
    exact Or.inl member
  · rcases settle_cases { c with pending := c.pending.erase (n, k), mem := mem }
      (verdict gcm c.encKey (c.queue.queue k) c.mem d) with same | ⟨ret, w, eq, valid, done⟩
    · rw [ran, same] at member
      exact Or.inl member
    · rw [ran, done] at member
      rcases List.mem_append.mp member with old | new
      · exact Or.inl old
      · refine Or.inr ⟨n, k, ret, w, found, eq, valid, ?_⟩
        simp only [PendingRequestQueue.invalidateSlot, SentMessageTag.invalidate,
          Option.mem_toList, Option.map_eq_some_iff] at new
        obtain ⟨cb, -, rfl⟩ := new
        exact ⟨rfl, rfl⟩

theorem completions_step_of_not_poll (gcm : AesGcm) (c : Client) {a : Action}
    (notPoll : ∀ d, a ≠ .poll d) : (c.step gcm a).completions = c.completions := by
  rcases c.step_cases gcm a with
    ⟨d, isPoll⟩ | ⟨-, c', calls, returned, eq, -, rfl | ⟨s, -, -, -, rfl | ⟨_, _, text, -, rfl⟩⟩⟩
  · exact (notPoll d isPoll).elim
  · rw [eq]
  · rw [eq]
    rfl
  · rw [eq]
    rfl

end Client

/-! ### Both sides -/

namespace System

variable {σ : Type} {gcm : AesGcm} {cfg : ServerConfig} {kv : KvFunctions σ}
  {setup : Client.Setup} {sys : System σ}

/-- An accepted response comes from the thread, which handled the very request in the slot:
the client's own ciphertexts have the wrong parity, and the sequence number determines the
request. -/
theorem accepted_response_origin (inv : sys.Inv gcm setup) (traced : sys.Traced gcm setup.encKey)
    (few : sys.client.sent.length < 2 ^ 53) {d : Delivery} {n : Nat} {k : Slot} {ret : RetVal}
    {w : UInt64} (available : sys.Available gcm setup.encKey d.response)
    (found : sys.client.pending.find? (·.1 == d.call) = some (n, k))
    (valid : (sys.client.queue.queue k).valid = true)
    (verdictEq : Client.verdict gcm sys.client.encKey (sys.client.queue.queue k) sys.client.mem d =
      some (ret, w)) (accepted : ret ≠ .invalidResponse) :
    Client.namedSlot w = k ∧ ∃ s ∈ sys.client.sent, s.tag = sys.client.queue.queue k ∧
      (s.ciphertext, some d.response) ∈ sys.served ∧ sys.Executed s := by
  have named := inv.client.namedSlot_of_verdict found verdictEq accepted
  obtain ⟨decrypts, rfl, answers⟩ := Client.verdict_inv verdictEq accepted
  obtain ⟨m, opens, word⟩ := decrypts.opens
  rw [inv.under.encKey] at opens
  obtain ⟨s, sent, -, tag⟩ := inv.client.occupied.slots k valid
  rw [word] at answers
  obtain ⟨i, hi⟩ := List.mem_iff_getElem?.mp sent
  have seq := inv.client.numbered.seq i s hi
  rw [tag] at seq
  refine ⟨named, s, sent, tag, ?_⟩
  rcases available with own | produced | closed
  · obtain ⟨t, member, eq⟩ := List.mem_map.mp own
    obtain ⟨j, hj⟩ := List.mem_iff_getElem?.mp member
    have other := inv.client.numbered.seq j t hj
    have opensT := inv.opens member
    rw [eq, opens] at opensT
    cases opensT
    have next : seqOf t.tag.header.seqOp = _ := answers.1
    rw [other, seq] at next
    unfold seqModulus at next
    omega
  · obtain ⟨⟨q, out⟩, served, isSome⟩ := List.mem_filterMap.mp produced
    have eq : out = some d.response := isSome
    subst eq
    obtain ⟨t, member, rfl, executed, result, opensR⟩ := traced.origin q d.response served
    rw [opens] at opensR
    cases opensR
    have next := answers.1
    rw [(t.message.response_fields result).1] at next
    have same : seqOf t.tag.header.seqOp = seqOf s.tag.header.seqOp := by
      have ltT := seqOf_lt t.tag.header.seqOp
      have ltS := seqOf_lt s.tag.header.seqOp
      rw [← tag] at next
      change (seqOf t.tag.header.seqOp + 1) % seqModulus = _ at next
      unfold seqModulus at *
      omega
    cases inv.sent_eq_of_seq few member sent same
    exact ⟨served, executed⟩
  · rw [closed] at opens
    cases opens

/-- A response that is reflected too far from the thread's number is not answered. -/
theorem not_answered_of_far {m r : Message} (success : opOf m.seqOp ≠ 3)
    (nonzero : sys.server.thread.nextSeq ≠ 0)
    (far : seqThreshold * 2 <
      ((seqOf m.seqOp : Int) - (seqOf sys.server.thread.nextSeq : Int)).natAbs) :
    sys.server.answer kv m ≠ some r := by
  intro answers
  unfold Server.answer at answers
  obtain ⟨call, asks⟩ := Message.exists_kvCall success
  rw [asks] at answers
  dsimp only at answers
  rw [if_neg] at answers
  · cases answers
  · intro accepted
    rcases accepted.2 with zero | near
    · exact nonzero zero
    · omega

/-- What the thread replies to is a request of the client, which it has executed then. -/
theorem reply_origin (key : cfg.encKey = setup.encKey) (inv : sys.Inv gcm setup) {d : Incoming}
    (adversary : sys.Adversary gcm setup.encKey (.serve d))
    (reflects : sys.ReflectsNothing gcm cfg (.serve d)) {b : Bytes}
    (replied : sys.server.reply gcm cfg kv d = some b) :
    ∃ s ∈ sys.client.sent, s.ciphertext = d.ciphertext ∧
      (sys.step gcm cfg kv (.serve d)).Executed s ∧
      ∃ result, openMessage gcm setup.encKey b = some (s.message.response result) := by
  obtain ⟨m, r, brings, answers, opensB⟩ := reply_inv replied
  obtain ⟨-, opensD⟩ := d.message_inv brings
  rw [key] at opensD opensB
  obtain ⟨⟨result, rfl⟩, invoked⟩ := answer_inv answers
  rcases adversary with own | produced | closed
  · obtain ⟨s, sent, isD⟩ := List.mem_map.mp own
    have opensS := inv.opens sent
    rw [isD, opensD] at opensS
    cases opensS
    refine ⟨s, sent, isD, ?_, result, opensB⟩
    intro call asks
    change _ ∈ (sys.server.serve gcm cfg kv d).kvLog
    rw [serve_eq, brings]
    exact invoked call asks
  · obtain ⟨success, nonzero, far⟩ := reflects produced m brings
    exact (not_answered_of_far success nonzero far answers).elim
  · rw [closed] at opensD
    cases opensD

/-- A success that the client reports when it polls rests on an executed request. -/
theorem success_of_poll (inv : sys.Inv gcm setup) (traced : sys.Traced gcm setup.encKey)
    (few : sys.client.sent.length < 2 ^ 53) {d : Delivery}
    (adversary : sys.Adversary gcm setup.encKey (.client (.poll d))) {x : Completion}
    (member : x ∈ (sys.client.deliver gcm d).completions) (success : x.ret = .opSuccess) :
    ∃ s ∈ sys.client.sent, s.tag.call = x.call ∧ sys.Executed s := by
  rcases Client.mem_completions_deliver member with
    old | ⟨n, k, ret, w, found, verdictEq, valid, call, isRet⟩
  · exact traced.success x old success
  · have accepted : ret ≠ .invalidResponse := by
      rw [← isRet, success]
      decide
    rw [inv.client.namedSlot_of_verdict found verdictEq accepted] at valid call
    obtain ⟨-, s, sent, tag, -, executed⟩ := accepted_response_origin inv traced few
      adversary found valid verdictEq accepted
    refine ⟨s, sent, ?_, executed⟩
    rw [tag]
    exact call.symm

/-- A step of the adversary that reflects nothing to the thread keeps the origins. -/
theorem traced_step (key : cfg.encKey = setup.encKey) (inv : sys.Inv gcm setup)
    (traced : sys.Traced gcm setup.encKey) (few : sys.client.sent.length < 2 ^ 53) {a : Action}
    (adversary : sys.Adversary gcm setup.encKey a) (reflects : sys.ReflectsNothing gcm cfg a) :
    (sys.step gcm cfg kv a).Traced gcm setup.encKey := by
  cases a with
  | serve d =>
      have executes : ∀ s : Sent, sys.Executed s → (sys.step gcm cfg kv (.serve d)).Executed s :=
        fun s executed call asks => kvLog_serve_mono (executed call asks)
      refine ⟨?_, ?_⟩
      · intro q b member
        rcases List.mem_append.mp member with old | new
        · obtain ⟨s, sent, isQ, executed, opens⟩ := traced.origin q b old
          exact ⟨s, sent, isQ, executes s executed, opens⟩
        · obtain ⟨rfl, replied⟩ := Prod.mk.inj (List.mem_singleton.mp new)
          exact reply_origin key inv adversary reflects replied.symm
      · intro x member success
        obtain ⟨s, sent, call, executed⟩ := traced.success x member success
        exact ⟨s, sent, call, executes s executed⟩
  | client a =>
      have grows := Client.step_extends gcm sys.client a
      refine ⟨?_, ?_⟩
      · intro q b member
        obtain ⟨s, sent, rest⟩ := traced.origin q b member
        exact ⟨s, grows.mem sent, rest⟩
      · intro x member success
        have earlier : ∃ s ∈ sys.client.sent, s.tag.call = x.call ∧ sys.Executed s := by
          cases a with
          | poll d => exact success_of_poll inv traced few adversary member success
          | call k iv enc =>
              refine traced.success x ?_ success
              rwa [← Client.completions_step_of_not_poll gcm sys.client (a := .call k iv enc)
                (fun d h => by cases h)]
          | sendDisconnect iv enc =>
              refine traced.success x ?_ success
              rwa [← Client.completions_step_of_not_poll gcm sys.client
                (a := .sendDisconnect iv enc) (fun d h => by cases h)]
        obtain ⟨s, sent, rest⟩ := earlier
        exact ⟨s, grows.mem sent, rest⟩

/-- In every run against the adversary that never gets the thread to act on one of its own
responses: a success is invoked only for a request whose KV function was invoked with its
key and value, and every accepted response was produced while its request was handled. -/
theorem success_not_forged (gcm : AesGcm) (cfg : ServerConfig) (kv : KvFunctions σ)
    (setup : Client.Setup) (s : σ) (acts : List Action) (key : cfg.encKey = setup.encKey)
    (small : setup.maxKeySize < 2 ^ 64)
    (few : (run (step gcm cfg kv) (System.init setup s) acts).client.sent.length < 2 ^ 53)
    (adversary : Along (step gcm cfg kv) (Adversary gcm setup.encKey) (System.init setup s) acts)
    (reflects : Along (step gcm cfg kv) (ReflectsNothing gcm cfg) (System.init setup s) acts) :
    (∀ x ∈ (run (step gcm cfg kv) (System.init setup s) acts).client.completions,
      x.ret = .opSuccess →
      ∀ r ∈ (run (step gcm cfg kv) (System.init setup s) acts).client.sent,
        r.tag.call = x.call → (run (step gcm cfg kv) (System.init setup s) acts).Executed r) ∧
      Along (step gcm cfg kv) (AcceptsOwnResponse gcm) (System.init setup s) acts := by
  have start : (System.init setup s).Inv gcm setup ∧
      (System.init setup s).Traced gcm setup.encKey := by
    refine ⟨inv_init gcm setup s, ?_, ?_⟩
    · intro q b member
      cases member
    · intro x member
      cases member
  have steps : ∀ (sys : System σ) a, sys.Inv gcm setup ∧ sys.Traced gcm setup.encKey →
      (sys.Adversary gcm setup.encKey a ∧ sys.ReflectsNothing gcm cfg a) ∧
        sys.client.sent.length < 2 ^ 53 →
      (sys.step gcm cfg kv a).Inv gcm setup ∧
        (sys.step gcm cfg kv a).Traced gcm setup.encKey := by
    intro sys a both met
    rcases both with ⟨inv, traced⟩
    rcases met with ⟨⟨adversary, reflects⟩, few⟩
    exact ⟨inv_step small inv a, traced_step key inv traced few adversary reflects⟩
  have along := (adversary.and reflects).and (along_few few)
  constructor
  · obtain ⟨inv, traced⟩ := run_invariant_of_along steps start along
    intro x member success r sent call
    obtain ⟨r', sent', call', executed⟩ := traced.success x member success
    cases inv.client.numbered.sent_eq sent' sent (call'.trans call.symm)
    exact executed
  · refine (along.with_invariant steps start).mono ?_
    intro sys a met
    rcases met with ⟨⟨inv, traced⟩, ⟨adversary, -⟩, few⟩
    cases a with
    | serve d => exact True.intro
    | client a =>
        cases a with
        | call k iv enc => exact True.intro
        | sendDisconnect iv enc => exact True.intro
        | poll d =>
            intro n k ret w found valid verdictEq accepted
            obtain ⟨-, r, sent, tag, served, -⟩ := accepted_response_origin inv traced few adversary
              found valid verdictEq accepted
            exact ⟨r, sent, tag, served⟩

end System

/-! ## Concrete runs -/

namespace Sample

/-- The thread handles the `n`-th response it sent itself. -/
def reflect (sys : System (List (Bytes × Bytes))) (n : Nat) : System.Action :=
  .serve (incoming ((sys.served.filterMap Prod.snd).getD n []))

/-- Two puts are called, only the first is delivered, its response is reflected twice, and
the last answer is delivered for the second. -/
def forgery : List System.Action :=
  play system
    [fun _ => .client (.call (putCall 42) (.ofNat 1) enc),
      fun _ => .client (.call ⟨.put (some [3]) (some [4]), some 3, 43, 0⟩ (.ofNat 2) enc),
      (serveSent · 0), (reflect · 0), (reflect · 1), (respond · 1 2)]

/-- What client 9 sends to disconnect. -/
def foreignDisconnect : Bytes :=
  ((Client.step .checksum { setup 5 with id := 9 }.client
    (.sendDisconnect (.ofNat 1) enc)).sent.map (·.ciphertext)).getD 0 []

/-- Two puts are called and the first is delivered twice. Its first answer is delivered for the
second put, its second answer for the first. -/
def replayedPut : List System.Action :=
  play system
    [fun _ => .client (.call (putCall 42) (.ofNat 1) enc),
      fun _ => .client (.call ⟨.put (some [3]) (some [4]), some 3, 43, 0⟩ (.ofNat 2) enc),
      (serveSent · 0), (serveSent · 0), (respond · 1 0), (respond · 0 1)]

end Sample

/-- The forgery: two reflections and a redirected answer make the callback of the second put
report success, which the thread never received. -/
theorem reflection_forges_success :
    Along Sample.systemStep (System.Adversary .checksum (Sample.setup 10).encKey) Sample.system
        Sample.forgery ∧
      (run Sample.systemStep Sample.system Sample.forgery).client.sent.length < 2 ^ 53 ∧
      ¬ ∀ x ∈ (run Sample.systemStep Sample.system Sample.forgery).client.completions,
        x.ret = .opSuccess →
        ∀ r ∈ (run Sample.systemStep Sample.system Sample.forgery).client.sent,
          r.tag.call = x.call →
          (run Sample.systemStep Sample.system Sample.forgery).Executed r := by
  refine ⟨by decide +kernel, by decide +kernel, ?_⟩
  intro all
  have success : (⟨1, .user 3, .opSuccess, 43⟩ : Completion) ∈
      (run Sample.systemStep Sample.system Sample.forgery).client.completions := by decide +kernel
  have second : ((run Sample.systemStep Sample.system Sample.forgery).client.sent.map
      fun r => (r.tag.call, r.message.kvCall))[1]? = some (1, some (.put [3] [4])) := by
    decide +kernel
  have never : ∀ entry ∈ (run Sample.systemStep Sample.system Sample.forgery).server.kvLog,
      entry.2 ≠ .put [3] [4] := by decide +kernel
  rw [List.getElem?_map] at second
  obtain ⟨r, at_, eq⟩ := Option.map_eq_some_iff.mp second
  obtain ⟨call, asks⟩ := Prod.mk.inj eq
  exact never _ (all _ success rfl r (List.mem_of_getElem? at_) call _ asks) rfl

/-- With a replayed request and a redirected answer, the one success that is reported rests on
the execution of its put. -/
theorem replayed_put_succeeds :
    (run Sample.systemStep Sample.system Sample.replayedPut).client.completions =
        [⟨0, .user 3, .opSuccess, 42⟩] ∧
      ∀ r ∈ (run Sample.systemStep Sample.system Sample.replayedPut).client.sent, r.tag.call = 0 →
        (run Sample.systemStep Sample.system Sample.replayedPut).Executed r := by
  have one : (run Sample.systemStep Sample.system Sample.replayedPut).client.completions =
      [⟨0, .user 3, .opSuccess, 42⟩] := by
    decide +kernel
  have holds := (System.success_not_forged .checksum Sample.config .assoc (Sample.setup 10) []
    Sample.replayedPut (by decide) (by decide) (by decide +kernel) (by decide +kernel)
    (by decide +kernel)).1
  have success : (⟨0, .user 3, .opSuccess, 42⟩ : Completion) ∈
      (run Sample.systemStep Sample.system Sample.replayedPut).client.completions := by
    rw [one]
    exact List.mem_singleton_self _
  exact ⟨one, fun r member call => holds _ success rfl r member call⟩

/-- The disconnect message of client 9, under the same key, shuts down the thread of
client 7. -/
theorem foreign_disconnect_shuts_down :
    Sample.foreignDisconnect ∈ (Client.step .checksum { Sample.setup 5 with id := 9 }.client
        (.sendDisconnect (.ofNat 1) Sample.enc)).sent.map (·.ciphertext) ∧
      ¬ Along Sample.systemStep (System.ShutsDownOnRequest .checksum Sample.config .assoc)
        Sample.system [.serve (Sample.incoming Sample.foreignDisconnect)] := by
  refine ⟨by decide +kernel, ?_⟩
  intro along
  rcases along with ⟨onRequest, -⟩
  have disconnected : (Sample.system.server.serve .checksum Sample.config .assoc
      (Sample.incoming Sample.foreignDisconnect)).thread.stayConnected = false := by
    decide +kernel
  obtain ⟨own, -⟩ := onRequest (Or.inr (Or.inl ⟨rfl, disconnected⟩))
  cases own

end NetworkStack
