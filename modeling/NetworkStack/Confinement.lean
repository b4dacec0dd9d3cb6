import NetworkStack.Adversary
import NetworkStack.Cluster
import NetworkStack.Parity

/-!
# Clients that share a key

All clients of a server use one key, so that every ciphertext of one client
opens at every thread and at every other client. What keeps the clients apart is
the ID in the header word. The network holds every ciphertext that any client
and any thread produced, and may hand any of them to any endpoint.

`Cluster.confined_run` says what is left to it: a thread executes nothing but
requests of its own client and its own answers, which have no key, and a client
is told of a success only by its own thread.
-/

namespace NetworkStack

open Machine SharedLog

/-- The key a KV function is called with. -/
def KvCall.key : KvCall → Bytes
  | .get key => key
  | .put key _ => key
  | .delete key => key

theorem Message.key_of_kvCall {m : Message} {call : KvCall} (asks : m.kvCall = some call) :
    call.key = m.key := by
  unfold Message.kvCall at asks
  split at asks <;> cases asks <;> rfl

/-- An answer has no key, and an answer that reports no error has the ID of the thread. -/
theorem answer_confined {σ : Type} {kv : KvFunctions σ} {srv : Server σ} {m r : Message}
    (answers : srv.answer kv m = some r) :
    r.key = [] ∧ (opOf r.seqOp = 3 ∨ idOf r.seqOp = srv.thread.clientId.toNat) := by
  unfold Server.answer at answers
  cases asks : m.kvCall with
  | none =>
      rw [asks] at answers
      cases answers
      exact ⟨rfl, Or.inl (m.response_fields none).2.2⟩
  | some call =>
      rw [asks] at answers
      dsimp only at answers
      split at answers
      · rename_i accepted
        cases answers
        refine ⟨rfl, Or.inr ?_⟩
        rw [(m.response_fields _).2.1]
        exact accepted.1
      · cases answers

namespace Client

/-- A verdict of success needs a response to the request, with its operation. -/
theorem verdict_success {gcm : AesGcm} {encKey : Bytes} {tag : SentMessageTag} {mem : Mem}
    {d : Delivery} {w : UInt64} (verdictEq : verdict gcm encKey tag mem d = some (.opSuccess, w)) :
    ∃ m, openMessage gcm encKey d.response = some m ∧ Answers m.seqOp tag ∧
      opOf m.seqOp = opOf tag.header.seqOp := by
  obtain ⟨decrypts, rfl, answers⟩ := verdict_inv verdictEq (by decide)
  obtain ⟨m, opens, word⟩ := decrypts.opens
  refine ⟨m, opens, word ▸ answers, ?_⟩
  unfold verdict at verdictEq
  dsimp only at verdictEq
  rw [if_pos decrypts, if_pos answers, word] at verdictEq
  by_contra other
  rw [if_neg (Ne.symm other)] at verdictEq
  cases verdictEq

end Client

theorem System.Inv.withKv {σ τ : Type} {gcm : AesGcm} {setup : Client.Setup} {sys : System σ}
    (inv : sys.Inv gcm setup) (kv : τ) : (sys.withKv kv).Inv gcm setup :=
  ⟨inv.client, inv.under, inv.clientId⟩

namespace Cluster

variable {σ : Type}

/-- Bytes the network can deliver: produced by some client or some thread, or opening to
nothing. -/
def Available (gcm : AesGcm) (encKey : Bytes) (c : Cluster σ) (b : Bytes) : Prop :=
  (∃ id, b ∈ (c.parties id).client.sent.map (·.ciphertext)) ∨
    (∃ id, b ∈ (c.parties id).served.filterMap Prod.snd) ∨ openMessage gcm encKey b = none

/-- The network delivers nothing but available bytes, to any endpoint. -/
def Adversary (gcm : AesGcm) (encKey : Bytes) (c : Cluster σ) (a : Action) : Prop :=
  match a.act with
  | .serve d => c.Available gcm encKey d.ciphertext
  | .client (.poll d) => c.Available gcm encKey d.response
  | .client _ => True

/-- A thread answered with this message. -/
def Replied (gcm : AesGcm) (encKey : Bytes) (party : System Unit) (m : Message) : Prop :=
  ∃ q b, (q, some b) ∈ party.served ∧ openMessage gcm encKey b = some m

/-- The KV call is one that the client asked for in a request, or one without a key that was
read from an answer of the thread. -/
def Attributed (gcm : AesGcm) (encKey : Bytes) (party : System Unit) (call : KvCall) : Prop :=
  (∃ r ∈ party.client.sent, r.message.kvCall = some call) ∨
    call.key = [] ∧ ∃ m, Replied gcm encKey party m ∧ m.kvCall = some call

/-- The success was reported for a request, and the thread answered that request, unless it was
a disconnect message. -/
def Confirmed (gcm : AesGcm) (encKey : Bytes) (party : System Unit) (x : Completion) : Prop :=
  ∃ r ∈ party.client.sent, r.tag.call = x.call ∧
    (opOf r.tag.header.seqOp ≠ 3 → ∃ m, Replied gcm encKey party m ∧
      Client.Answers m.seqOp r.tag ∧ opOf m.seqOp = opOf r.tag.header.seqOp)

/-- What holds whatever the network does with the ciphertexts it has. -/
structure Confined (gcm : AesGcm) (encKey : Bytes) (setups : UInt8 → Client.Setup)
    (c : Cluster σ) : Prop where
  inv : ∀ id, (c.parties id).Inv gcm (setupOf setups id)
  replies : ∀ id m, Replied gcm encKey (c.parties id) m →
    m.key = [] ∧ (opOf m.seqOp = 3 ∨ idOf m.seqOp = id.toNat)
  log : ∀ id call, (id, call) ∈ c.log → Attributed gcm encKey (c.parties id) call
  success : ∀ id, ∀ x ∈ (c.parties id).client.completions, x.ret = .opSuccess →
    Confirmed gcm encKey (c.parties id) x

/-- One party sends more requests and answers more of them. -/
structure Grows (party party' : System Unit) : Prop where
  sent : ∀ r ∈ party.client.sent, r ∈ party'.client.sent
  served : ∀ entry ∈ party.served, entry ∈ party'.served

section Growth

variable {gcm : AesGcm} {cfg : ServerConfig} {kv : KvFunctions σ} {encKey : Bytes}
  {party party' : System Unit}

theorem Grows.refl (party : System Unit) : Grows party party :=
  ⟨fun _ member => member, fun _ member => member⟩

theorem Grows.replied (grows : Grows party party') {m : Message}
    (replied : Replied gcm encKey party m) : Replied gcm encKey party' m := by
  obtain ⟨q, b, served, opens⟩ := replied
  exact ⟨q, b, grows.served _ served, opens⟩

theorem Grows.attributed (grows : Grows party party') {call : KvCall}
    (attributed : Attributed gcm encKey party call) : Attributed gcm encKey party' call := by
  rcases attributed with ⟨r, sent, asks⟩ | ⟨noKey, m, replied, asks⟩
  · exact Or.inl ⟨r, grows.sent r sent, asks⟩
  · exact Or.inr ⟨noKey, m, grows.replied replied, asks⟩

theorem Grows.confirmed (grows : Grows party party') {x : Completion}
    (confirmed : Confirmed gcm encKey party x) : Confirmed gcm encKey party' x := by
  obtain ⟨r, sent, call, answered⟩ := confirmed
  refine ⟨r, grows.sent r sent, call, fun request => ?_⟩
  obtain ⟨m, replied, answers, op⟩ := answered request
  exact ⟨m, grows.replied replied, answers, op⟩

theorem step_grows (gcm : AesGcm) (cfg : ServerConfig) (kv : KvFunctions σ) (c : Cluster σ)
    (a : Action) (id : UInt8) : Grows (c.parties id) ((c.step gcm cfg kv a).parties id) := by
  by_cases own : id = a.id
  · subst own
    rw [step_parties_self]
    cases act : a.act with
    | client b =>
        exact ⟨fun r member => (Client.step_extends gcm (c.parties a.id).client b).mem member,
          fun entry member => member⟩
    | serve d => exact ⟨fun r member => member, fun entry => List.mem_append_left _⟩
  · rw [step_parties_of_ne gcm cfg kv c own]
    exact .refl _

end Growth

section Runs

variable {gcm : AesGcm} {cfg : ServerConfig} {kv : KvFunctions σ} {encKey : Bytes}
  {setups : UInt8 → Client.Setup} {c : Cluster σ}

theorem confined_init (gcm : AesGcm) (encKey : Bytes) (setups : UInt8 → Client.Setup) (s : σ) :
    (init setups s).Confined gcm encKey setups := by
  refine ⟨fun id => System.inv_init gcm (setupOf setups id) (), ?_, ?_, ?_⟩
  · rintro id m ⟨q, b, served, -⟩
    cases served
  · intro id call member
    cases member
  · intro id x member
    cases member

/-- A step of one party keeps the invariants of all. -/
theorem inv_step (inv : ∀ id, (c.parties id).Inv gcm (setupOf setups id))
    (small : ∀ id, (setupOf setups id).maxKeySize < 2 ^ 64) (a : Action) (id : UInt8) :
    ((c.step gcm cfg kv a).parties id).Inv gcm (setupOf setups id) := by
  by_cases own : id = a.id
  · subst own
    rw [step_parties_self]
    exact (System.inv_step (small a.id) ((inv a.id).withKv c.kv) a.act).withKv ()
  · rw [step_parties_of_ne gcm cfg kv c own]
    exact inv id

/-- A message with the ID of a thread that some endpoint produced, and that reports no error,
comes from the client or the thread of that ID. -/
theorem Confined.origin (confined : c.Confined gcm encKey setups)
    (shared : ∀ id, (setupOf setups id).encKey = encKey) {b : Bytes} {m : Message} {id : UInt8}
    (available : c.Available gcm encKey b) (opens : openMessage gcm encKey b = some m)
    (ownId : idOf m.seqOp = id.toNat) (request : opOf m.seqOp ≠ 3) :
    (∃ r ∈ (c.parties id).client.sent, r.message = m) ∨ Replied gcm encKey (c.parties id) m := by
  rcases available with ⟨j, sent⟩ | ⟨j, served⟩ | closed
  · obtain ⟨r, member, rfl⟩ := List.mem_map.mp sent
    have opens' := (confined.inv j).opens member
    rw [shared j, opens] at opens'
    have same := Option.some.inj opens'
    have theirs : idOf r.message.seqOp = j.toNat := (confined.inv j).client.numbered.sentId r member
    rw [← same, ownId] at theirs
    cases UInt8.toNat_inj.mp theirs
    exact Or.inl ⟨r, member, same.symm⟩
  · obtain ⟨⟨q, out⟩, member, isSome⟩ := List.mem_filterMap.mp served
    have eq : out = some b := isSome
    subst eq
    have replied : Replied gcm encKey (c.parties j) m := ⟨q, b, member, opens⟩
    rcases (confined.replies j m replied).2 with error | theirs
    · exact (request error).elim
    · rw [ownId] at theirs
      cases UInt8.toNat_inj.mp theirs
      exact Or.inr replied
  · rw [closed] at opens
    cases opens

/-- A delivery to a thread. -/
theorem confined_serve (key : cfg.encKey = encKey)
    (shared : ∀ id, (setupOf setups id).encKey = encKey)
    (small : ∀ id, (setupOf setups id).maxKeySize < 2 ^ 64)
    (confined : c.Confined gcm encKey setups) {id : UInt8} {d : Incoming}
    (available : c.Available gcm encKey d.ciphertext) :
    (c.step gcm cfg kv ⟨id, .serve d⟩).Confined gcm encKey setups := by
  have grows := step_grows gcm cfg kv c ⟨id, .serve d⟩
  have self := step_parties_self gcm cfg kv c ⟨id, .serve d⟩
  have clientId : (c.system id).server.thread.clientId = id := (confined.inv id).clientId
  refine ⟨inv_step confined.inv small _, ?_, ?_, ?_⟩
  · intro other m replied
    by_cases own : other = id
    · subst own
      obtain ⟨q, b, served, opens⟩ := replied
      rw [self] at served
      rcases List.mem_append.mp served with old | new
      · exact confined.replies other m ⟨q, b, old, opens⟩
      · obtain ⟨-, sent⟩ := Prod.mk.inj (List.mem_singleton.mp new)
        obtain ⟨m', r, -, answers, opensR⟩ := reply_inv sent.symm
        rw [key, opens] at opensR
        cases opensR
        have answer := answer_confined answers
        rwa [clientId] at answer
    · rw [step_parties_of_ne gcm cfg kv c own] at replied
      exact confined.replies other m replied
  · intro other call member
    rw [(step_serve_log gcm cfg kv c id d).1] at member
    rcases List.mem_append.mp member with old | new
    · exact (grows other).attributed (confined.log other call old)
    · rcases serve_kv gcm cfg kv (c.system id).server d with
        ⟨nothing, -⟩ | ⟨m, call', brings, asks, accepted, executes, -⟩
      · rw [nothing] at new
        cases new
      · rw [executes] at new
        cases List.mem_singleton.mp new
        refine (grows id).attributed ?_
        obtain ⟨-, opens⟩ := d.message_inv brings
        rw [key] at opens
        have request : opOf m.seqOp ≠ 3 := by
          intro error
          rw [(m.kvCall_eq_none_iff).mpr error] at asks
          cases asks
        have ownId : idOf m.seqOp = id.toNat := by
          rw [← clientId]
          exact accepted.1
        rcases confined.origin shared available opens ownId request with
          ⟨r, sent, rfl⟩ | replied
        · exact Or.inl ⟨r, sent, asks⟩
        · refine Or.inr ⟨?_, m, replied, asks⟩
          rw [Message.key_of_kvCall asks]
          exact (confined.replies id m replied).1
  · intro other x member success
    refine (grows other).confirmed (confined.success other x ?_ success)
    by_cases own : other = id
    · subst own
      rw [self] at member
      exact member
    · rwa [step_parties_of_ne gcm cfg kv c own] at member

/-- A success that a client is told of when it polls comes from its thread. -/
theorem Confined.confirmed_poll (confined : c.Confined gcm encKey setups)
    (shared : ∀ id, (setupOf setups id).encKey = encKey) {id : UInt8} {d : Delivery}
    (available : c.Available gcm encKey d.response) {x : Completion}
    (member : x ∈ ((c.parties id).client.deliver gcm d).completions)
    (success : x.ret = .opSuccess) : Confirmed gcm encKey (c.parties id) x := by
  have inv := (confined.inv id).client
  rcases Client.mem_completions_deliver member with
    old | ⟨n, k, ret, w, found, verdictEq, valid, call, isRet⟩
  · exact confined.success id x old success
  · rw [success] at isRet
    subst isRet
    rw [inv.namedSlot_of_verdict found verdictEq (by decide)] at valid call
    obtain ⟨s, sent, -, tag⟩ := inv.occupied.slots k valid
    obtain ⟨m, opens, answers, op⟩ := Client.verdict_success verdictEq
    rw [(confined.inv id).under.encKey, shared id] at opens
    rw [← tag] at answers op call
    refine ⟨s, sent, call.symm, fun request => ⟨m, ?_, answers, op⟩⟩
    have ownId : idOf m.seqOp = id.toNat := answers.2.trans (inv.numbered.sentId s sent)
    rcases confined.origin shared available opens ownId (op ▸ request) with
      ⟨r, sent', rfl⟩ | replied
    · refine (Client.not_answers_of_parity ?_ answers).elim
      exact (inv.numbered.sent_parity sent').trans (inv.numbered.sent_parity sent).symm
    · exact replied

/-- An action of a client. -/
theorem confined_client (shared : ∀ id, (setupOf setups id).encKey = encKey)
    (small : ∀ id, (setupOf setups id).maxKeySize < 2 ^ 64)
    (confined : c.Confined gcm encKey setups) {id : UInt8} {a : Client.Action}
    (adversary : c.Adversary gcm encKey ⟨id, .client a⟩) :
    (c.step gcm cfg kv ⟨id, .client a⟩).Confined gcm encKey setups := by
  have grows := step_grows gcm cfg kv c ⟨id, .client a⟩
  have self := step_parties_self gcm cfg kv c ⟨id, .client a⟩
  refine ⟨inv_step confined.inv small _, ?_, ?_, ?_⟩
  · intro other m replied
    refine confined.replies other m ?_
    by_cases own : other = id
    · subst own
      rw [self] at replied
      exact replied
    · rwa [step_parties_of_ne gcm cfg kv c own] at replied
  · intro other call member
    rw [(step_client gcm cfg kv c id a).2.1] at member
    exact (grows other).attributed (confined.log other call member)
  · intro other x member success
    refine (grows other).confirmed ?_
    by_cases own : other = id
    · subst own
      rw [self] at member
      change x ∈ ((c.parties other).client.step gcm a).completions at member
      cases a with
      | poll d => exact confined.confirmed_poll shared adversary member success
      | call k iv enc =>
          rw [Client.completions_step_of_not_poll gcm _ (by rintro d ⟨⟩)] at member
          exact confined.success other x member success
      | sendDisconnect iv enc =>
          rw [Client.completions_step_of_not_poll gcm _ (by rintro d ⟨⟩)] at member
          exact confined.success other x member success
    · rw [step_parties_of_ne gcm cfg kv c own] at member
      exact confined.success other x member success

/-- In every interleaving of clients that share a key, whatever the network does with the
ciphertexts of all of them: a thread executes only calls that its client asked for, or calls
without a key read from its own answers, and a success of a get, a put or a delete is reported
only for a request that the thread of this client answered. -/
theorem confined_run (gcm : AesGcm) (cfg : ServerConfig) (kv : KvFunctions σ)
    (setups : UInt8 → Client.Setup) (s : σ) (shared : ∀ id, (setups id).encKey = cfg.encKey)
    (small : ∀ id, (setups id).maxKeySize < 2 ^ 64) {acts : List Action}
    (adversary : Along (step gcm cfg kv) (Adversary gcm cfg.encKey) (init setups s) acts) :
    (∀ id call, (id, call) ∈ (run (step gcm cfg kv) (init setups s) acts).log →
        Attributed gcm cfg.encKey ((run (step gcm cfg kv) (init setups s) acts).parties id) call) ∧
      ∀ id, ∀ x ∈ ((run (step gcm cfg kv) (init setups s) acts).parties id).client.completions,
        x.ret = .opSuccess →
        Confirmed gcm cfg.encKey ((run (step gcm cfg kv) (init setups s) acts).parties id) x := by
  have preserved : ∀ (c : Cluster σ) (a : Action), c.Confined gcm cfg.encKey setups →
      c.Adversary gcm cfg.encKey a → (c.step gcm cfg kv a).Confined gcm cfg.encKey setups := by
    intro c a confined here
    rcases a with ⟨id, act⟩
    cases act with
    | client a => exact confined_client shared small confined here
    | serve d => exact confined_serve rfl shared small confined here
  have confined := run_invariant_of_along preserved
    (confined_init gcm cfg.encKey setups s) adversary
  exact ⟨confined.log, confined.success⟩

end Runs

end Cluster

namespace Sample

/-- The put of client 3 is handed to thread 7 and to its own thread, which answers. -/
def redirectedPut : List Cluster.Action :=
  interleave cluster
    [party 3 fun _ => .client (.call (putCall 42) (.ofNat 1) enc),
      fun c => ⟨7, serveSent (c.system 3) 0⟩, party 3 (serveSent · 0), party 3 (respond · 0 0)]

theorem adversary_redirectedPut :
    Along clusterStep (Cluster.Adversary .checksum config.encKey) cluster redirectedPut := by
  refine along_cons.mpr ⟨True.intro, along_cons.mpr ⟨?_, along_cons.mpr ⟨?_, along_cons.mpr
    ⟨?_, along_nil _⟩⟩⟩⟩
  · exact Or.inl ⟨3, by decide +kernel⟩
  · exact Or.inl ⟨3, by decide +kernel⟩
  · exact Or.inr (Or.inl ⟨3, by decide +kernel⟩)

end Sample

/-- Thread 7 does nothing with the put of client 3, which succeeds at thread 3. -/
theorem redirected_put_confined :
    (run Sample.clusterStep Sample.cluster Sample.redirectedPut).log = [(3, .put [1] [2])] ∧
      ((run Sample.clusterStep Sample.cluster Sample.redirectedPut).parties 3).client.completions =
        [⟨0, .user 3, .opSuccess, 42⟩] ∧
      Cluster.Confirmed .checksum Sample.config.encKey
        ((run Sample.clusterStep Sample.cluster Sample.redirectedPut).parties 3)
        ⟨0, .user 3, .opSuccess, 42⟩ := by
  have told : ((run Sample.clusterStep Sample.cluster Sample.redirectedPut).parties
      3).client.completions = [⟨0, .user 3, .opSuccess, 42⟩] := by decide +kernel
  refine ⟨by decide +kernel, told, ?_⟩
  refine (Cluster.confined_run .checksum Sample.config .assoc (fun _ => Sample.setup 10) []
    (fun _ => rfl) (fun _ => by decide) Sample.adversary_redirectedPut).2 3 _ ?_ rfl
  exact told ▸ List.mem_singleton_self _

end NetworkStack
