import NetworkStack.Isolation
import NetworkStack.Reflection

/-!
# A client and its server thread

The two-party system: a client, the server thread of its ID, and the network
between them. The network is the list of actions: which bytes are handed to
`req_handler` and which are delivered as the response of which request. What the
network may do is a condition along a run (`Machine.Along`), so that an honest
network, a reordering one and an adversary are the same machine.

The system keeps two more histories: the calls that were sent, and every
ciphertext the thread handled with the response it enqueued.
-/

namespace NetworkStack

open Machine

/-- The message a sent request was built from. -/
def Sent.message (s : Sent) : Message :=
  ⟨s.tag.header.seqOp, s.payload.key.getD [], s.payload.value.getD []⟩

/-! ## Sent requests are sealed -/

namespace Client

/-- The lengths of a submission are those of its buffers. -/
structure Submission.WellFormed (s : Submission) : Prop where
  keyLen : s.keyLen = (s.payload.key.getD []).length
  valueLen : s.payload.valueLen = (s.payload.value.getD []).length

theorem Call.submission_wellFormed {k : Call} {s : Submission} (submits : k.submission = some s) :
    s.WellFormed := by
  rcases k with ⟨request, callback, userTag, loopIterations⟩
  cases request with
  | get key value valueLen =>
      obtain ⟨bytes, -, rfl⟩ := Option.map_eq_some_iff.mp submits
      exact ⟨rfl, rfl⟩
  | put key value =>
      obtain ⟨bytes, -, rest⟩ := Option.bind_eq_some_iff.mp submits
      obtain ⟨src, -, rfl⟩ := Option.map_eq_some_iff.mp rest
      exact ⟨rfl, rfl⟩
  | del key =>
      obtain ⟨bytes, -, rfl⟩ := Option.map_eq_some_iff.mp submits
      exact ⟨rfl, rfl⟩

/-- Every ciphertext the client sent carries the message it was built from. -/
def Sealed (gcm : AesGcm) (c : Client) : Prop :=
  ∀ s ∈ c.sent, openMessage gcm c.encKey s.ciphertext = some s.message

theorem getD_nil_or (o : Option Bytes) : o = some (o.getD []) ∨ o = none ∧ o.getD [] = [] := by
  cases o with
  | none => exact Or.inr ⟨rfl, rfl⟩
  | some bytes => exact Or.inl rfl

theorem Sealed.enqueue {gcm : AesGcm} {c : Client} (sealed : c.Sealed gcm) {s : Submission}
    (wellFormed : s.WellFormed) (small : s.keyLen < 2 ^ 64) {enc : EncEnv} {iv : Iv}
    {ciphertext : Bytes} (encrypts :
      (encryptMessage gcm c.encKey enc iv (c.newTag s).header s.payload).2 = some ciphertext) :
    (c.enqueue s ciphertext).Sealed gcm := by
  intro t member
  rcases List.mem_append.mp member with old | new
  · exact sealed t old
  · rw [List.mem_singleton.mp new]
    have describes : Describes (c.newTag s).header s.payload
        (Sent.message ⟨c.nextSlot, c.newTag s, s.payload, ciphertext⟩) := by
      refine ⟨rfl, ?_, ?_, getD_nil_or _, getD_nil_or _, wellFormed.valueLen⟩
      · exact congrArg UInt64.ofNat wellFormed.keyLen
      · exact wellFormed.keyLen ▸ small
    obtain ⟨used, sealedAs⟩ := encryptMessage_seals describes encrypts
    have opens := openMessage_sealMessage gcm c.encKey used describes.keyLt
    rw [← sealedAs] at opens
    exact opens

/-- What the constructor and `connect` set stays, and sent requests stay sealed. -/
structure SealedUnder (gcm : AesGcm) (setup : Setup) (c : Client) : Prop where
  encKey : c.encKey = setup.encKey
  sessionNr : c.sessionNr = setup.sessionNr
  maxKeySize : c.maxKeySize = setup.maxKeySize
  maxValSize : c.maxValSize = setup.maxValSize
  sealed : c.Sealed gcm

theorem SealedUnder.of_eq {gcm : AesGcm} {setup : Setup} {c c' : Client}
    (under : c.SealedUnder gcm setup) (encKey : c'.encKey = c.encKey)
    (sessionNr : c'.sessionNr = c.sessionNr) (maxKeySize : c'.maxKeySize = c.maxKeySize)
    (maxValSize : c'.maxValSize = c.maxValSize) (sent : c'.sent = c.sent) :
    c'.SealedUnder gcm setup := by
  refine ⟨encKey.trans under.encKey, sessionNr.trans under.sessionNr,
    maxKeySize.trans under.maxKeySize, maxValSize.trans under.maxValSize, ?_⟩
  intro s member
  rw [encKey]
  exact under.sealed s (sent ▸ member)

theorem SealedUnder.enqueue {gcm : AesGcm} {setup : Setup} {c : Client}
    (under : c.SealedUnder gcm setup) {s : Submission} (wellFormed : s.WellFormed)
    (small : s.keyLen < 2 ^ 64) {enc : EncEnv} {iv : Iv} {ciphertext : Bytes} (encrypts :
      (encryptMessage gcm c.encKey enc iv (c.newTag s).header s.payload).2 = some ciphertext) :
    (c.enqueue s ciphertext).SealedUnder gcm setup :=
  ⟨under.encKey, under.sessionNr, under.maxKeySize, under.maxValSize,
    under.sealed.enqueue wellFormed small encrypts⟩

theorem Action.Submits.wellFormed {a : Action} {s : Submission} (submits : a.Submits s) :
    s.WellFormed := by
  cases a with
  | call k iv enc => exact Call.submission_wellFormed submits
  | poll d => exact submits.elim
  | sendDisconnect iv enc =>
      rw [submits]
      exact ⟨rfl, rfl⟩

theorem sealedUnder_step {gcm : AesGcm} {setup : Setup} (small : setup.maxKeySize < 2 ^ 64)
    {c : Client} (under : c.SealedUnder gcm setup) (a : Action) :
    (c.step gcm a).SealedUnder gcm setup := by
  rcases c.step_cases gcm a with ⟨d, rfl⟩ | ⟨-, c', calls, returned, eq, -, left⟩
  · obtain ⟨encKey, sessionNr, maxKeySize, maxValSize⟩ := c.deliver_config gcm d
    exact under.of_eq encKey sessionNr maxKeySize maxValSize (c.deliver_sent gcm d).1
  have kept : c'.SealedUnder gcm setup := by
    rcases left with rfl | ⟨s, submits, keyLen, -, rfl | ⟨enc, iv, text, encrypts, rfl⟩⟩
    · exact under
    · exact under.of_eq rfl rfl rfl rfl rfl
    · rw [under.maxKeySize] at keyLen
      exact under.enqueue submits.wellFormed (by omega) encrypts
  rw [eq]
  exact kept.of_eq rfl rfl rfl rfl rfl

theorem sealedUnder_client (gcm : AesGcm) (setup : Setup) :
    setup.client.SealedUnder gcm setup :=
  ⟨rfl, rfl, rfl, rfl, by simp [Sealed, Setup.client, connect, init]⟩

/-- The call that an action sends, if it sends one. -/
def issues (gcm : AesGcm) (c : Client) : Action → List Call
  | .call k iv enc =>
      match c.call gcm (.idle iv enc) k with
      | some (_, 0) => [k]
      | _ => []
  | _ => []

/-- What an action sends: nothing, the request of a call, or a disconnect message. -/
theorem step_sends (gcm : AesGcm) (c : Client) (a : Action) :
    ((c.step gcm a).sent = c.sent ∧ c.issues gcm a = []) ∨
    (∃ k iv enc s text, a = .call k iv enc ∧ k.submission = some s ∧
      (c.queue.queue c.nextSlot).valid = false ∧
      c.step gcm a = ((c.enqueue s text).returns 0).1 ∧ c.issues gcm a = [k]) ∨
    ∃ iv enc text, a = .sendDisconnect iv enc ∧
      c.step gcm a = (c.enqueue disconnectSubmission text).nextCall ∧ c.issues gcm a = [] := by
  cases a with
  | poll d => exact Or.inl ⟨(c.deliver_sent gcm d).1, rfl⟩
  | call k iv enc =>
      simp only [step, issues]
      cases called : c.call gcm (.idle iv enc) k with
      | none => exact Or.inl ⟨rfl, rfl⟩
      | some r =>
          obtain ⟨c', ret⟩ := r
          rcases call_cases called with
            ⟨-, rfl, rfl⟩ | ⟨s, submits, -, free, ⟨-, rfl, rfl⟩ | ⟨text, -, rfl, rfl⟩⟩
          · exact Or.inl ⟨rfl, rfl⟩
          · exact Or.inl ⟨rfl, rfl⟩
          · exact Or.inr (Or.inl ⟨k, iv, enc, s, text, rfl, submits, free, rfl, rfl⟩)
  | sendDisconnect iv enc =>
      simp only [step, issues]
      cases called : c.sendDisconnectMessage gcm (.idle iv enc) with
      | none => exact Or.inl ⟨rfl, trivial⟩
      | some c' =>
          obtain ⟨-, rfl | ⟨text, -, rfl⟩⟩ := sendDisconnect_cases called
          · exact Or.inl ⟨rfl, trivial⟩
          · exact Or.inr (Or.inr ⟨iv, enc, text, rfl, rfl, trivial⟩)

end Client

/-! ## The system -/

structure System (σ : Type) : Type where
  client : Client
  server : Server σ
  /-- the calls that were sent -/
  issued : List Client.Call
  /-- what the thread handled, each with the response it enqueued -/
  served : List (Bytes × Option Bytes)

namespace System

inductive Action : Type
  | client (a : Client.Action)
  | serve (d : Incoming)

variable {σ : Type}

/-- A connected client and the server thread of its ID. -/
def init (setup : Client.Setup) (s : σ) : System σ where
  client := setup.client
  server := .init setup.id s
  issued := []
  served := []

def step (gcm : AesGcm) (cfg : ServerConfig) (kv : KvFunctions σ) (sys : System σ) :
    Action → System σ
  | .client a =>
      { sys with
        client := sys.client.step gcm a
        issued := sys.issued ++ sys.client.issues gcm a }
  | .serve d =>
      { sys with
        server := sys.server.serve gcm cfg kv d
        served := sys.served ++ [(d.ciphertext, sys.server.reply gcm cfg kv d)] }

/-- What holds in every run, whatever the network does. -/
structure Inv (gcm : AesGcm) (setup : Client.Setup) (sys : System σ) : Prop where
  client : sys.client.Inv setup.id (seqOf setup.random)
  under : sys.client.SealedUnder gcm setup
  clientId : sys.server.thread.clientId = setup.id

section Runs

variable {gcm : AesGcm} {cfg : ServerConfig} {kv : KvFunctions σ} {setup : Client.Setup}
  {sys : System σ}

theorem inv_init (gcm : AesGcm) (setup : Client.Setup) (s : σ) :
    (System.init setup s).Inv gcm setup :=
  ⟨Client.inv_client setup, Client.sealedUnder_client gcm setup, rfl⟩

theorem inv_step (small : setup.maxKeySize < 2 ^ 64) (inv : sys.Inv gcm setup)
    (a : Action) : (sys.step gcm cfg kv a).Inv gcm setup := by
  cases a with
  | client a =>
      exact ⟨Client.inv_step inv.client gcm a, Client.sealedUnder_step small inv.under a,
        inv.clientId⟩
  | serve d =>
      refine ⟨inv.client, inv.under, ?_⟩
      exact (run_clientId gcm cfg kv sys.server [d]).trans inv.clientId

/-- The message of a request the client sent. -/
theorem Inv.opens (inv : sys.Inv gcm setup) {s : Sent} (member : s ∈ sys.client.sent) :
    openMessage gcm setup.encKey s.ciphertext = some s.message := by
  rw [← inv.under.encKey]
  exact inv.under.sealed s member

/-- A request that is handed over unmodified brings its message. -/
theorem message_of_sent {d : Incoming} {r : Sent} (key : cfg.encKey = setup.encKey)
    (inv : sys.Inv gcm setup)
    (ok : d.env.dec.Ok) (sent : r ∈ sys.client.sent) (same : r.ciphertext = d.ciphertext) :
    d.message gcm cfg = some r.message := by
  rw [Incoming.message_of_ok ok, key, ← same]
  exact inv.opens sent

/-- Below `2 ^ 53` requests a sequence number determines its request. -/
theorem Inv.sent_eq_of_seq (inv : sys.Inv gcm setup) (few : sys.client.sent.length < 2 ^ 53)
    {s t : Sent} (hs : s ∈ sys.client.sent) (ht : t ∈ sys.client.sent)
    (same : seqOf s.tag.header.seqOp = seqOf t.tag.header.seqOp) : s = t := by
  obtain ⟨i, hi⟩ := List.mem_iff_getElem?.mp hs
  obtain ⟨j, hj⟩ := List.mem_iff_getElem?.mp ht
  have iLt := (List.getElem?_eq_some_iff.mp hi).1
  have jLt := (List.getElem?_eq_some_iff.mp hj).1
  rw [inv.client.numbered.seq i s hi, inv.client.numbered.seq j t hj] at same
  have index : i = j := by
    unfold seqModulus at same
    omega
  subst index
  exact Option.some.inj (hi.symm.trans hj)

theorem run_client_extends (gcm : AesGcm) (cfg : ServerConfig) (kv : KvFunctions σ)
    (sys : System σ) (acts : List Action) :
    sys.client.Extends (run (step gcm cfg kv) sys acts).client := by
  refine run_invariant (I := fun s : System σ => sys.client.Extends s.client) ?_
    (Client.Extends.refl _) acts
  intro s a grows
  cases a with
  | client a => exact grows.trans (Client.step_extends gcm s.client a)
  | serve d => exact grows

/-- A bound on the number of requests of a run holds before each of its steps. -/
theorem along_few {bound : Nat} {acts : List Action}
    (few : (run (step gcm cfg kv) sys acts).client.sent.length < bound) :
    Along (step gcm cfg kv) (fun sys _ => sys.client.sent.length < bound) sys acts := by
  refine along_of_forall ?_
  rintro before a after rfl
  rw [run_append] at few
  obtain ⟨new, eq, -⟩ := (run_client_extends gcm cfg kv
    (run (step gcm cfg kv) sys before) (a :: after)).sent
  rw [eq, List.length_append] at few
  omega

end Runs

end System

/-! ## Runs to evaluate -/

namespace Sample

def system : System (List (Bytes × Bytes)) := System.init (setup 10) []

def systemStep : System (List (Bytes × Bytes)) → System.Action → System (List (Bytes × Bytes)) :=
  System.step .checksum config .assoc

/-- The ciphertext is handed to the thread while no library call fails. -/
def incoming (ciphertext : Bytes) : Incoming := ⟨⟨.ok, ⟨0, 0⟩, .ofNat 9, enc⟩, ciphertext⟩

/-- The thread handles the `n`-th request the client sent. -/
def serveSent (sys : System (List (Bytes × Bytes))) (n : Nat) : System.Action :=
  .serve (incoming ((sys.client.sent.map (·.ciphertext)).getD n []))

/-- The `n`-th response of the thread arrives for the request of `call`. -/
def respond (sys : System (List (Bytes × Bytes))) (call n : Nat) : System.Action :=
  .client (.poll (arrives call ((sys.served.filterMap Prod.snd).getD n [])))

/-- The actions that a strategy takes, each in the state the earlier ones left. -/
def play : System (List (Bytes × Bytes)) →
    List (System (List (Bytes × Bytes)) → System.Action) → List System.Action
  | _, [] => []
  | sys, a :: rest => a sys :: play (systemStep sys (a sys)) rest

end Sample

end NetworkStack
