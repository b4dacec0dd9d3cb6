import NetworkStack.Cluster
import NetworkStack.UntrustedKv

/-!
# The service over untrusted memory

The server of the performance tests hosts the store of `untrusted_kv.cpp`: what
clients put crosses the network encrypted, is decrypted by a thread, and lies
encrypted in untrusted memory until a get of any client takes the way back.

`Cluster.Over` relates two clusters whose parties did the same over different
stores. `Cluster.Over.step` keeps it over any network if the stores answer alike,
so that a store can be verified on its own and replaced by what it refines.
`served_from_untrusted_memory` does so for the encrypted store and a plain map.

A handler is one step of a cluster. What other threads do between the lookup of
a `kv_put` and its lock is in the environment: the lookup may be from a time
before the key was there (`StoreEnv.early`), and such a put is lost.
-/

namespace NetworkStack

open FlatMemory Machine SharedLog

/-! ## Clusters over two stores -/

namespace Cluster

variable {σ τ : Type} {gcm : AesGcm} {cfg : ServerConfig} {kv : KvFunctions σ}
  {kv' : KvFunctions τ} {R : σ → τ → Prop} {C : τ → KvCall → Prop}

/-- The call that a delivery leads to meets a condition on the store. -/
def Calls (gcm : AesGcm) (cfg : ServerConfig) (C : τ → KvCall → Prop) (c : Cluster τ)
    (a : Action) : Prop :=
  ∀ d call, a.act = .serve d → (c.system a.id).server.executes gcm cfg d = some call →
    C c.kv call

/-- The clusters are the same but for their stores, which are related. -/
structure Over (R : σ → τ → Prop) (c : Cluster σ) (c' : Cluster τ) : Prop where
  parties : c.parties = c'.parties
  log : c.log = c'.log
  kv : R c.kv c'.kv

/-- Stores that answer alike and stay related cannot be told apart by a step of any party. -/
theorem Over.step
    (simulates : ∀ s t call, R s t → C t call →
      R (kv.invoke s call).1 (kv'.invoke t call).1 ∧ (kv.invoke s call).2 = (kv'.invoke t call).2)
    {c : Cluster σ} {c' : Cluster τ} (alike : c.Over R c') {a : Action}
    (calls : c'.Calls gcm cfg C a) : (c.step gcm cfg kv a).Over R (c'.step gcm cfg kv' a) := by
  obtain ⟨parties, s, log⟩ := c
  obtain ⟨parties', t, log'⟩ := c'
  obtain ⟨rfl, rfl, related⟩ := alike
  rcases a with ⟨id, act⟩
  cases act with
  | client a =>
      obtain ⟨store, same, -⟩ := step_client gcm cfg kv ⟨parties, s, log⟩ id a
      obtain ⟨store', same', -⟩ := step_client gcm cfg kv' ⟨parties, t, log⟩ id a
      refine ⟨rfl, same.trans same'.symm, ?_⟩
      rw [store, store']
      exact related
  | serve d =>
      obtain ⟨log, store, -⟩ := step_serve_log gcm cfg kv ⟨parties, s, log⟩ id d
      obtain ⟨log', store', -⟩ := step_serve_log gcm cfg kv' ⟨parties, t, _⟩ id d
      have executes : (((parties id).withKv t).server.executes gcm cfg d) =
          ((parties id).withKv s).server.executes gcm cfg d := rfl
      have here : ∀ call, ((parties id).withKv s).server.executes gcm cfg d = some call →
          R (kv.invoke s call).1 (kv'.invoke t call).1 ∧
            (kv.invoke s call).2 = (kv'.invoke t call).2 :=
        fun call is_ => simulates s t call related (calls d call rfl is_)
      obtain ⟨serves, replies⟩ := serve_withKv kv kv' ((parties id).withKv s).server t d
        fun call is_ => (here call is_).2.symm
      refine ⟨?_, ?_, ?_⟩
      · have server : (((parties id).withKv s).server.serve gcm cfg kv d).withKv () =
            (((parties id).withKv t).server.serve gcm cfg kv' d).withKv () :=
          (congrArg (Server.withKv · ()) serves).symm
        have party : (((parties id).withKv s).step gcm cfg kv (.serve d)).withKv () =
            (((parties id).withKv t).step gcm cfg kv' (.serve d)).withKv () := by
          change System.mk (parties id).client _ _ ((parties id).served ++ _) =
            System.mk (parties id).client _ _ ((parties id).served ++ _)
          congr 1
          exact congrArg (fun reply => (parties id).served ++ [(d.ciphertext, reply)]) replies.symm
        exact congrArg (Function.update parties id) party
      · exact log.trans log'.symm
      · rw [store, store']
        change R (((parties id).withKv s).server.executes gcm cfg d |>.elim s _)
          (((parties id).withKv s).server.executes gcm cfg d |>.elim t _)
        cases executed : ((parties id).withKv s).server.executes gcm cfg d with
        | none => exact related
        | some call => exact (here call executed).1

end Cluster

/-! ## The store of the performance tests -/

/-- The thread that makes a call, and what happens during it. A `kv_put` that is early looked
its key up before the key was there. -/
structure StoreEnv : Type where
  thread : Nat
  early : Bool
  put : PutEnv
  get : GetEnv

/-- No library call fails. -/
structure StoreEnv.Ok (env : StoreEnv) : Prop where
  enc : env.put.enc.Ok
  mapped : env.put.mapped ≠ 0
  malloc : env.get.malloc.isSome = true
  dec : env.get.dec.Ok

/-- `kv_put` before the lock. -/
def UntrustedKv.waitingPut (env : StoreEnv) (key value : Bytes) (s : UntrustedKv) : UntrustedKv :=
  if env.early then
    { s with puts := Function.update s.puts env.thread (some ⟨key, value, none⟩) }
  else s.kvPutLookup env.thread key value

/-- The functions of `untrusted_kv.cpp`; the state counts the calls. Nothing is said of the
deletion of a key that is there. -/
def KvFunctions.untrusted (gcm : AesGcm) (encKey : Bytes) (valSize : Nat) (env : Nat → StoreEnv) :
    KvFunctions (UntrustedKv × Nat) where
  kvGet s key :=
    let r := s.1.kvGet gcm encKey valSize (env s.2).get (env s.2).thread key
    ((r.1, s.2 + 1), r.2)
  kvPut s key value :=
    let r := (s.1.waitingPut (env s.2) key value).kvPut gcm encKey valSize (env s.2).put
      (env s.2).thread
    ((r.1, s.2 + 1), r.2)
  kvDelete s key := ((s.1, s.2 + 1), (s.1.kvDelete key).getD 0)

/-- A map, in which an early put of a key that is there is lost. -/
def KvFunctions.map (early : Nat → Bool) : KvFunctions ((Bytes → Option Bytes) × Nat) where
  kvGet m key := ((m.1, m.2 + 1), m.1 key)
  kvPut m key value :=
    ((if early m.2 && (m.1 key).isSome then m.1 else Function.update m.1 key (some value),
      m.2 + 1), 0)
  kvDelete m _ := ((m.1, m.2 + 1), -1)

/-- What the clients promise: values have `VAL_SIZE` bytes, and no key that is there is
deleted. -/
def Promised (valSize : Nat) (m : (Bytes → Option Bytes) × Nat) : KvCall → Prop
  | .get _ => True
  | .put _ value => value.length = valSize
  | .delete key => m.1 key = none

namespace UntrustedKv

/-- The store backs a map between its calls. -/
structure Backs (gcm : AesGcm) (encKey : Bytes) (valSize : Nat) (env : Nat → StoreEnv)
    (memory : Memory) (s : UntrustedKv × Nat) (m : (Bytes → Option Bytes) × Nat) : Prop where
  calls : s.2 = m.2
  represents : s.1.Represents gcm encKey valSize memory ⟨m.1, fun _ => none⟩
  areas : ∀ base ∈ s.1.arena.areas, ∃ n, n < s.2 ∧ base = (env n).put.mapped

section Store

variable {gcm : AesGcm} {encKey : Bytes} {valSize : Nat} {env : Nat → StoreEnv} {memory : Memory}
  {s : UntrustedKv × Nat} {m : (Bytes → Option Bytes) × Nat}

theorem mem_areas_blockFor {s : UntrustedKv} {e : PutEnv} {put : PendingPut} {base : Nat}
    (member : base ∈ (s.blockFor valSize e put).2.arena.areas) :
    base = e.mapped ∨ base ∈ s.arena.areas := by
  unfold blockFor untrustedMalloc at member
  cases found : put.iter with
  | some block =>
      rw [found] at member
      exact Or.inr member
  | none =>
      rw [found] at member
      refine Arena.mem_areas_alloc (areaSize valSize) (ciphertextSize valSize) ?_
      dsimp only at member
      cases new : (s.arena.alloc (areaSize valSize) (ciphertextSize valSize) e.mapped).1 with
      | none =>
          rw [new] at member
          exact member
      | some block =>
          rw [new] at member
          unfold insert at member
          dsimp only at member
          split at member
          · exact member
          · exact member

/-- `kv_put` maps no area but its own. -/
theorem mem_areas_kvPut {s : UntrustedKv} {e : PutEnv} {thread base : Nat}
    (member : base ∈ (s.kvPut gcm encKey valSize e thread).1.arena.areas) :
    base = e.mapped ∨ base ∈ s.arena.areas := by
  unfold kvPut at member
  split at member
  · exact Or.inr member
  · rename_i put waits
    have kept : ∀ base ∈ (UntrustedKv.blockFor valSize e put
        { s with puts := Function.update s.puts thread none }).2.arena.areas,
        base = e.mapped ∨ base ∈ s.arena.areas := fun _ among =>
      mem_areas_blockFor (s := { s with puts := Function.update s.puts thread none }) among
    dsimp only at member
    split at member
    · rename_i t isBlock
      rw [isBlock] at kept
      exact kept base member
    · rename_i block t isBlock
      rw [isBlock] at kept
      split at member
      · exact kept base member
      · exact kept base member

/-- The only put that waits takes the lock. -/
theorem invoke_waiting (map : Bytes → Option Bytes) (thread : Nat) (key value : Bytes)
    (found : Bool) (e : PutEnv) :
    (SharedMap.mk map (Function.update (fun _ => none) thread
        (some (key, value, found)))).invoke (.put thread e) =
      (⟨if !found && (map key).isSome then map else Function.update map key (some value),
        fun _ => none⟩, .stored 0) := by
  unfold SharedMap.invoke SharedMap.overtaken
  simp only [Function.update_self, Function.update_idem]
  rw [Function.update_eq_self]

/-- A call that maps nothing. -/
theorem Backs.next (backs : Backs gcm encKey valSize env memory s m) {s' : UntrustedKv}
    (same : s'.arena = s.1.arena)
    (represents : s'.Represents gcm encKey valSize memory ⟨m.1, fun _ => none⟩) :
    Backs gcm encKey valSize env memory (s', s.2 + 1) (m.1, m.2 + 1) := by
  refine ⟨congrArg (· + 1) backs.calls, represents, ?_⟩
  intro base member
  rw [same] at member
  obtain ⟨n, before, eq⟩ := backs.areas base member
  exact ⟨n, Nat.lt_succ_of_lt before, eq⟩

theorem Backs.put (libraries : ∀ n, (env n).Ok)
    (apart : ∀ n k, n ≠ k → Arena.Apart (areaSize valSize) (env n).put.mapped (env k).put.mapped)
    (backs : Backs gcm encKey valSize env memory s m) (key : Bytes) {value : Bytes}
    (size : value.length = valSize) :
    Backs gcm encKey valSize env memory
        ((KvFunctions.untrusted gcm encKey valSize env).kvPut s key value).1
        ((KvFunctions.map fun n => (env n).early).kvPut m key value).1 ∧
      ((KvFunctions.untrusted gcm encKey valSize env).kvPut s key value).2 = 0 := by
  obtain ⟨calls, represents, areas⟩ := backs
  let e := env s.2
  have ok := libraries s.2
  obtain ⟨found, waits, isFound, same⟩ : ∃ found,
      (s.1.waitingPut e key value).Represents gcm encKey valSize memory
        ⟨m.1, Function.update (fun _ => none) e.thread (some (key, value, found))⟩ ∧
      (!found && (m.1 key).isSome) = (e.early && (m.1 key).isSome) ∧
      (s.1.waitingPut e key value).arena = s.1.arena := by
    unfold waitingPut
    cases e.early with
    | true =>
        exact ⟨false, represents.waits e.thread ⟨key, value, none⟩ size
          (fun p found => by cases found), rfl, rfl⟩
    | false =>
        refine ⟨(m.1 key).isSome, represents.lookup e.thread key size, ?_, rfl⟩
        cases (m.1 key).isSome <;> rfl
  have admissible : (s.1.waitingPut e key value).Admissible valSize (.put e.thread e.put) := by
    refine ⟨ok.enc, ok.mapped, ?_⟩
    intro base member
    rw [same] at member
    obtain ⟨n, before, rfl⟩ := areas base member
    exact apart _ _ (Nat.ne_of_gt before)
  obtain ⟨stored, answer⟩ := waits.invoke admissible
  rw [invoke_waiting, isFound] at stored answer
  refine ⟨⟨congrArg (· + 1) calls, ?_, ?_⟩, Answer.stored.inj answer⟩
  · change Represents gcm encKey valSize memory _ ⟨if (env m.2).early && _ then _ else _, _⟩
    rw [← calls]
    exact stored
  · intro base member
    rcases mem_areas_kvPut member with rfl | old
    · exact ⟨s.2, Nat.lt_succ_self _, rfl⟩
    · rw [same] at old
      obtain ⟨n, before, eq⟩ := areas base old
      exact ⟨n, Nat.lt_succ_of_lt before, eq⟩

/-- A call. -/
theorem Backs.invoke (libraries : ∀ n, (env n).Ok)
    (apart : ∀ n k, n ≠ k → Arena.Apart (areaSize valSize) (env n).put.mapped (env k).put.mapped)
    (backs : Backs gcm encKey valSize env memory s m) {call : KvCall}
    (promised : Promised valSize m call) :
    Backs gcm encKey valSize env memory
        ((KvFunctions.untrusted gcm encKey valSize env).invoke s call).1
        ((KvFunctions.map fun n => (env n).early).invoke m call).1 ∧
      ((KvFunctions.untrusted gcm encKey valSize env).invoke s call).2 =
        ((KvFunctions.map fun n => (env n).early).invoke m call).2 := by
  cases call with
  | get key =>
      have admissible : s.1.Admissible valSize (.get (env s.2).thread key (env s.2).get) :=
        ⟨(libraries s.2).malloc, (libraries s.2).dec⟩
      obtain ⟨represents, found⟩ := backs.represents.get admissible
      refine ⟨backs.next ?_ represents, found⟩
      unfold kvGet
      dsimp only
      split <;> rfl
  | put key value =>
      obtain ⟨next, stored⟩ := backs.put libraries apart key promised
      refine ⟨next, ?_⟩
      unfold KvFunctions.invoke
      dsimp only
      rw [stored]
      rfl
  | delete key =>
      have absent : s.1.find key = none := by
        have both : (m.1 key).isSome = (s.1.find key).isSome :=
          backs.represents.isSome_find key
        rw [show m.1 key = none from promised] at both
        exact Option.isNone_iff_eq_none.mp (Option.isSome_eq_false_iff.mp both.symm)
      have missing : ((KvFunctions.untrusted gcm encKey valSize env).kvDelete s key).2 = -1 := by
        change (s.1.kvDelete key).getD 0 = -1
        unfold kvDelete
        rw [absent]
        rfl
      refine ⟨backs.next rfl backs.represents, ?_⟩
      unfold KvFunctions.invoke
      dsimp only
      rw [missing]
      rfl

end Store

end UntrustedKv

/-- Whatever the network does, as long as the clients' calls keep the promises: behind the
clients and the threads the encrypted store cannot be told from a map that loses the early puts.
Every client and every thread does the same, with the same responses and the same calls in the
log, and the blocks in untrusted memory carry the values of the map. -/
theorem served_from_untrusted_memory (gcm : AesGcm) (cfg : ServerConfig)
    (setups : UInt8 → Client.Setup) (valSize : Nat) (memory : Memory) (iv : Iv)
    (env : Nat → StoreEnv) (libraries : ∀ n, (env n).Ok)
    (apart : ∀ n k, n ≠ k → Arena.Apart (UntrustedKv.areaSize valSize) (env n).put.mapped
      (env k).put.mapped) {acts : List Cluster.Action}
    (promised : Along (Cluster.step gcm cfg (.map fun n => (env n).early))
      (Cluster.Calls gcm cfg (Promised valSize)) (Cluster.init setups (fun _ => none, 0)) acts) :
    (run (Cluster.step gcm cfg (.untrusted gcm cfg.encKey valSize env))
        (Cluster.init setups (UntrustedKv.init memory iv, 0)) acts).Over
      (UntrustedKv.Backs gcm cfg.encKey valSize env memory)
      (run (Cluster.step gcm cfg (.map fun n => (env n).early))
        (Cluster.init setups (fun _ => none, 0)) acts) := by
  refine run_simulates ?_ ⟨rfl, rfl, rfl, ?_, ?_⟩ promised
  · intro c c' a alike calls
    exact alike.step (fun s m call backs here => backs.invoke libraries apart here) calls
  · exact UntrustedKv.represents_init gcm cfg.encKey valSize memory iv
  · intro base member
    cases member

namespace Sample

/-- Every call could map an area of its own, and no put is early. -/
def storeEnv (n : Nat) : StoreEnv :=
  ⟨n, false, { UntrustedKv.Sample.putEnv with mapped := 4096 + n * UntrustedKv.areaSize 1 },
    UntrustedKv.Sample.getEnv⟩

theorem storeEnv_ok (n : Nat) : (storeEnv n).Ok := by
  refine ⟨EncEnv.ok_ok _, ?_, rfl, DecEnv.ok_ok⟩
  change 4096 + n * UntrustedKv.areaSize 1 ≠ 0
  omega

theorem storeEnv_apart {n k : Nat} (ne : n ≠ k) : Arena.Apart (UntrustedKv.areaSize 1)
    (storeEnv n).put.mapped (storeEnv k).put.mapped := by
  have after : ∀ {i j : Nat}, i < j → 4096 + i * UntrustedKv.areaSize 1 + UntrustedKv.areaSize 1 ≤
      4096 + j * UntrustedKv.areaSize 1 := by
    intro i j lt
    have le := Nat.mul_le_mul_right (UntrustedKv.areaSize 1) (Nat.succ_le_of_lt lt)
    rw [Nat.succ_mul] at le
    omega
  rcases Nat.lt_or_gt_of_ne ne with lt | gt
  · exact Or.inl (after lt)
  · exact Or.inr (after gt)

def mapStep : Cluster ((Bytes → Option Bytes) × Nat) → Cluster.Action →
    Cluster ((Bytes → Option Bytes) × Nat) :=
  Cluster.step .checksum config (.map fun n => (storeEnv n).early)

/-- The put has a value of one byte. -/
theorem promised_putAndGet : Along mapStep (Cluster.Calls .checksum config (Promised 1))
    (Cluster.init (fun _ => setup 10) (fun _ => none, 0)) putAndGet := by
  refine along_cons.mpr ⟨?_, along_cons.mpr ⟨?_, along_cons.mpr ⟨?_, along_cons.mpr ⟨?_,
    along_cons.mpr ⟨?_, along_cons.mpr ⟨?_, along_nil _⟩⟩⟩⟩⟩⟩
  · intro d call is_
    cases is_
  · intro d call is_
    cases is_
  · intro d call is_ executes
    cases is_
    have called : some call = some (.put [1] [2]) := executes.symm.trans (by decide +kernel)
    cases called
    rfl
  · intro d call is_ executes
    cases is_
    have called : some call = some (.get [1]) := executes.symm.trans (by decide +kernel)
    cases called
    exact True.intro
  · intro d call is_
    cases is_
  · intro d call is_
    cases is_

def untrustedRun : Cluster (UntrustedKv × Nat) :=
  run (Cluster.step .checksum config (.untrusted .checksum config.encKey 1 storeEnv))
    (Cluster.init (fun _ => setup 10) (UntrustedKv.init (fun _ => 0) (Iv.ofNat 0), 0)) putAndGet

end Sample

/-- Client 7 gets what client 3 put, by way of untrusted memory. -/
theorem put_crosses_untrusted_memory :
    Sample.untrustedRun.log = [(3, .put [1] [2]), (7, .get [1])] ∧
      (Sample.untrustedRun.parties 7).client.mem.read (.caller 100) 1 = [2] := by
  have alike := served_from_untrusted_memory .checksum Sample.config (fun _ => Sample.setup 10) 1
    (fun _ => 0) (Iv.ofNat 0) Sample.storeEnv Sample.storeEnv_ok
    (fun _ _ => Sample.storeEnv_apart) Sample.promised_putAndGet
  unfold Sample.untrustedRun
  rw [alike.log, alike.parties]
  exact ⟨by decide +kernel, by decide +kernel⟩

end NetworkStack
