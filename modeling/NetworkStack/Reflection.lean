import NetworkStack.Replay

/-!
# Responses delivered back to their thread

Requests and responses share key, layout, client ID and operations. A response
that a thread sent and that comes back to it is an ordinary message: it shuts
the thread down if it is an error response, and is executed as a request if its
number is inside the window. The module says exactly when it is neither, so that
the thread ignores it (`Server.Ignores`).
-/

namespace NetworkStack

open Machine

section Runs

variable {σ : Type} {gcm : AesGcm} {cfg : ServerConfig} {kv : KvFunctions σ}

theorem run_clientId (gcm : AesGcm) (cfg : ServerConfig) (kv : KvFunctions σ)
    (srv : Server σ) (ds : List Incoming) :
    (run (Server.serve gcm cfg kv) srv ds).thread.clientId = srv.thread.clientId := by
  refine run_invariant (I := fun s : Server σ => s.thread.clientId = srv.thread.clientId) ?_ rfl ds
  intro s d same
  rw [serve_eq]
  cases d.message gcm cfg with
  | none => exact same
  | some m => exact (handle_clientId s m).trans same

/-- An answer that is no error goes to a request the thread accepted, so it carries the ID
of its client. -/
theorem idOf_answer {srv : Server σ} {m r : Message} (answers : srv.answer kv m = some r)
    (success : opOf r.seqOp ≠ 3) : idOf r.seqOp = srv.thread.clientId.toNat := by
  unfold Server.answer at answers
  cases call : m.kvCall with
  | none =>
      rw [call] at answers
      cases answers
      exact (success (m.response_fields none).2.2).elim
  | some c =>
      rw [call] at answers
      dsimp only at answers
      split at answers
      · rename_i accepted
        cases answers
        rw [(m.response_fields _).2.1]
        exact accepted.1
      · cases answers

/-- A delivery invokes no KV function, terminates nothing and leaves `next_seq`. -/
structure Server.Ignores (gcm : AesGcm) (cfg : ServerConfig) (kv : KvFunctions σ)
    (srv : Server σ) (d : Incoming) : Prop where
  kvLog : (srv.serve gcm cfg kv d).kvLog = srv.kvLog
  shutdowns : (srv.serve gcm cfg kv d).shutdowns = srv.shutdowns
  nextSeq : (srv.serve gcm cfg kv d).thread.nextSeq = srv.thread.nextSeq

theorem Server.Ignores.of_serve_eq {srv : Server σ} {d : Incoming}
    (same : srv.serve gcm cfg kv d = srv) : srv.Ignores gcm cfg kv d := by
  constructor <;> rw [same]

/-- A message is ignored exactly when it is no disconnect and the thread rejects it. -/
theorem Server.ignores_iff {srv : Server σ} {d : Incoming} {m : Message}
    (brings : d.message gcm cfg = some m) :
    srv.Ignores gcm cfg kv d ↔ opOf m.seqOp ≠ 3 ∧ ¬ srv.thread.Accepts m.seqOp := by
  have served := serve_eq gcm cfg kv srv d
  rw [brings, Option.elim_some, Server.handle] at served
  cases call : m.kvCall with
  | none =>
      rw [call] at served
      have disconnects := (m.kvCall_eq_none_iff).mp call
      constructor
      · intro ignores
        have shutdowns := ignores.shutdowns
        rw [served] at shutdowns
        simp at shutdowns
      · exact fun h => (h.1 disconnects).elim
  | some c =>
      rw [call] at served
      have request : opOf m.seqOp ≠ 3 := by
        intro disconnects
        rw [(m.kvCall_eq_none_iff).mpr disconnects] at call
        cases call
      rw [and_iff_right request]
      dsimp only at served
      constructor
      · intro ignores accepted
        have log := ignores.kvLog
        rw [served, if_pos accepted] at log
        simp at log
      · intro rejected
        rw [if_neg rejected] at served
        exact .of_serve_eq served

/-- A response is ignored by the thread that sent it exactly when decrypting it fails, or
it is no error response, the thread expects some number and the response's is more than
the tolerance away from it. -/
theorem reflected_response_ignored_iff (id : UInt8) (s : σ) (before : List Incoming)
    {after : List Incoming}
    {d : Incoming} {response : Bytes} (env : ServeEnv)
    (sent : (run (Server.serve gcm cfg kv) (Server.init id s) before).reply gcm cfg kv d =
      some response) :
    (run (Server.serve gcm cfg kv) (Server.init id s) (before ++ d :: after)).Ignores gcm cfg kv
        ⟨env, response⟩ ↔
      ∀ r, Incoming.message gcm cfg ⟨env, response⟩ = some r →
        opOf r.seqOp ≠ 3 ∧
        (run (Server.serve gcm cfg kv) (Server.init id s) (before ++ d :: after)).thread.nextSeq
            ≠ 0 ∧
        seqThreshold * 2 <
          ((seqOf r.seqOp : Int) - (seqOf (run (Server.serve gcm cfg kv) (Server.init id s)
            (before ++ d :: after)).thread.nextSeq : Int)).natAbs := by
  obtain ⟨m, r, -, answers, opens⟩ := reply_inv sent
  have clientId : ∀ ds,
      (run (Server.serve gcm cfg kv) (Server.init id s) ds).thread.clientId = id :=
    run_clientId gcm cfg kv _
  have ownId : opOf r.seqOp ≠ 3 → idOf r.seqOp = id.toNat := by
    intro success
    rw [idOf_answer answers success, clientId]
  have same := clientId (before ++ d :: after)
  generalize run (Server.serve gcm cfg kv) (Server.init id s) (before ++ d :: after) = srv at same ⊢
  cases brings : Incoming.message gcm cfg ⟨env, response⟩ with
  | none =>
      have served := serve_eq gcm cfg kv srv ⟨env, response⟩
      rw [brings] at served
      exact ⟨fun _ r' h => (by cases h), fun _ => .of_serve_eq served⟩
  | some r' =>
      cases opens.symm.trans (Incoming.message_inv brings).2
      rw [Server.ignores_iff brings]
      simp only [Option.some.injEq, forall_eq']
      refine and_congr_right fun success => ?_
      rw [ServerThread.Accepts, same, and_iff_right (ownId success), not_or, not_le]

end Runs

namespace Sample

/-- The first put of a thread is answered, and the answer carries a put response. -/
theorem reply_deliverPut (n : Nat) (accepted : (Server.init 7 ([] : List (Bytes × Bytes))).answer
      .assoc (put n) = some ((put n).response (some []))) :
    ∃ response, (Server.init 7 []).reply .checksum config .assoc (deliverPut n) = some response ∧
      Incoming.message .checksum config ⟨(deliverPut n).env, response⟩ =
        some ((put n).response (some [])) := by
  obtain ⟨response, sent, opens⟩ := reply_of_answer (message_deliverPut n) accepted
    (show ciphertextSize 0 ≤ config.maxMsgSize by decide) (EncEnv.ok_ok _)
  refine ⟨response, sent, ?_⟩
  rw [Incoming.message_of_ok DecEnv.ok_ok]
  exact opens

end Sample

/-- The response to a put, delivered back, is executed as another put. -/
theorem reflected_put_response_executes :
    ∃ response, (Server.init 7 []).reply .checksum Sample.config .assoc (Sample.deliverPut 10) =
        some response ∧
      ¬ (run Sample.serve (Server.init 7 []) [Sample.deliverPut 10]).Ignores .checksum
        Sample.config .assoc ⟨(Sample.deliverPut 10).env, response⟩ := by
  obtain ⟨response, sent, brings⟩ := Sample.reply_deliverPut 10 (by decide)
  refine ⟨response, sent, ?_⟩
  rw [Server.ignores_iff brings, run_cons, run_nil, Sample.serve_deliverPut]
  decide

/-- Two hundred numbers later the same response is ignored. -/
theorem late_reflected_response_ignored :
    ∃ response, (Server.init 7 []).reply .checksum Sample.config .assoc (Sample.deliverPut 10) =
        some response ∧
      (run Sample.serve (Server.init 7 [])
        ([] ++ Sample.deliverPut 10 :: [110, 210].map Sample.deliverPut)).Ignores .checksum
        Sample.config .assoc ⟨(Sample.deliverPut 10).env, response⟩ := by
  obtain ⟨response, sent, brings⟩ := Sample.reply_deliverPut 10 (by decide)
  refine ⟨response, sent, ?_⟩
  refine (reflected_response_ignored_iff 7 [] [] _ sent).mpr ?_
  intro r opens
  cases brings.symm.trans opens
  have end_ := Sample.run_deliverPut (Server.init 7 []) [10, 110, 210]
  simp only [Sample.serve, List.map_cons, List.map_nil] at end_
  rw [List.nil_append, List.map_cons, List.map_cons, List.map_nil, end_]
  decide

end NetworkStack
