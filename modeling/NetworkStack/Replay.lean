import NetworkStack.ServerRun

/-!
# Replays at the server thread

What `is_seq_valid` prevents and what it does not, over every run of a thread
that is handed its client's own requests in any order and any number of times.
The thread keeps only the number it expects, so a request executes again while
its number is within the tolerance of that number, and each accepted old request
moves the window back.
-/

namespace NetworkStack

open Machine

section Runs

variable {σ : Type} (gcm : AesGcm) (cfg : ServerConfig) (kv : KvFunctions σ)

/-- Every message the deliveries bring is a request of client `id`. -/
def OwnRequests (id : UInt8) (ds : List Incoming) : Prop :=
  ∀ d ∈ ds, ∀ m, d.message gcm cfg = some m → m.IsRequest id

/-- A request that was executed before arrives with its number out of the window around
the number after the last executed one. -/
def Server.RejectsRepeat (srv : Server σ) (d : Incoming) : Prop :=
  ∀ n, (d.message gcm cfg).map (fun m => seqOf m.seqOp) = some n → n ∈ srv.executed →
    ∀ last ∈ srv.executed.getLast?, seqThreshold * 2 < ((n : Int) - ((last : Int) + 2)).natAbs

/-- At most one execution for each number, exactly when every repeat arrives out of the
window. -/
theorem executed_nodup_iff (id : UInt8) (s : σ) {ds : List Incoming}
    (own : OwnRequests gcm cfg id ds) :
    (run (Server.serve gcm cfg kv) (Server.init id s) ds).executed.Nodup ↔
      Along (Server.serve gcm cfg kv) (Server.RejectsRepeat gcm cfg) (Server.init id s) ds := by
  have refines := serve_refines_window gcm cfg kv id
  have start := Server.Tracks.init id s
  rw [refines.run start own]
  exact (SlidingWindow.nodup_run_iff _).trans (refines.along start own).symm

/-- No number arrives between the lower edge of the window around the last executed number
and the lower edge of the one around an earlier, larger number. -/
def Server.StaysAbove (srv : Server σ) (d : Incoming) : Prop :=
  ∀ n, (d.message gcm cfg).map (fun m => seqOf m.seqOp) = some n →
    ∀ last ∈ srv.executed.getLast?, ∀ largest ∈ srv.executed,
      ¬ (last + 2 ≤ n + seqThreshold * 2 ∧ n + seqThreshold * 2 < largest)

/-- The window keeps its floor exactly when no such number arrives. -/
theorem executed_floor_iff (id : UInt8) (s : σ) {ds : List Incoming}
    (own : OwnRequests gcm cfg id ds) :
    ((run (Server.serve gcm cfg kv) (Server.init id s) ds).executed.Pairwise
        fun earlier later => earlier ≤ later + seqThreshold * 2) ↔
      Along (Server.serve gcm cfg kv) (Server.StaysAbove gcm cfg) (Server.init id s) ds := by
  have refines := serve_refines_window gcm cfg kv id
  have start := Server.Tracks.init id s
  rw [refines.run start own]
  exact (SlidingWindow.floor_run_iff _).trans (refines.along start own).symm

end Runs

/-! ## Concrete runs -/

namespace Sample

def config : ServerConfig := ⟨List.replicate 16 5, ciphertextSize 64⟩

/-- The put of client 7 with sequence number `n`, delivered under IV `n`. -/
def put (n : Nat) : Message := ⟨UInt64.ofNat (n * 1024 + 7 * 4 + 1), [1], [2]⟩

def deliverPut (n : Nat) : Incoming := .sealed .checksum config (.ofNat n) (put n)

def serve : Server (List (Bytes × Bytes)) → Incoming → Server (List (Bytes × Bytes)) :=
  Server.serve .checksum config .assoc

theorem message_deliverPut (n : Nat) : (deliverPut n).message .checksum config = some (put n) :=
  Incoming.message_sealed .checksum config (.ofNat n) (show 1 < 2 ^ 64 by decide)

theorem serve_deliverPut (srv : Server (List (Bytes × Bytes))) (n : Nat) :
    serve srv (deliverPut n) = srv.handle .assoc (put n) := by
  unfold serve
  rw [serve_eq, message_deliverPut]
  rfl

theorem run_deliverPut (srv : Server (List (Bytes × Bytes))) (ns : List Nat) :
    run serve srv (ns.map deliverPut) = run (Server.handle .assoc) srv (ns.map put) := by
  induction ns generalizing srv with
  | nil => rfl
  | cons n ns ih => simp only [List.map_cons, run_cons, serve_deliverPut, ih]

theorem ownRequests {ns : List Nat} (requests : ∀ n ∈ ns, (put n).IsRequest 7) :
    OwnRequests .checksum config 7 (ns.map deliverPut) := by
  intro d member m brings
  obtain ⟨n, among, rfl⟩ := List.mem_map.mp member
  rw [message_deliverPut] at brings
  cases brings
  exact requests n among

end Sample

/-- The same ciphertext, delivered twice in a row, executes twice. -/
theorem replayed_put_executes_twice :
    OwnRequests .checksum Sample.config 7 ([10, 10].map Sample.deliverPut) ∧
      ¬ (run Sample.serve (Server.init 7 []) ([10, 10].map Sample.deliverPut)).executed.Nodup := by
  refine ⟨Sample.ownRequests (by decide), ?_⟩
  rw [Sample.run_deliverPut]
  decide

/-- A replay from outside the window is not executed. -/
theorem late_replay_executes_once :
    (run Sample.serve (Server.init 7 [])
        ([10, 110, 210, 10].map Sample.deliverPut)).executed.Nodup ∧
      Along Sample.serve (Server.RejectsRepeat .checksum Sample.config) (Server.init 7 [])
        ([10, 110, 210, 10].map Sample.deliverPut) := by
  have own : OwnRequests .checksum Sample.config 7 ([10, 110, 210, 10].map Sample.deliverPut) :=
    Sample.ownRequests (by decide)
  have once : (run Sample.serve (Server.init 7 [])
      ([10, 110, 210, 10].map Sample.deliverPut)).executed.Nodup := by
    rw [Sample.run_deliverPut]
    decide
  exact ⟨once, (executed_nodup_iff .checksum Sample.config .assoc 7 [] own).mp once⟩

/-- Two steps of 126 back from the largest number, each inside the window, execute a
request far below it. -/
theorem window_walks_back :
    OwnRequests .checksum Sample.config 7 ([400, 274, 148].map Sample.deliverPut) ∧
      ¬ (run Sample.serve (Server.init 7 [])
          ([400, 274, 148].map Sample.deliverPut)).executed.Pairwise
        fun earlier later => earlier ≤ later + seqThreshold * 2 := by
  refine ⟨Sample.ownRequests (by decide), ?_⟩
  rw [Sample.run_deliverPut]
  decide

/-- One step back and a return keep the floor, and so does a request that is too old. -/
theorem window_keeps_floor :
    ((run Sample.serve (Server.init 7 [])
          ([400, 274, 300, 400, 200].map Sample.deliverPut)).executed.Pairwise
        fun earlier later => earlier ≤ later + seqThreshold * 2) ∧
      Along Sample.serve (Server.StaysAbove .checksum Sample.config) (Server.init 7 [])
        ([400, 274, 300, 400, 200].map Sample.deliverPut) := by
  have own : OwnRequests .checksum Sample.config 7
      ([400, 274, 300, 400, 200].map Sample.deliverPut) :=
    Sample.ownRequests (by decide)
  have floor : (run Sample.serve (Server.init 7 [])
        ([400, 274, 300, 400, 200].map Sample.deliverPut)).executed.Pairwise
      fun earlier later => earlier ≤ later + seqThreshold * 2 := by
    rw [Sample.run_deliverPut]
    decide
  exact ⟨floor, (executed_floor_iff .checksum Sample.config .assoc 7 [] own).mp floor⟩

end NetworkStack
