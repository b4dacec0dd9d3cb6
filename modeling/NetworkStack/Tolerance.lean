import NetworkStack.Replay

/-!
# How much reordering a thread tolerates

A client numbers its requests 0, 1, 2, … and the `i`-th one carries the sequence
number `s₀ + 2 * i`. Whatever order they are delivered in, and however often,
the thread executes all of them exactly when each delivery is at most
`SEQ_THRESHOLD` positions away from the request after the one delivered before
it (`all_executed_iff`).
-/

namespace NetworkStack

open Machine

section Stream

variable {σ : Type} {gcm : AesGcm} {cfg : ServerConfig} {kv : KvFunctions σ}

/-- The requests of client `id`, numbered from `s₀` on. -/
structure Stream (id : UInt8) (s₀ : Nat) (requests : Nat → Message) : Prop where
  idEq : ∀ i, idOf (requests i).seqOp = id.toNat
  op : ∀ i, opOf (requests i).seqOp ≠ 3
  seq : ∀ i, seqOf (requests i).seqOp = (s₀ + 2 * i) % seqModulus

/-- The deliveries bring the requests with these numbers, in this order. -/
def Delivers (gcm : AesGcm) (cfg : ServerConfig) (requests : Nat → Message) (ds : List Incoming)
    (order : List Nat) : Prop :=
  List.Forall₂ (fun d i => d.message gcm cfg = some (requests i)) ds order

/-- What the KV functions were invoked for, and with what. -/
def Server.invoked (srv : Server σ) : List (UInt64 × Option KvCall) :=
  srv.kvLog.map fun entry => (entry.1, some entry.2)

/-- The invocations that requests ask for. -/
def asked (requests : Nat → Message) (order : List Nat) : List (UInt64 × Option KvCall) :=
  order.map fun i => ((requests i).seqOp, (requests i).kvCall)

variable {id : UInt8} {s₀ : Nat} {requests : Nat → Message} {ds : List Incoming}
  {order : List Nat}

/-- A thread invokes nothing but what the deliveries ask for. -/
theorem Delivers.invoked_sublist (delivers : Delivers gcm cfg requests ds order)
    (op : ∀ i, opOf (requests i).seqOp ≠ 3) (srv : Server σ) :
    (run (Server.serve gcm cfg kv) srv ds).invoked.Sublist
      (srv.invoked ++ asked requests order) := by
  induction delivers generalizing srv with
  | nil =>
      rw [run_nil, asked, List.map_nil, List.append_nil]
  | @cons d i ds order brings _ ih =>
      refine (ih (srv.serve gcm cfg kv d)).trans ?_
      rcases Message.exists_kvCall (op i) with ⟨call, asks⟩
      have split : asked requests (i :: order) =
          [((requests i).seqOp, (requests i).kvCall)] ++ asked requests order := rfl
      rw [split, ← List.append_assoc]
      apply List.Sublist.append_right
      rw [serve_eq, brings, Option.elim_some, Server.handle, asks]
      dsimp only
      split
      · simp [Server.invoked]
      · exact List.sublist_append_left _ _

theorem executed_eq_of_invoked {srv : Server σ} (all : srv.invoked = asked requests order) :
    srv.executed = order.map fun i => seqOf (requests i).seqOp := by
  have numbers := congrArg (List.map fun entry => seqOf entry.1) all
  rw [Server.invoked, asked, List.map_map, List.map_map] at numbers
  exact numbers

theorem Delivers.mem (delivers : Delivers gcm cfg requests ds order) :
    ∀ d ∈ ds, ∃ i ∈ order, d.message gcm cfg = some (requests i) := by
  induction delivers with
  | nil =>
      intro d member
      cases member
  | @cons d i ds order brings _ ih =>
      intro d' member
      rcases List.mem_cons.mp member with rfl | later
      · exact ⟨i, List.mem_cons_self, brings⟩
      · rcases ih d' later with ⟨j, among, brings'⟩
        exact ⟨j, List.mem_cons_of_mem i among, brings'⟩

theorem Delivers.map_message (delivers : Delivers gcm cfg requests ds order) :
    ds.filterMap (fun d => (d.message gcm cfg).map fun m => seqOf m.seqOp) =
      order.map fun i => seqOf (requests i).seqOp := by
  induction delivers with
  | nil => rfl
  | cons brings _ ih =>
      rw [List.filterMap_cons_some (by rw [brings]; rfl), ih, List.map_cons]

/-- Within the range of the numbers, positions differ by half of what the numbers do. -/
theorem near_iff {i j : Nat} (stream : Stream id s₀ requests)
    (noWrap : s₀ + 2 * i + 2 < seqModulus) (noWrap' : s₀ + 2 * j + 2 < seqModulus) :
    SlidingWindow.Near 2 (seqThreshold * 2) (seqOf (requests i).seqOp) (seqOf (requests j).seqOp) ↔
      ((j : Int) - ((i : Int) + 1)).natAbs ≤ seqThreshold := by
  rw [SlidingWindow.Near, stream.seq, stream.seq, Nat.mod_eq_of_lt (by omega),
    Nat.mod_eq_of_lt (by omega)]
  unfold seqThreshold
  omega

end Stream

/-- For every stream of requests, every order of delivery without a wrap, and a fresh thread of
the client: every delivered request is executed if and only if each is at most `SEQ_THRESHOLD`
positions away from the one after its predecessor. A request that is rejected, in any state,
changes nothing, invokes nothing and is not answered. -/
theorem all_executed_iff {σ : Type} (gcm : AesGcm) (cfg : ServerConfig) (kv : KvFunctions σ)
    (s : σ) {id : UInt8} {s₀ : Nat} {requests : Nat → Message} (stream : Stream id s₀ requests)
    {ds : List Incoming} {order : List Nat} (delivers : Delivers gcm cfg requests ds order)
    (noWrap : ∀ i ∈ order, s₀ + 2 * i + 2 < seqModulus) :
    ((run (Server.serve gcm cfg kv) (Server.init id s) ds).invoked = asked requests order ↔
      order.IsChain fun i j : Nat => ((j : Int) - ((i : Int) + 1)).natAbs ≤ seqThreshold) ∧
    ∀ (srv : Server σ) (d : Incoming) (m : Message), d.message gcm cfg = some m →
      opOf m.seqOp ≠ 3 → (srv.thread.isSeqValid m.seqOp).2 = false →
      srv.serve gcm cfg kv d = srv ∧ srv.reply gcm cfg kv d = none := by
  refine ⟨?_, ?_⟩
  · have own : ∀ d ∈ ds, ∀ m, d.message gcm cfg = some m → m.IsRequest id := by
      intro d member m brings
      rcases delivers.mem d member with ⟨i, among, brings'⟩
      cases brings.symm.trans brings'
      have small := noWrap i among
      refine ⟨stream.idEq i, stream.op i, ?_⟩
      rw [stream.seq, Nat.mod_eq_of_lt (by omega)]
      exact small
    have refined := (serve_refines_window gcm cfg kv id).run (Server.Tracks.init id s) own
    rw [delivers.map_message] at refined
    have chain := SlidingWindow.run_eq_append_iff 2 (seqThreshold * 2) []
      (order.map fun i => seqOf (requests i).seqOp)
    rw [List.nil_append, List.getLast?_nil, Option.toList_none, List.nil_append,
      List.isChain_map, List.IsChain.iff_of_mem_imp fun i j hi hj =>
        near_iff stream (noWrap i hi) (noWrap j hj)] at chain
    rw [← chain]
    constructor
    · intro all
      exact refined.symm.trans (executed_eq_of_invoked all)
    · intro all
      have count : (run (Server.serve gcm cfg kv) (Server.init id s) ds).executed.length =
          order.length := by
        rw [refined]
        exact (congrArg List.length all).trans (List.length_map ..)
      apply (delivers.invoked_sublist stream.op (Server.init id s)).eq_of_length
      simpa [Server.invoked, Server.executed, asked, Server.init] using count
  · intro srv d m brings request invalid
    have rejected : ¬ srv.thread.Accepts m.seqOp := by
      rw [← srv.thread.isSeqValid_iff, invalid]
      exact Bool.false_ne_true
    rcases Message.exists_kvCall request with ⟨call, asks⟩
    rcases reqHandler_of_message kv brings srv with ⟨handled, silent, -⟩
    refine ⟨?_, silent ?_⟩
    · rw [handled, Server.handle, asks]
      exact if_neg rejected
    · rw [Server.answer, asks]
      exact if_neg rejected

/-! ## A concrete order -/

namespace Sample

/-- The puts of client 7 from sequence number 10 on. -/
def puts (i : Nat) : Message := put ((10 + 2 * i) % seqModulus)

theorem seqOp_fields_put {n : Nat} (lt : n < seqModulus) :
    seqOf (put n).seqOp = n ∧ idOf (put n).seqOp = 7 ∧ opOf (put n).seqOp = 1 := by
  apply fields_of_toNat _ (by decide) (by decide)
  unfold seqModulus at lt
  change (UInt64.ofNat (n * 1024 + 7 * 4 + 1)).toNat = _
  rw [UInt64.toNat_ofNat']
  omega

theorem stream_puts : Stream 7 10 puts := by
  have fields := fun i => seqOp_fields_put (Nat.mod_lt (10 + 2 * i) (show 0 < seqModulus by decide))
  refine ⟨fun i => (fields i).2.1, ?_, fun i => (fields i).1⟩
  intro i
  rw [puts, (fields i).2.2]
  decide

/-- The puts are delivered in some order. -/
def deliverPuts (order : List Nat) : List Incoming :=
  order.map fun i => deliverPut ((10 + 2 * i) % seqModulus)

theorem delivers_deliverPuts (order : List Nat) :
    Delivers .checksum config puts (deliverPuts order) order := by
  induction order with
  | nil => exact .nil
  | cons i order ih => exact .cons (message_deliverPut _) ih

end Sample

/-- Put 65 is delivered right after put 0, and put 2 twice after it: all are executed. -/
theorem reordered_puts_executed :
    (run Sample.serve (Server.init 7 []) (Sample.deliverPuts [0, 65, 2, 2])).invoked =
      asked Sample.puts [0, 65, 2, 2] := by
  refine (all_executed_iff .checksum Sample.config .assoc [] Sample.stream_puts
    (Sample.delivers_deliverPuts [0, 65, 2, 2]) ?_).1.mpr ?_
  · decide
  · decide

end NetworkStack
