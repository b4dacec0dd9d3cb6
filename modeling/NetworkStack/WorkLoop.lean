import NetworkStack.Lib.Loop
import NetworkStack.ServerRun

/-!
# The work of a thread

`ServerThread::connect_and_work`: the thread runs the event loop until a
disconnect is requested or another thread calls `terminate`, and then for
`MAX_PENDING_REQUESTS` further turns, so that responses still go out. Nothing
bounds the first loop, so the model returns only if enough turns are given to it.

The thread returns exactly when some turn brings a disconnect message or a
termination. It has then handled every request of the turns up to that one and of
the further turns, in their order: a request that arrives after the disconnect is
still executed.
-/

namespace NetworkStack

open Machine

/-- What one call of `run_event_loop_once` finds: the requests that arrived, and whether
another thread has called `terminate`. -/
structure Turn : Type where
  requests : List Incoming
  terminated : Bool

/-- `stay_connected` is cleared. -/
def Server.stopped {σ : Type} (srv : Server σ) : Server σ :=
  { srv with thread := srv.thread.terminate }

section Loop

variable {σ : Type} (gcm : AesGcm) (cfg : ServerConfig) (kv : KvFunctions σ)

/-- One call of `run_event_loop_once`, which hands each request to `req_handler`. -/
def Server.turn (srv : Server σ) (t : Turn) : Server σ :=
  let srv := run (Server.serve gcm cfg kv) srv t.requests
  if t.terminated then srv.stopped else srv

/-- The body of the first loop of `connect_and_work`; the state is the server and the number of
turns so far. -/
def workTurn (turns : Nat → Turn) (s : Server σ × Nat) : (Server σ × Nat) ⊕ (Server σ × Nat) :=
  if s.1.thread.stayConnected then .inl (s.1.turn gcm cfg kv (turns s.2), s.2 + 1) else .inr s

/-- `connect_and_work`, where `fuel` turns are enough for its first loop. -/
def connectAndWork (turns : Nat → Turn) (fuel : Nat) (srv : Server σ) : Option (Server σ) :=
  (Loop.exec (workTurn gcm cfg kv turns) fuel (srv, 0)).map fun s =>
    run (Server.turn gcm cfg kv) s.1
      ((List.range maxPendingRequests).map fun i => turns (s.2 + i))

end Loop

/-! ## What stops a thread -/

/-- The turn brings a disconnect message, or the termination. -/
def Turn.Stops (gcm : AesGcm) (cfg : ServerConfig) (t : Turn) : Prop :=
  t.terminated = true ∨ ∃ d ∈ t.requests, ∃ m, d.message gcm cfg = some m ∧ opOf m.seqOp = 3

section Turns

variable {σ : Type} (gcm : AesGcm) (cfg : ServerConfig) (kv : KvFunctions σ)

/-- A thread that was stopped handles requests as before. -/
theorem serve_stopped (srv : Server σ) (d : Incoming) :
    srv.stopped.serve gcm cfg kv d = (srv.serve gcm cfg kv d).stopped := by
  rw [serve_eq, serve_eq]
  cases d.message gcm cfg with
  | none => rfl
  | some m =>
      change srv.stopped.handle kv m = (srv.handle kv m).stopped
      unfold Server.handle
      cases m.kvCall with
      | none => rfl
      | some call =>
          dsimp only
          have same : srv.stopped.thread.Accepts m.seqOp ↔ srv.thread.Accepts m.seqOp := Iff.rfl
          by_cases accepted : srv.thread.Accepts m.seqOp
          · rw [if_pos accepted, if_pos (same.mpr accepted)]
            rfl
          · rw [if_neg accepted, if_neg fun h => accepted (same.mp h)]

theorem run_serve_stopped (srv : Server σ) (ds : List Incoming) :
    run (Server.serve gcm cfg kv) srv.stopped ds =
      (run (Server.serve gcm cfg kv) srv ds).stopped := by
  induction ds generalizing srv with
  | nil => rfl
  | cons d ds ih =>
      rw [run_cons, run_cons, serve_stopped]
      exact ih _

/-- Only a disconnect message clears `stay_connected`. -/
theorem stayConnected_serve (srv : Server σ) (d : Incoming) :
    (srv.serve gcm cfg kv d).thread.stayConnected = true ↔
      srv.thread.stayConnected = true ∧
        ¬ ∃ m, d.message gcm cfg = some m ∧ opOf m.seqOp = 3 := by
  rw [serve_eq]
  cases brings : d.message gcm cfg with
  | none =>
      refine (and_iff_left ?_).symm
      rintro ⟨m, isMessage, -⟩
      cases isMessage
  | some m =>
      change (srv.handle kv m).thread.stayConnected = true ↔ _
      have onlyThis : (∃ m', some m = some m' ∧ opOf m'.seqOp = 3) ↔ m.kvCall = none := by
        rw [m.kvCall_eq_none_iff]
        constructor
        · rintro ⟨m', ⟨⟩, isErr⟩
          exact isErr
        · intro isErr
          exact ⟨m, rfl, isErr⟩
      rw [onlyThis]
      unfold Server.handle
      cases m.kvCall with
      | none => simp
      | some call =>
          dsimp only
          split <;> simp

theorem stayConnected_run (srv : Server σ) (ds : List Incoming) :
    (run (Server.serve gcm cfg kv) srv ds).thread.stayConnected = true ↔
      srv.thread.stayConnected = true ∧
        ¬ ∃ d ∈ ds, ∃ m, d.message gcm cfg = some m ∧ opOf m.seqOp = 3 := by
  induction ds generalizing srv with
  | nil => simp
  | cons d ds ih =>
      rw [run_cons, ih, stayConnected_serve, and_assoc, ← not_or]
      simp only [List.mem_cons, exists_eq_or_imp]

/-- A turn clears `stay_connected` exactly when it stops the thread. -/
theorem stayConnected_turn (srv : Server σ) (t : Turn) :
    (srv.turn gcm cfg kv t).thread.stayConnected = true ↔
      srv.thread.stayConnected = true ∧ ¬ t.Stops gcm cfg := by
  unfold Server.turn Turn.Stops
  dsimp only
  cases t.terminated with
  | true => simp [Server.stopped, ServerThread.terminate]
  | false =>
      rw [if_neg (by decide), stayConnected_run]
      simp

theorem stayConnected_turns (srv : Server σ) (ts : List Turn) :
    (run (Server.turn gcm cfg kv) srv ts).thread.stayConnected = true ↔
      srv.thread.stayConnected = true ∧ ∀ t ∈ ts, ¬ t.Stops gcm cfg := by
  induction ts generalizing srv with
  | nil => simp
  | cons t ts ih =>
      rw [run_cons, ih, stayConnected_turn, and_assoc]
      simp only [List.forall_mem_cons]

/-- Turns hand over their requests in order. -/
theorem run_turns (srv : Server σ) (ts : List Turn) :
    (run (Server.turn gcm cfg kv) srv ts).stopped =
      (run (Server.serve gcm cfg kv) srv (ts.flatMap Turn.requests)).stopped := by
  have oneTurn : ∀ (srv : Server σ) (t : Turn), (srv.turn gcm cfg kv t).stopped =
      (run (Server.serve gcm cfg kv) srv t.requests).stopped := by
    intro srv t
    unfold Server.turn
    dsimp only
    split <;> rfl
  have stops : ∀ (srv : Server σ) (ts : List Turn),
      (run (Server.turn gcm cfg kv) srv.stopped ts).stopped =
        (run (Server.turn gcm cfg kv) srv ts).stopped := by
    intro srv ts
    induction ts generalizing srv with
    | nil => rfl
    | cons t ts ih =>
        rw [run_cons, run_cons, ← ih, ← ih (srv.turn gcm cfg kv t), oneTurn, oneTurn,
          run_serve_stopped]
        rfl
  induction ts generalizing srv with
  | nil => rfl
  | cons t ts ih =>
      rw [run_cons, ← stops, oneTurn, stops, ih, List.flatMap_cons, run_append]

end Turns

/-! ## The loop -/

section Work

variable {σ : Type} {gcm : AesGcm} {cfg : ServerConfig} {kv : KvFunctions σ} {turns : Nat → Turn}

/-- The states of the first loop, as long as it goes on. -/
def workStates (gcm : AesGcm) (cfg : ServerConfig) (kv : KvFunctions σ) (turns : Nat → Turn)
    (srv : Server σ) (n : Nat) : Server σ × Nat :=
  (run (Server.turn gcm cfg kv) srv ((List.range n).map turns), n)

theorem workStates_succ (srv : Server σ) (n : Nat) :
    workStates gcm cfg kv turns srv (n + 1) =
      ((workStates gcm cfg kv turns srv n).1.turn gcm cfg kv (turns n), n + 1) := by
  unfold workStates
  rw [List.range_succ, List.map_append, List.map_singleton, run_snoc]

/-- The loop goes on as long as no turn stops it. -/
theorem workTurn_of_no_stop {srv : Server σ} (connected : srv.thread.stayConnected = true)
    {n : Nat} (none_ : ∀ m, m < n → ¬ (turns m).Stops gcm cfg) :
    workTurn gcm cfg kv turns (workStates gcm cfg kv turns srv n) =
      .inl (workStates gcm cfg kv turns srv (n + 1)) := by
  have goesOn : (workStates gcm cfg kv turns srv n).1.thread.stayConnected = true := by
    refine (stayConnected_turns gcm cfg kv srv _).mpr ⟨connected, ?_⟩
    intro t member
    obtain ⟨m, lt, rfl⟩ := List.mem_map.mp member
    exact none_ m (List.mem_range.mp lt)
  rw [workStates_succ]
  exact if_pos goesOn

/-- It leaves right after the turn that stops it. -/
theorem workTurn_of_stop (srv : Server σ) {n : Nat} (stops : (turns n).Stops gcm cfg) :
    workTurn gcm cfg kv turns (workStates gcm cfg kv turns srv (n + 1)) =
      .inr (workStates gcm cfg kv turns srv (n + 1)) := by
  refine if_neg ?_
  intro goesOn
  have all := (stayConnected_turns gcm cfg kv srv _).mp goesOn
  refine all.2 (turns n) ?_ stops
  exact List.mem_map_of_mem (List.mem_range.mpr (Nat.lt_succ_self n))

/-- A server that does not stay connected is a stopped one. -/
theorem eq_stopped {srv : Server σ} (left : ¬ srv.thread.stayConnected = true) :
    srv = srv.stopped := by
  rcases srv with ⟨⟨nextSeq, clientId, stayConnected⟩, state, log, shutdowns⟩
  have isFalse : stayConnected = false := by simpa using left
  subst isFalse
  rfl

/-- Where the turn with number `n` is the first that stops it, `connect_and_work` has handled
the requests of the turns up to it and of `MAX_PENDING_REQUESTS` further turns. -/
theorem connectAndWork_eq {srv : Server σ} (connected : srv.thread.stayConnected = true) {n : Nat}
    (stops : (turns n).Stops gcm cfg) (first : ∀ m, m < n → ¬ (turns m).Stops gcm cfg)
    {fuel : Nat} (enough : n + 1 < fuel) :
    connectAndWork gcm cfg kv turns fuel srv =
      some (run (Server.serve gcm cfg kv) srv ((List.range (n + 1 + maxPendingRequests)).flatMap
        fun i => (turns i).requests)).stopped := by
  have leaves := Loop.exec_of_turns (workStates gcm cfg kv turns srv)
    (fun i lt => workTurn_of_no_stop connected fun m less => first m (by omega))
    (workTurn_of_stop srv stops) enough
  have all : (List.range (n + 1 + maxPendingRequests)).map turns =
      (List.range (n + 1)).map turns ++
        (List.range maxPendingRequests).map fun i => turns (n + 1 + i) := by
    rw [List.range_add, List.map_append, List.map_map]
    rfl
  have drained : run (Server.turn gcm cfg kv) (workStates gcm cfg kv turns srv (n + 1)).1
      ((List.range maxPendingRequests).map fun i => turns (n + 1 + i)) =
      run (Server.turn gcm cfg kv) srv ((List.range (n + 1 + maxPendingRequests)).map turns) := by
    rw [all, run_append]
    rfl
  have left : ¬ (run (Server.turn gcm cfg kv) srv
      ((List.range (n + 1 + maxPendingRequests)).map turns)).thread.stayConnected = true := by
    intro goesOn
    refine ((stayConnected_turns gcm cfg kv srv _).mp goesOn).2 (turns n) ?_ stops
    exact List.mem_map_of_mem (List.mem_range.mpr (by omega))
  unfold connectAndWork
  change (Loop.exec _ fuel (workStates gcm cfg kv turns srv 0)).map _ = _
  rw [leaves, Option.map_some]
  rw [show (workStates gcm cfg kv turns srv (n + 1)).2 = n + 1 from rfl, drained,
    eq_stopped left, run_turns, List.flatMap_map]

/-- A thread returns exactly when some turn brings a disconnect message or the termination, and
has then handled the requests of all turns up to the first such one and of
`MAX_PENDING_REQUESTS` further turns, in order, and no others. -/
theorem connectAndWork_returns_iff (gcm : AesGcm) (cfg : ServerConfig) (kv : KvFunctions σ)
    (turns : Nat → Turn) (erpcId : UInt8) (s : σ) :
    ((∃ fuel result, connectAndWork gcm cfg kv turns fuel (.init erpcId s) = some result) ↔
        ∃ n, (turns n).Stops gcm cfg) ∧
      ∀ n, (turns n).Stops gcm cfg → (∀ m, m < n → ¬ (turns m).Stops gcm cfg) →
        ∀ fuel, n + 1 < fuel → connectAndWork gcm cfg kv turns fuel (.init erpcId s) =
          some (run (Server.serve gcm cfg kv) (.init erpcId s)
            ((List.range (n + 1 + maxPendingRequests)).flatMap
              fun i => (turns i).requests)).stopped := by
  refine ⟨⟨?_, ?_⟩, fun n stops first fuel enough => connectAndWork_eq rfl stops first enough⟩
  · rintro ⟨fuel, result, returns⟩
    by_contra never
    have goesOn := Loop.exec_eq_none_of_turns (workStates gcm cfg kv turns (Server.init erpcId s))
      (fun i => workTurn_of_no_stop rfl fun m _ stops => never ⟨m, stops⟩) fuel
    unfold connectAndWork at returns
    change (Loop.exec _ fuel (workStates gcm cfg kv turns (Server.init erpcId s) 0)).map _ = _
      at returns
    rw [goesOn] at returns
    cases returns
  · classical
    intro some_
    have first := fun m => Nat.find_min some_ (m := m)
    exact ⟨_, _, connectAndWork_eq rfl (Nat.find_spec some_) first (Nat.lt_succ_self _)⟩

end Work

end NetworkStack
