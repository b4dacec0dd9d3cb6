import NetworkStack.Lib.Ledger
import NetworkStack.Lib.Run
import NetworkStack.OneSided.Store

/-!
# The life of a connection

The connection set-up and tear-down of `client_server_utils.c`,
`onesided_client.c` and `onesided_server.c`, with every exit. The handles that
librpma and `malloc_aligned` return lie in variables of the process, and the
ledger follows what is live. librpma is outside the repository: a deletion frees
its object and sets the pointer to null also where it reports an error, and
`rpma_conn_req_connect` consumes the request.

A client can call `rdma_client_connect` and `rdma_disconnect` in any order, with
any outcome of the library calls. Two things can go wrong: `free_client` frees
`local_buf` without setting it to null, so that a second `rdma_disconnect` frees
it twice, and `rdma_client_connect` that fails before it has a connection request
returns with the peer, which the next attempt overwrites. The server frees what
it has on every exit, and only overwrites a connection when it accepts a client
while another is connected.
-/

namespace NetworkStack.OneSided

open Machine

/-! ## Handles -/

/-- The variables that hold handles: the fields of `ep_data`, the connection request of
`rdma_client_connect` and `accept_client`, and `shared_remote` and `local_buf` of the client. -/
inductive Var : Type
  | peer
  | endpoint
  | memoryRegion
  | connection
  | request
  | sharedRemote
  | localBuf
deriving DecidableEq

/-- Which handle a library object is made from. -/
def Var.Needs : Var → Var → Prop
  | .memoryRegion, .peer => True
  | .memoryRegion, .localBuf => True
  | .endpoint, .peer => True
  | .connection, .peer => True
  | .request, .peer => True
  | _, _ => False

/-- What a process has: the other fields of `ep_data`, and its handles. -/
structure Resources : Type where
  ep : EndpointData
  ledger : Ledger Var

namespace Resources

def init (ep : EndpointData) : Resources := ⟨ep, .empty⟩

def obtain (r : Resources) (v : Var) (from_ : List Var) : Resources :=
  { r with ledger := r.ledger.obtain v from_ }

def delete (r : Resources) (v : Var) : Resources := { r with ledger := r.ledger.delete v }

/-! ## `client_server_utils.c` -/

/-- Outcomes of the library calls of `initialize_peer`. -/
structure PeerEnv : Type where
  getIbvContext : Bool
  peerNew : Bool

def PeerEnv.Ok (e : PeerEnv) : Prop := e.getIbvContext = true ∧ e.peerNew = true

/-- `initialize_peer` -/
def initializePeer (e : PeerEnv) (r : Resources) : Int × Resources :=
  if !e.getIbvContext then (-1, r)
  else if !e.peerNew then (-1, r)
  else (0, r.obtain .peer [])

/-- `establish_connection`, from the event that arrives if there is one. -/
def establishConnection (event : Option RpmaConnEvent) : Int :=
  if event = some .established then 0 else -1

/-- `free_endpoint_data` -/
def freeEndpointData (r : Resources) : Resources :=
  (((r.delete .connection).delete .endpoint).delete .memoryRegion).delete .peer

/-! ## `onesided_client.c` -/

/-- Outcomes of the library calls of `rdma_client_connect`; `connReqConnect` is a return
value of librpma. -/
structure ConnectEnv : Type where
  peer : PeerEnv
  mallocAligned : Bool
  mrReg : Bool
  connReqNew : Bool
  connReqConnect : Int
  nextEvent : Option RpmaConnEvent
  getPrivateData : Bool
  remoteFromDescriptor : Bool
  remoteGetSize : Bool

/-- `setup_local_buffer` -/
def setupLocalBuffer (e : ConnectEnv) (r : Resources) : Int × Resources :=
  if !e.mallocAligned then (-1, { r with ledger := r.ledger.null .localBuf })
  else
    let r := r.obtain .localBuf []
    if !e.mrReg then (-1, r.delete .localBuf)
    else (0, r.obtain .memoryRegion [.peer, .localBuf])

/-- `free_client`: `local_buf` keeps its value. -/
def freeClient (r : Resources) : Resources :=
  let r := r.freeEndpointData
  { r with ledger := r.ledger.free .localBuf }

/-- `rdma_disconnect` -/
def rdmaDisconnect (r : Resources) : Resources := (r.delete .sharedRemote).freeClient

/-- `rdma_client_connect` from the connection request to the label `end_rdma_client_connect`:
the value of `ret` there. -/
def requestConnection (e : ConnectEnv) (r : Resources) : Int × Resources :=
  if !e.connReqNew then (-1, r)
  else
    let r := (r.obtain .request [.peer]).delete .request
    if e.connReqConnect < 0 then (e.connReqConnect, r)
    else
      let r := r.obtain .connection [.peer]
      if establishConnection e.nextEvent < 0 then (-1, r)
      else if !e.getPrivateData then (-1, r)
      else if !e.remoteFromDescriptor then (-1, r)
      else
        let r := r.obtain .sharedRemote []
        if !e.remoteGetSize then (-1, r) else (0, r)

/-- `rdma_client_connect` once the encryption is set up. -/
def setupConnection (e : ConnectEnv) (r : Resources) : Int × Resources :=
  let buffer := setupLocalBuffer e r
  if buffer.1 < 0 then (-1, buffer.2)
  else
    let connected := requestConnection e buffer.2
    let r := if connected.1 ≠ 0 then connected.2.rdmaDisconnect else connected.2
    (connected.1, r.delete .request)

/-- `rdma_client_connect` -/
def rdmaClientConnect (e : ConnectEnv) (encKey : Option Bytes) (encKeyLength maxValSize : UInt64)
    (r : Resources) : Int × Resources :=
  let peer := initializePeer e.peer r
  if peer.1 ≠ 0 then (-1, peer.2)
  else
    let encryption := setupEncryption peer.2.ep encKey encKeyLength maxValSize
    let r := { peer.2 with ep := encryption.1 }
    if encryption.2 < 0 then (-1, r)
    else setupConnection e { r with ep := { r.ep with memoryRegionSize := r.ep.blockSize } }

/-! ## `onesided_server.c` -/

/-- Outcomes of the library calls of `host_server`. -/
structure HostEnv : Type where
  peer : PeerEnv
  mrReg : Bool
  getDescriptorSize : Bool
  getDescriptor : Bool
  epListen : Bool

/-- `register_shared_memory_region`; the region belongs to the caller. -/
def registerSharedMemoryRegion (e : HostEnv) (r : Resources) : Int × Resources :=
  if !e.mrReg then (-1, r)
  else
    let r := r.obtain .memoryRegion [.peer]
    if !e.getDescriptorSize then (-1, r.delete .memoryRegion)
    else if !e.getDescriptor then (-1, r.delete .memoryRegion)
    else (0, r)

/-- `host_server` -/
def hostServer (e : HostEnv) (encKey : Option Bytes) (encKeyLength maxValSize : UInt64)
    (r : Resources) : Int × Resources :=
  let peer := initializePeer e.peer r
  if peer.1 ≠ 0 then (-1, peer.2)
  else
    let region := registerSharedMemoryRegion e peer.2
    if region.1 ≠ 0 then (-1, region.2.freeEndpointData)
    else
      let encryption := setupEncryption region.2.ep encKey encKeyLength maxValSize
      let r := { region.2 with ep := encryption.1 }
      if encryption.2 < 0 then (-1, r.freeEndpointData)
      else if !e.epListen then (-1, r.freeEndpointData)
      else (0, r.obtain .endpoint [.peer])

/-- Outcomes of the library calls of `accept_client`; without an endpoint,
`rpma_ep_next_conn_req` fails. -/
structure AcceptEnv : Type where
  nextConnReq : Bool
  connReqConnect : Int
  nextEvent : Option RpmaConnEvent

/-- `accept_client` -/
def acceptClient (e : AcceptEnv) (r : Resources) : Int × Resources :=
  if !(e.nextConnReq && (r.ledger.vars .endpoint).isSome) then (-1, r)
  else
    let r := (r.obtain .request [.peer]).delete .request
    if e.connReqConnect < 0 then (-1, r)
    else
      let r := r.obtain .connection [.peer]
      (establishConnection e.nextEvent, r)

/-- `shutdown_rdma_server` -/
def shutdownRdmaServer (r : Resources) : Resources := r.freeEndpointData

/-! ## Calls -/

inductive ClientCall : Type
  | connect (e : ConnectEnv) (encKey : Option Bytes) (encKeyLength maxValSize : UInt64)
  | disconnect

def clientStep (r : Resources) : ClientCall → Resources
  | .connect e encKey encKeyLength maxValSize =>
      (r.rdmaClientConnect e encKey encKeyLength maxValSize).2
  | .disconnect => r.rdmaDisconnect

inductive ServerCall : Type
  | host (e : HostEnv) (encKey : Option Bytes) (encKeyLength maxValSize : UInt64)
  | accept (e : AcceptEnv)
  | shutdown

def serverStep (r : Resources) : ServerCall → Resources
  | .host e encKey encKeyLength maxValSize => (r.hostServer e encKey encKeyLength maxValSize).2
  | .accept e => (r.acceptClient e).2
  | .shutdown => r.shutdownRdmaServer

/-! ## Tearing down -/

section Teardown

variable {r : Resources}

/-- Only the peer and the buffer are needed by something else. -/
theorem unneeded (l : Ledger Var) (v : Var) (other : v ≠ .peer ∧ v ≠ .localBuf) :
    ∀ w, w.Needs v → l.vars w = none := by
  intro w need
  cases v <;> cases w <;> simp_all [Var.Needs]

/-- `free_endpoint_data` finds each object live and unneeded when it deletes it, and leaves no
variable dangling. -/
theorem freeEndpointData_balanced (balanced : r.ledger.Balanced Var.Needs)
    (proper : ∀ v, v ≠ .localBuf → r.ledger.Proper v) (noRequest : r.ledger.vars .request = none) :
    r.freeEndpointData.ledger.Balanced Var.Needs ∧
      ∀ v, r.ledger.Proper v → r.freeEndpointData.ledger.Proper v := by
  have first := balanced.delete (proper .connection (by decide)) (unneeded _ _ (by decide))
  have properFirst := fun v here => Ledger.Proper.delete (w := v) here balanced .connection
  have second := first.delete (properFirst .endpoint (proper _ (by decide)))
    (unneeded _ _ (by decide))
  have properSecond := fun v here => (properFirst v here).delete first .endpoint
  have third := second.delete (properSecond .memoryRegion (proper _ (by decide)))
    (unneeded _ _ (by decide))
  have properThird := fun v here => (properSecond v here).delete second .memoryRegion
  refine ⟨third.delete (properThird .peer (proper _ (by decide))) ?_,
    fun v here => (properThird v here).delete third .peer⟩
  intro w need
  cases w <;> simp_all [Var.Needs, Function.update]

theorem vars_freeEndpointData (r : Resources) (v : Var) :
    r.freeEndpointData.ledger.vars v =
      match v with
      | .request => r.ledger.vars .request
      | .sharedRemote => r.ledger.vars .sharedRemote
      | .localBuf => r.ledger.vars .localBuf
      | _ => none := by
  unfold freeEndpointData delete
  cases v <;> simp [Function.update]

/-- Nothing is live; `local_buf` may dangle. -/
structure Cleared (r : Resources) : Prop where
  balanced : r.ledger.Balanced Var.Needs
  null : ∀ v, v ≠ .localBuf → r.ledger.vars v = none
  noBuffer : ¬ r.ledger.Holds .localBuf

/-- `rdma_disconnect` leaves nothing live, where `local_buf` does not dangle. -/
theorem rdmaDisconnect_cleared (balanced : r.ledger.Balanced Var.Needs)
    (proper : ∀ v, r.ledger.Proper v) (noRequest : r.ledger.vars .request = none) :
    r.rdmaDisconnect.Cleared := by
  have first := balanced.delete (proper .sharedRemote) (unneeded _ _ (by decide))
  have properFirst := fun v => (proper v).delete balanced .sharedRemote
  have noRequest' : (r.delete .sharedRemote).ledger.vars .request = none := by
    simpa [delete, Function.update] using noRequest
  obtain ⟨second, properSecond⟩ := freeEndpointData_balanced (r := r.delete .sharedRemote) first
    (fun v _ => properFirst v) noRequest'
  have nulls : ∀ v, v ≠ .localBuf →
      (r.delete .sharedRemote).freeEndpointData.ledger.vars v = none := by
    intro v other
    rw [vars_freeEndpointData]
    cases v <;> simp_all [delete, Function.update]
  obtain ⟨freed, gone⟩ := second.free (properSecond .localBuf (properFirst .localBuf))
    (fun w need => by cases w <;> first | exact nulls _ (by decide) | exact need.elim)
  refine ⟨freed, ?_, gone⟩
  intro v other
  rw [← nulls v other]
  exact congrFun Ledger.vars_free v

/-- A buffer that was freed is freed again. -/
theorem rdmaDisconnect_faults {b : Nat} (held : r.ledger.vars .localBuf = some b)
    (gone : ¬ r.ledger.Live b) : ¬ r.rdmaDisconnect.ledger.Sound := by
  intro sound
  have stays : ∀ (l : Ledger Var) v, ¬ l.Live b → ¬ (l.delete v).Live b :=
    fun l v dead live => dead (Ledger.Live.of_free live)
  have dead : ¬ (r.delete .sharedRemote).freeEndpointData.ledger.Live b :=
    stays _ _ (stays _ _ (stays _ _ (stays _ _ (stays _ _ gone))))
  have held' : (r.delete .sharedRemote).freeEndpointData.ledger.vars .localBuf = some b := by
    rw [vars_freeEndpointData]
    simpa [delete, Function.update] using held
  have faults := Ledger.faults_free_of_gone held' dead
  exact absurd (faults.symm.trans sound.faults) (Nat.succ_ne_zero _)

end Teardown

/-! ## What is made from the peer -/

section Peer

variable {r : Resources}

theorem obtain_from_peer (balanced : r.ledger.Balanced Var.Needs) (peer : r.ledger.Holds .peer)
    {v : Var} (empty : ¬ r.ledger.Holds v) (need : v.Needs .peer) :
    (r.obtain v [.peer]).ledger.Balanced Var.Needs := by
  refine balanced.obtain empty ?_
  intro w member
  rw [List.mem_singleton.mp member]
  exact ⟨peer, need⟩

/-- A connection request that was consumed leaves nothing behind. -/
structure Consumes (r r' : Resources) : Prop where
  balanced : r'.ledger.Balanced Var.Needs
  vars : r'.ledger.vars = r.ledger.vars
  holds : ∀ v, r.ledger.Holds v → r'.ledger.Holds v

theorem consumes_request (balanced : r.ledger.Balanced Var.Needs) (peer : r.ledger.Holds .peer)
    (noRequest : r.ledger.vars .request = none) :
    Consumes r ((r.obtain .request [.peer]).delete .request) := by
  have none_ := Ledger.not_holds_of_null noRequest
  have made := obtain_from_peer balanced peer none_ True.intro
  refine ⟨made.delete (Or.inr (Ledger.holds_obtain _ _ _)) (unneeded _ _ (by decide)), ?_, ?_⟩
  · unfold delete obtain
    rw [Ledger.vars_delete, Ledger.vars_obtain, Function.update_idem, ← noRequest,
      Function.update_eq_self]
  · intro v holds
    have other : v ≠ .request := by
      rintro rfl
      exact none_ holds
    exact (holds.obtain other _).delete made other

theorem Consumes.proper {r' : Resources} (consumes : Consumes r r') {v : Var}
    (proper : r.ledger.Proper v) : r'.ledger.Proper v := by
  refine proper.imp ?_ (consumes.holds v)
  intro isNull
  rw [consumes.vars]
  exact isNull

end Peer

/-! ## The client -/

section Client

variable {r : Resources}

/-- The client between its calls: only `local_buf` can dangle, without a peer there is nothing
else, and a live buffer is registered. -/
structure ClientInv (r : Resources) : Prop where
  balanced : r.ledger.Balanced Var.Needs
  proper : ∀ v, v ≠ .localBuf → r.ledger.Proper v
  noPeer : r.ledger.vars .peer = none → ∀ v, v ≠ .localBuf → r.ledger.vars v = none
  noRequest : r.ledger.vars .request = none
  buffer : r.ledger.Holds .localBuf → r.ledger.Holds .memoryRegion

theorem Cleared.clientInv (cleared : r.Cleared) : r.ClientInv :=
  ⟨cleared.balanced, fun v other => Or.inl (cleared.null v other), fun _ => cleared.null,
    cleared.null .request (by decide), fun holds => (cleared.noBuffer holds).elim⟩

/-- Nothing is live but the peer. -/
structure PeerOnly (r : Resources) : Prop where
  balanced : r.ledger.Balanced Var.Needs
  peer : r.ledger.Holds .peer
  null : ∀ v, v ≠ .peer → v ≠ .localBuf → r.ledger.vars v = none
  noBuffer : ¬ r.ledger.Holds .localBuf

theorem PeerOnly.withEp (only : r.PeerOnly) (ep : EndpointData) :
    Resources.PeerOnly ⟨ep, r.ledger⟩ :=
  ⟨only.balanced, only.peer, only.null, only.noBuffer⟩

theorem PeerOnly.clientInv (only : r.PeerOnly) : r.ClientInv := by
  obtain ⟨balanced, holds, null, noBuffer⟩ := only
  refine ⟨balanced, ?_, ?_, null .request (by decide) (by decide), fun here => (noBuffer here).elim⟩
  · intro v other
    by_cases same : v = .peer
    · subst same
      exact Or.inr holds
    · exact Or.inl (null v same other)
  · intro noPeer
    exact (Ledger.not_holds_of_null noPeer holds).elim

/-- The peer is there and the buffer registered. -/
structure Buffered (r : Resources) : Prop where
  balanced : r.ledger.Balanced Var.Needs
  peer : r.ledger.Holds .peer
  buffer : r.ledger.Holds .localBuf
  region : r.ledger.Holds .memoryRegion
  null : ∀ v, v ≠ .peer → v ≠ .localBuf → v ≠ .memoryRegion → r.ledger.vars v = none

/-- Every handle that `rdma_get` and `rdma_put` use is live. -/
structure Connected (r : Resources) : Prop where
  peer : r.ledger.Holds .peer
  buffer : r.ledger.Holds .localBuf
  region : r.ledger.Holds .memoryRegion
  connection : r.ledger.Holds .connection
  remote : r.ledger.Holds .sharedRemote

theorem initializePeer_of_ok {e : PeerEnv} (ok : e.Ok) (r : Resources) :
    initializePeer e r = (0, r.obtain .peer []) := by
  unfold initializePeer
  rw [ok.1, ok.2]
  rfl

theorem initializePeer_of_not_ok {e : PeerEnv} (failed : ¬ e.Ok) (r : Resources) :
    initializePeer e r = (-1, r) := by
  unfold initializePeer
  split
  · rfl
  · rename_i context
    split
    · rfl
    · rename_i new
      exact (failed ⟨by simpa using context, by simpa using new⟩).elim

/-- A new peer, where there was none. -/
theorem ClientInv.obtain_peer (inv : r.ClientInv) (noPeer : r.ledger.vars .peer = none) :
    (r.obtain .peer []).PeerOnly := by
  have null := inv.noPeer noPeer
  have noBuffer : ¬ r.ledger.Holds .localBuf := by
    intro holds
    exact Ledger.not_holds_of_null (null .memoryRegion (by decide)) (inv.buffer holds)
  refine ⟨inv.balanced.obtain (Ledger.not_holds_of_null noPeer) ?_, Ledger.holds_obtain _ _ _,
    ?_, ?_⟩
  · intro w member
    cases member
  · intro v other other'
    change (r.ledger.obtain .peer []).vars v = none
    rw [Ledger.vars_obtain, Function.update_of_ne other]
    exact null v other'
  · rintro ⟨b, held, live⟩
    change b ∈ (r.ledger.obtain .peer []).vars .localBuf at held
    rw [Ledger.vars_obtain, Function.update_of_ne (by decide)] at held
    rcases Ledger.live_obtain_iff.mp live with rfl | old
    · exact Nat.lt_irrefl _ (inv.balanced.bound _ _ held)
    · exact noBuffer ⟨b, held, old⟩

/-- `setup_local_buffer` leaves only the peer when it fails. -/
theorem PeerOnly.setupLocalBuffer (only : r.PeerOnly) (e : ConnectEnv) :
    ((setupLocalBuffer e r).1 = -1 ∧ (setupLocalBuffer e r).2.PeerOnly) ∨
      ((setupLocalBuffer e r).1 = 0 ∧ (setupLocalBuffer e r).2.Buffered) := by
  obtain ⟨balanced, holds, null, noBuffer⟩ := only
  have allocated : (r.obtain .localBuf []).ledger.Balanced Var.Needs :=
    balanced.obtain noBuffer nofun
  have peer' : (r.obtain .localBuf []).ledger.Holds .peer := holds.obtain (by decide) []
  have buffer : (r.obtain .localBuf []).ledger.Holds .localBuf := Ledger.holds_obtain _ _ _
  have null' : ∀ v, v ≠ .peer → v ≠ .localBuf → (r.obtain .localBuf []).ledger.vars v = none := by
    intro v other other'
    unfold Resources.obtain
    rw [Ledger.vars_obtain, Function.update_of_ne other']
    exact null v other other'
  unfold Resources.setupLocalBuffer
  split
  · left
    refine ⟨rfl, balanced.null noBuffer, holds.null (by decide), ?_, ?_⟩
    · intro v other other'
      dsimp only
      rw [Ledger.vars_null, Function.update_of_ne other']
      exact null v other other'
    · refine Ledger.not_holds_of_null ?_
      rw [Ledger.vars_null, Function.update_self]
  · dsimp only
    split
    · left
      refine ⟨rfl, allocated.delete (Or.inr buffer) ?_, peer'.delete allocated (by decide), ?_, ?_⟩
      · intro w need
        cases w <;> first | exact null' _ (by decide) (by decide) | exact need.elim
      · intro v other other'
        unfold Resources.delete
        rw [Ledger.vars_delete, Function.update_of_ne other']
        exact null' v other other'
      · refine Ledger.not_holds_of_null ?_
        unfold Resources.delete
        rw [Ledger.vars_delete, Function.update_self]
    · right
      have noRegion := Ledger.not_holds_of_null (null' .memoryRegion (by decide) (by decide))
      refine ⟨rfl, allocated.obtain noRegion ?_, peer'.obtain (by decide) _,
        buffer.obtain (by decide) _, Ledger.holds_obtain _ _ _, ?_⟩
      · intro w member
        simp only [List.mem_cons, List.not_mem_nil, or_false] at member
        rcases member with rfl | rfl
        · exact ⟨peer', True.intro⟩
        · exact ⟨buffer, True.intro⟩
      · intro v other other' other''
        change ((r.obtain .localBuf []).ledger.obtain .memoryRegion _).vars v = none
        rw [Ledger.vars_obtain, Function.update_of_ne other'']
        exact null' v other other'

/-- What the connection request leaves: no variable dangles, and everything is there where it
succeeds. -/
structure Requested (out : Int × Resources) : Prop where
  balanced : out.2.ledger.Balanced Var.Needs
  proper : ∀ v, out.2.ledger.Proper v
  noRequest : out.2.ledger.vars .request = none
  connected : out.1 = 0 → out.2.Connected

theorem Buffered.requestConnection (buffered : r.Buffered) (e : ConnectEnv) :
    Requested (requestConnection e r) := by
  obtain ⟨balanced, peer, buffer, region, null⟩ := buffered
  have noRequest := null .request (by decide) (by decide) (by decide)
  have proper : ∀ v, r.ledger.Proper v := by
    intro v
    cases v with
    | peer => exact Or.inr peer
    | localBuf => exact Or.inr buffer
    | memoryRegion => exact Or.inr region
    | _ => exact Or.inl (null _ (by decide) (by decide) (by decide))
  unfold Resources.requestConnection
  split
  · exact ⟨balanced, proper, noRequest, nofun⟩
  have consumes := consumes_request balanced peer noRequest
  dsimp only
  generalize (r.obtain .request [.peer]).delete .request = r' at consumes ⊢
  obtain ⟨balanced', vars, holds⟩ := id consumes
  have proper' := fun v => consumes.proper (proper v)
  have noRequest' : r'.ledger.vars .request = none := by rw [vars]; exact noRequest
  split
  · rename_i failed
    exact ⟨balanced', proper', noRequest', fun zero => absurd zero (Int.ne_of_lt failed)⟩
  have noConnection : r'.ledger.vars .connection = none := by
    rw [vars]
    exact null _ (by decide) (by decide) (by decide)
  have balanced'' := obtain_from_peer balanced' (holds _ peer)
    (Ledger.not_holds_of_null noConnection) (v := .connection) True.intro
  have proper'' := fun v => (proper' v).obtain .connection [.peer]
  have noRequest'' : (r'.obtain .connection [.peer]).ledger.vars .request = none := noRequest'
  split
  · exact ⟨balanced'', proper'', noRequest'', nofun⟩
  split
  · exact ⟨balanced'', proper'', noRequest'', nofun⟩
  split
  · exact ⟨balanced'', proper'', noRequest'', nofun⟩
  have noRemote : (r'.obtain .connection [.peer]).ledger.vars .sharedRemote = none := by
    change r'.ledger.vars .sharedRemote = none
    rw [vars]
    exact null _ (by decide) (by decide) (by decide)
  have last : ((r'.obtain .connection [.peer]).obtain .sharedRemote []).ledger.Balanced
      Var.Needs := balanced''.obtain (Ledger.not_holds_of_null noRemote) nofun
  have properLast := fun v => (proper'' v).obtain .sharedRemote []
  have noRequestLast :
      ((r'.obtain .connection [.peer]).obtain .sharedRemote []).ledger.vars .request = none :=
    noRequest''
  split
  · exact ⟨last, properLast, noRequestLast, nofun⟩
  · refine ⟨last, properLast, noRequestLast, fun _ => ⟨?_, ?_, ?_, ?_, Ledger.holds_obtain _ _ _⟩⟩
    · exact ((holds _ peer).obtain (by decide) _).obtain (by decide) _
    · exact ((holds _ buffer).obtain (by decide) _).obtain (by decide) _
    · exact ((holds _ region).obtain (by decide) _).obtain (by decide) _
    · exact (Ledger.holds_obtain _ _ _).obtain (by decide) _

/-- What a connection attempt leaves of `ep_data` beside the handles is what the encryption
set-up wrote. -/
theorem ep_setupConnection (e : ConnectEnv) (r : Resources) : (setupConnection e r).2.ep = r.ep := by
  have buffer : (setupLocalBuffer e r).2.ep = r.ep := by
    unfold setupLocalBuffer
    split
    · rfl
    · dsimp only
      split <;> rfl
  have request : ∀ r : Resources, (requestConnection e r).2.ep = r.ep := by
    intro r
    unfold requestConnection
    dsimp only
    repeat' split
    all_goals rfl
  unfold setupConnection
  dsimp only
  split
  · exact buffer
  · split
    · exact (request _).trans buffer
    · exact (request _).trans buffer

/-- A client that was set up is an endpoint of the store. -/
theorem endpoint_of_connect {e : ConnectEnv} {encKey : Option Bytes}
    {encKeyLength maxValSize : UInt64}
    (zero : (r.rdmaClientConnect e encKey encKeyLength maxValSize).1 = 0)
    (localBuf sharedRemote : FlatMemory.Memory) :
    OneSided.rdmaClientConnect r.ep localBuf sharedRemote encKey encKeyLength maxValSize =
      some ⟨{ (r.rdmaClientConnect e encKey encKeyLength maxValSize).2.ep with
        memoryRegion := true }, localBuf, sharedRemote⟩ := by
  unfold Resources.rdmaClientConnect at zero ⊢
  by_cases ok : e.peer.Ok
  · rw [initializePeer_of_ok ok, if_neg (by simp)] at zero ⊢
    dsimp only at zero ⊢
    split at zero
    · cases zero
    · rename_i set
      rw [if_neg set, ep_setupConnection]
      unfold OneSided.rdmaClientConnect
      exact if_neg set
  · rw [initializePeer_of_not_ok ok, if_pos (by simp)] at zero
    cases zero

/-- Deleting a request that is not there changes nothing. -/
theorem delete_request (noRequest : r.ledger.vars .request = none) : r.delete .request = r := by
  have freed : r.ledger.free .request = r.ledger := by
    unfold Ledger.free
    rw [noRequest]
  have same : r.ledger.delete .request = r.ledger := by
    unfold Ledger.delete Ledger.null
    rw [freed, ← noRequest, Function.update_eq_self]
  unfold delete
  rw [same]

theorem PeerOnly.setupConnection (only : r.PeerOnly) (e : ConnectEnv) :
    (setupConnection e r).2.ClientInv ∧
      ((setupConnection e r).1 = 0 → (setupConnection e r).2.Connected) := by
  unfold Resources.setupConnection
  dsimp only
  rcases only.setupLocalBuffer e with ⟨failed, stays⟩ | ⟨succeeded, buffered⟩
  · rw [failed, if_pos (by decide)]
    exact ⟨stays.clientInv, nofun⟩
  rw [succeeded, if_neg (by decide)]
  have requested := buffered.requestConnection e
  split
  · rename_i failed
    have cleared := rdmaDisconnect_cleared requested.balanced requested.proper requested.noRequest
    rw [delete_request (cleared.null .request (by decide))]
    exact ⟨cleared.clientInv, fun zero => absurd zero failed⟩
  · rename_i succeeded
    have connected := requested.connected (by simpa using succeeded)
    rw [delete_request requested.noRequest]
    refine ⟨⟨requested.balanced, fun v _ => requested.proper v, ?_, requested.noRequest,
      fun _ => connected.region⟩, fun _ => connected⟩
    intro noPeer
    exact (Ledger.not_holds_of_null noPeer connected.peer).elim

/-- `rdma_client_connect` loses nothing, where it creates a peer only if there is none, and
everything is there when it returns 0. -/
theorem ClientInv.connect (inv : r.ClientInv) {e : ConnectEnv}
    (fresh : e.peer.Ok → r.ledger.vars .peer = none) (encKey : Option Bytes)
    (encKeyLength maxValSize : UInt64) :
    (r.rdmaClientConnect e encKey encKeyLength maxValSize).2.ClientInv ∧
      ((r.rdmaClientConnect e encKey encKeyLength maxValSize).1 = 0 →
        (r.rdmaClientConnect e encKey encKeyLength maxValSize).2.Connected) := by
  unfold rdmaClientConnect
  by_cases ok : e.peer.Ok
  · rw [initializePeer_of_ok ok, if_neg (by simp)]
    have only := inv.obtain_peer (fresh ok)
    dsimp only
    split
    · exact ⟨(only.withEp _).clientInv, nofun⟩
    · exact (only.withEp _).setupConnection e
  · rw [initializePeer_of_not_ok ok, if_pos (by simp)]
    exact ⟨inv, nofun⟩

/-! ### Losses -/

theorem lost_rdmaDisconnect {h : Nat} (lost : r.ledger.Lost h) :
    r.rdmaDisconnect.ledger.Lost h :=
  (((((lost.delete _).delete _).delete _).delete _).delete _).free _

theorem lost_setupLocalBuffer {h : Nat} (lost : r.ledger.Lost h) (e : ConnectEnv) :
    (setupLocalBuffer e r).2.ledger.Lost h := by
  unfold setupLocalBuffer
  split
  · exact lost.null _
  dsimp only
  split
  · exact (lost.obtain _ _).delete _
  · exact (lost.obtain _ _).obtain _ _

theorem lost_requestConnection {h : Nat} (lost : r.ledger.Lost h) (e : ConnectEnv) :
    (requestConnection e r).2.ledger.Lost h := by
  unfold requestConnection
  split
  · exact lost
  have consumed := (lost.obtain .request [.peer]).delete .request
  dsimp only
  split
  · exact consumed
  have connected := consumed.obtain .connection [.peer]
  split
  · exact connected
  split
  · exact connected
  split
  · exact connected
  split
  · exact connected.obtain .sharedRemote []
  · exact connected.obtain .sharedRemote []

theorem lost_setupConnection {h : Nat} (lost : r.ledger.Lost h) (e : ConnectEnv) :
    (setupConnection e r).2.ledger.Lost h := by
  have buffered := lost_setupLocalBuffer lost e
  unfold setupConnection
  dsimp only
  split
  · exact buffered
  have requested := lost_requestConnection buffered e
  split
  · exact (lost_rdmaDisconnect requested).delete _
  · exact requested.delete _

/-- A peer that is overwritten is lost. -/
theorem ClientInv.connect_loses (inv : r.ClientInv) {e : ConnectEnv} (ok : e.peer.Ok)
    (peer : r.ledger.vars .peer ≠ none) (encKey : Option Bytes)
    (encKeyLength maxValSize : UInt64) :
    ¬ (r.rdmaClientConnect e encKey encKeyLength maxValSize).2.ledger.Sound := by
  have holds : r.ledger.Holds .peer := (inv.proper .peer (by decide)).resolve_left peer
  obtain ⟨h, lost⟩ := inv.balanced.lost_of_obtain holds []
  refine Ledger.Lost.not_sound (h := h) ?_
  unfold rdmaClientConnect
  rw [initializePeer_of_ok ok, if_neg (by simp)]
  dsimp only
  split
  · exact lost
  · exact lost_setupConnection lost e

/-! ### Runs -/

/-- The buffer does not dangle when the client disconnects, and there is no peer when a new
one is created. -/
def ClientOk (r : Resources) : ClientCall → Prop
  | .connect e _ _ _ => e.peer.Ok → r.ledger.vars .peer = none
  | .disconnect => r.ledger.Proper .localBuf

theorem ClientInv.step (inv : r.ClientInv) {c : ClientCall} (ok : r.ClientOk c) :
    (r.clientStep c).ClientInv := by
  cases c with
  | connect e encKey encKeyLength maxValSize =>
      exact (inv.connect ok encKey encKeyLength maxValSize).1
  | disconnect =>
      refine (rdmaDisconnect_cleared inv.balanced ?_ inv.noRequest).clientInv
      intro v
      by_cases same : v = .localBuf
      · subst same
        exact ok
      · exact inv.proper v same

theorem ClientInv.ok_of_sound (inv : r.ClientInv) {c : ClientCall}
    (sound : (r.clientStep c).ledger.Sound) : r.ClientOk c := by
  cases c with
  | connect e encKey encKeyLength maxValSize =>
      intro ok
      by_contra peer
      exact inv.connect_loses ok peer encKey encKeyLength maxValSize sound
  | disconnect =>
      change r.ledger.Proper .localBuf
      cases held : r.ledger.vars .localBuf with
      | none => exact Or.inl held
      | some b =>
          refine Or.inr ⟨b, held, ?_⟩
          by_contra gone
          exact rdmaDisconnect_faults held gone sound

theorem clientInv_init (ep : EndpointData) : (init ep).ClientInv :=
  Cleared.clientInv ⟨Ledger.balanced_empty _, fun _ _ => rfl, Ledger.not_holds_of_null rfl⟩

/-- A connection that was set up has every handle `rdma_get` and `rdma_put` use, and the client
is an endpoint of the server's store. -/
def SetsUp (r : Resources) : ClientCall → Prop
  | .connect e encKey encKeyLength maxValSize =>
      (r.rdmaClientConnect e encKey encKeyLength maxValSize).1 = 0 →
        (r.rdmaClientConnect e encKey encKeyLength maxValSize).2.Connected ∧
        ∀ localBuf sharedRemote, OneSided.rdmaClientConnect r.ep localBuf sharedRemote encKey
            encKeyLength maxValSize =
          some ⟨{ (r.rdmaClientConnect e encKey encKeyLength maxValSize).2.ep with
            memoryRegion := true }, localBuf, sharedRemote⟩
  | .disconnect => True

/-- In every run of a client, whatever library calls fail: nothing is freed twice or lost,
exactly when `rdma_disconnect` is called only while `local_buf` does not dangle and no peer is
created while another is held; and in such a run a connection that was set up is complete. -/
theorem client_sound_iff (ep : EndpointData) (calls : List ClientCall) :
    ((∀ before, before <+: calls → (run clientStep (init ep) before).ledger.Sound) ↔
        Along clientStep ClientOk (init ep) calls) ∧
      (Along clientStep ClientOk (init ep) calls →
        Along clientStep SetsUp (init ep) calls) := by
  refine ⟨forall_prefix_iff_along_of_breaks (I := ClientInv) (fun r c inv ok => inv.step ok)
    (fun r inv => inv.balanced.sound) (fun r c inv sound => inv.ok_of_sound sound)
    (clientInv_init ep) calls, ?_⟩
  intro along
  refine (Along.with_invariant (I := ClientInv) (fun r c inv ok => inv.step ok)
    (clientInv_init ep) along).mono ?_
  rintro r c ⟨inv, ok⟩
  cases c with
  | connect e encKey encKeyLength maxValSize =>
      intro zero
      exact ⟨(inv.connect ok encKey encKeyLength maxValSize).2 zero, endpoint_of_connect zero⟩
  | disconnect => exact True.intro

end Client

/-! ## The server -/

section Server

variable {r : Resources}

/-- The server between its calls: no variable dangles, and without a peer there is nothing. -/
structure ServerInv (r : Resources) : Prop where
  balanced : r.ledger.Balanced Var.Needs
  proper : ∀ v, r.ledger.Proper v
  noPeer : r.ledger.vars .peer = none → ∀ v, r.ledger.vars v = none
  unused : r.ledger.vars .request = none ∧ r.ledger.vars .sharedRemote = none ∧
    r.ledger.vars .localBuf = none

/-- What an operation with objects made from the peer keeps. -/
theorem serverInv_of_peer (balanced : r.ledger.Balanced Var.Needs)
    (proper : ∀ v, r.ledger.Proper v) (peer : r.ledger.Holds .peer)
    (unused : r.ledger.vars .request = none ∧ r.ledger.vars .sharedRemote = none ∧
      r.ledger.vars .localBuf = none) : r.ServerInv := by
  refine ⟨balanced, proper, ?_, unused⟩
  intro noPeer
  exact (Ledger.not_holds_of_null noPeer peer).elim

/-- `free_endpoint_data` leaves the server with nothing. -/
theorem ServerInv.freeEndpointData (inv : r.ServerInv) : r.freeEndpointData.ServerInv := by
  obtain ⟨noRequest, noRemote, noBuffer⟩ := inv.unused
  obtain ⟨balanced, -⟩ := freeEndpointData_balanced inv.balanced (fun v _ => inv.proper v) noRequest
  have null : ∀ v, r.freeEndpointData.ledger.vars v = none := by
    intro v
    rw [vars_freeEndpointData]
    cases v <;> first | rfl | assumption
  exact ⟨balanced, fun v => Or.inl (null v), fun _ => null, null _, null _, null _⟩

theorem ServerInv.withEp (inv : r.ServerInv) (ep : EndpointData) :
    Resources.ServerInv ⟨ep, r.ledger⟩ :=
  ⟨inv.balanced, inv.proper, inv.noPeer, inv.unused⟩

/-- A server with a peer and maybe a region: what `host_server` has before it listens. -/
structure Hosting (r : Resources) : Prop extends ServerInv r where
  peer : r.ledger.Holds .peer
  noEndpoint : r.ledger.vars .endpoint = none

theorem ServerInv.obtain_peer (inv : r.ServerInv) (noPeer : r.ledger.vars .peer = none) :
    (r.obtain .peer []).Hosting ∧ (r.obtain .peer []).ledger.vars .memoryRegion = none := by
  have null := inv.noPeer noPeer
  have balanced : (r.obtain .peer []).ledger.Balanced Var.Needs :=
    inv.balanced.obtain (Ledger.not_holds_of_null noPeer) nofun
  have peer : (r.obtain .peer []).ledger.Holds .peer := Ledger.holds_obtain _ _ _
  have unused : (r.obtain .peer []).ledger.vars .request = none ∧
      (r.obtain .peer []).ledger.vars .sharedRemote = none ∧
      (r.obtain .peer []).ledger.vars .localBuf = none := inv.unused
  refine ⟨⟨serverInv_of_peer balanced ?_ peer unused, peer, null .endpoint⟩, null .memoryRegion⟩
  intro v
  exact (inv.proper v).obtain _ _

/-- `register_shared_memory_region` leaves the region only where it succeeds. -/
theorem Hosting.register (hosting : r.Hosting) (noRegion : r.ledger.vars .memoryRegion = none)
    (e : HostEnv) :
    (registerSharedMemoryRegion e r).2.Hosting ∧
      ((registerSharedMemoryRegion e r).1 = 0 →
        (registerSharedMemoryRegion e r).2.ledger.Holds .memoryRegion) := by
  obtain ⟨inv, peer, noEndpoint⟩ := hosting
  have balanced : (r.obtain .memoryRegion [.peer]).ledger.Balanced Var.Needs :=
    obtain_from_peer inv.balanced peer (Ledger.not_holds_of_null noRegion) True.intro
  have proper : ∀ v, (r.obtain .memoryRegion [.peer]).ledger.Proper v :=
    fun v => (inv.proper v).obtain _ _
  have peer' : (r.obtain .memoryRegion [.peer]).ledger.Holds .peer := peer.obtain (by decide) _
  have region : (r.obtain .memoryRegion [.peer]).ledger.Holds .memoryRegion :=
    Ledger.holds_obtain _ _ _
  have dropped : ((r.obtain .memoryRegion [.peer]).delete .memoryRegion).Hosting := by
    have peer'' : ((r.obtain .memoryRegion [.peer]).delete .memoryRegion).ledger.Holds .peer :=
      peer'.delete balanced (by decide)
    refine ⟨serverInv_of_peer (balanced.delete (Or.inr region) (unneeded _ _ (by decide))) ?_
      peer'' ?_, peer'', ?_⟩
    · intro v
      exact (proper v).delete balanced _
    · simpa [obtain, delete, Function.update] using inv.unused
    · simpa [obtain, delete, Function.update] using noEndpoint
  unfold registerSharedMemoryRegion
  split
  · exact ⟨⟨inv, peer, noEndpoint⟩, nofun⟩
  dsimp only
  split
  · exact ⟨dropped, nofun⟩
  split
  · exact ⟨dropped, nofun⟩
  · exact ⟨⟨serverInv_of_peer balanced proper peer' inv.unused, peer', noEndpoint⟩,
      fun _ => region⟩

/-- Everything a hosted server needs is live. -/
structure Hosted (r : Resources) : Prop where
  peer : r.ledger.Holds .peer
  region : r.ledger.Holds .memoryRegion
  endpoint : r.ledger.Holds .endpoint

theorem ServerInv.host (inv : r.ServerInv) {e : HostEnv}
    (fresh : e.peer.Ok → r.ledger.vars .peer = none) (encKey : Option Bytes)
    (encKeyLength maxValSize : UInt64) :
    (r.hostServer e encKey encKeyLength maxValSize).2.ServerInv ∧
      ((r.hostServer e encKey encKeyLength maxValSize).1 = 0 →
        (r.hostServer e encKey encKeyLength maxValSize).2.Hosted) := by
  unfold hostServer
  by_cases ok : e.peer.Ok
  · rw [initializePeer_of_ok ok, if_neg (by simp)]
    obtain ⟨hosting, noRegion⟩ := inv.obtain_peer (fresh ok)
    obtain ⟨registered, region⟩ := hosting.register noRegion e
    dsimp only
    split
    · exact ⟨registered.toServerInv.freeEndpointData, nofun⟩
    rename_i zero
    have region := region (by simpa using zero)
    generalize registerSharedMemoryRegion e (r.obtain .peer []) = out at registered region
    split
    · exact ⟨(registered.toServerInv.withEp _).freeEndpointData, nofun⟩
    split
    · exact ⟨(registered.toServerInv.withEp _).freeEndpointData, nofun⟩
    · have empty := Ledger.not_holds_of_null registered.noEndpoint
      have listening := obtain_from_peer registered.balanced registered.peer empty
        (v := .endpoint) True.intro
      refine ⟨serverInv_of_peer listening (fun v => (registered.proper v).obtain _ _)
        (registered.peer.obtain (by decide) _) registered.unused, fun _ => ⟨?_, ?_, ?_⟩⟩
      · exact registered.peer.obtain (by decide) _
      · exact region.obtain (by decide) _
      · exact Ledger.holds_obtain _ _ _
  · rw [initializePeer_of_not_ok ok, if_pos (by simp)]
    exact ⟨inv, nofun⟩

/-- `accept_client` gets a connection. -/
def Accepts (r : Resources) (e : AcceptEnv) : Prop :=
  e.nextConnReq = true ∧ (r.ledger.vars .endpoint).isSome = true ∧ 0 ≤ e.connReqConnect

/-- There is a peer where there is an endpoint. -/
theorem ServerInv.peer_of_endpoint (inv : r.ServerInv)
    (endpoint : (r.ledger.vars .endpoint).isSome = true) : r.ledger.Holds .peer := by
  refine (inv.proper .peer).resolve_left ?_
  intro noPeer
  rw [inv.noPeer noPeer] at endpoint
  cases endpoint

theorem ServerInv.accept (inv : r.ServerInv) {e : AcceptEnv}
    (fresh : r.Accepts e → r.ledger.vars .connection = none) :
    (r.acceptClient e).2.ServerInv ∧
      ((r.acceptClient e).1 = 0 → (r.acceptClient e).2.ledger.Holds .connection) := by
  unfold acceptClient
  split
  · exact ⟨inv, nofun⟩
  rename_i requested
  obtain ⟨request, endpoint⟩ : e.nextConnReq = true ∧
      (r.ledger.vars .endpoint).isSome = true := by
    rwa [Bool.not_eq_true, Bool.not_eq_false', Bool.and_eq_true] at requested
  have peer := inv.peer_of_endpoint endpoint
  have consumes := consumes_request inv.balanced peer inv.unused.1
  dsimp only
  generalize (r.obtain .request [.peer]).delete .request = r' at consumes ⊢
  obtain ⟨balanced, vars, holds⟩ := id consumes
  have proper := fun v => consumes.proper (inv.proper v)
  have unused : r'.ledger.vars .request = none ∧ r'.ledger.vars .sharedRemote = none ∧
      r'.ledger.vars .localBuf = none := by
    rw [vars]
    exact inv.unused
  split
  · exact ⟨serverInv_of_peer balanced proper (holds _ peer) unused, nofun⟩
  · rename_i accepted
    have noConnection : r'.ledger.vars .connection = none := by
      rw [vars]
      exact fresh ⟨request, endpoint, Int.not_lt.mp accepted⟩
    have connected := obtain_from_peer balanced (holds _ peer)
      (Ledger.not_holds_of_null noConnection) (v := .connection) True.intro
    exact ⟨serverInv_of_peer connected (fun v => (proper v).obtain _ _)
      ((holds _ peer).obtain (by decide) _) unused, fun _ => Ledger.holds_obtain _ _ _⟩

/-! ### Losses -/

theorem lost_freeEndpointData {h : Nat} (lost : r.ledger.Lost h) :
    r.freeEndpointData.ledger.Lost h :=
  (((lost.delete _).delete _).delete _).delete _

theorem lost_register {h : Nat} (lost : r.ledger.Lost h) (e : HostEnv) :
    (registerSharedMemoryRegion e r).2.ledger.Lost h := by
  unfold registerSharedMemoryRegion
  split
  · exact lost
  dsimp only
  split
  · exact (lost.obtain _ _).delete _
  split
  · exact (lost.obtain _ _).delete _
  · exact lost.obtain _ _

/-- A peer that is overwritten is lost. -/
theorem ServerInv.host_loses (inv : r.ServerInv) {e : HostEnv} (ok : e.peer.Ok)
    (peer : r.ledger.vars .peer ≠ none) (encKey : Option Bytes)
    (encKeyLength maxValSize : UInt64) :
    ¬ (r.hostServer e encKey encKeyLength maxValSize).2.ledger.Sound := by
  obtain ⟨h, lost⟩ := inv.balanced.lost_of_obtain ((inv.proper .peer).resolve_left peer) []
  refine Ledger.Lost.not_sound (h := h) ?_
  unfold hostServer
  rw [initializePeer_of_ok ok, if_neg (by simp)]
  have registered := lost_register (r := r.obtain .peer []) lost e
  dsimp only
  split
  · exact lost_freeEndpointData registered
  split
  · exact lost_freeEndpointData (r := ⟨_, _⟩) registered
  split
  · exact lost_freeEndpointData (r := ⟨_, _⟩) registered
  · exact registered.obtain _ _

/-- A connection that is overwritten is lost. -/
theorem ServerInv.accept_loses (inv : r.ServerInv) {e : AcceptEnv} (accepts : r.Accepts e)
    (connection : r.ledger.vars .connection ≠ none) :
    ¬ (r.acceptClient e).2.ledger.Sound := by
  obtain ⟨request, endpoint, accepted⟩ := accepts
  have peer := inv.peer_of_endpoint endpoint
  have consumes := consumes_request inv.balanced peer inv.unused.1
  have holds := consumes.holds .connection ((inv.proper .connection).resolve_left connection)
  obtain ⟨h, lost⟩ := consumes.balanced.lost_of_obtain holds [.peer]
  refine Ledger.Lost.not_sound (h := h) ?_
  unfold acceptClient
  rw [if_neg (by simp [request, endpoint])]
  dsimp only
  rw [if_neg (Int.not_lt.mpr accepted)]
  exact lost

/-! ### Runs -/

/-- There is no peer when a new one is created, and no connection when a client is accepted. -/
def ServerOk (r : Resources) : ServerCall → Prop
  | .host e _ _ _ => e.peer.Ok → r.ledger.vars .peer = none
  | .accept e => r.Accepts e → r.ledger.vars .connection = none
  | .shutdown => True

theorem ServerInv.step (inv : r.ServerInv) {c : ServerCall} (ok : r.ServerOk c) :
    (r.serverStep c).ServerInv := by
  cases c with
  | host e encKey encKeyLength maxValSize =>
      exact (inv.host ok encKey encKeyLength maxValSize).1
  | accept e => exact (inv.accept ok).1
  | shutdown => exact inv.freeEndpointData

theorem ServerInv.ok_of_sound (inv : r.ServerInv) {c : ServerCall}
    (sound : (r.serverStep c).ledger.Sound) : r.ServerOk c := by
  cases c with
  | host e encKey encKeyLength maxValSize =>
      intro ok
      by_contra peer
      exact inv.host_loses ok peer encKey encKeyLength maxValSize sound
  | accept e =>
      intro accepts
      by_contra connection
      exact inv.accept_loses accepts connection sound
  | shutdown => exact True.intro

/-- After `shutdown_rdma_server` nothing is live. -/
theorem ServerInv.shutdown (inv : r.ServerInv) (h : Nat) :
    ¬ r.shutdownRdmaServer.ledger.Live h := by
  intro live
  obtain ⟨v, held⟩ := inv.freeEndpointData.balanced.sound.reached h live
  have noPeer : r.freeEndpointData.ledger.vars .peer = none := by
    rw [vars_freeEndpointData]
  rw [inv.freeEndpointData.noPeer noPeer] at held
  cases held

end Server

end Resources

end NetworkStack.OneSided
