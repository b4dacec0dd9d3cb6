import NetworkStack.PendingRequestQueue

/-!
# The client

`Client` of the two-sided stack. eRPC is outside the repository: what one
`run_event_loop_once` does is a list of deliveries, each running the
continuation of one enqueued request on the bytes that arrived as its response,
and the client records the requests whose continuation is still to run. A call
that waits in `prepare_new_request` takes the event-loop iterations it waits
through as an argument; without enough of them it has not returned, which is
`none`.

The client also keeps its history: the requests it enqueued, the callbacks it
invoked and the values its calls returned. Nothing in the code reads it.
-/

namespace NetworkStack

/-- A request handed to `enqueue_request`: the slot, the content of its tag, and what
was encrypted into the request buffer. -/
structure Sent : Type where
  slot : Slot
  tag : SentMessageTag
  payload : RdmaEncPayload
  ciphertext : Bytes

/-- eRPC runs the continuation of the request of `call` on the bytes `response`;
`stack` is what the uninitialized header of the continuation holds. -/
structure Delivery : Type where
  call : Nat
  response : Bytes
  stack : RdmaMsgHeader
  env : DecEnv

structure Client : Type where
  queue : PendingRequestQueue
  encKey : Bytes
  sessionNr : Int
  maxKeySize : Nat
  maxValSize : Nat
  connected : Bool
  mem : Mem
  /-- requests whose continuation eRPC has still to run -/
  pending : List (Nat × Slot)
  calls : Nat
  sent : List Sent
  completions : List Completion
  returned : List (Nat × Int)

namespace Client

/-- A client after construction; `random` and `uninit` as in the ring's constructor. -/
def init (id : UInt8) (maxKeySize maxValSize : Nat) (random : UInt64)
    (uninit : Slot → SentMessageTag) (mem : Mem) : Client where
  queue := .init id random uninit
  encKey := []
  sessionNr := -1
  maxKeySize := maxKeySize
  maxValSize := maxValSize
  connected := false
  mem := mem
  pending := []
  calls := 0
  sent := []
  completions := []
  returned := []

/-- `Client::connect` with the session number eRPC returned. -/
def connect (c : Client) (encryptionKey : Bytes) (sessionNr : Int) : Client :=
  { c with
    encKey := encryptionKey
    sessionNr := sessionNr
    connected := if sessionNr < 0 then c.connected else true }

/-- The arguments of the constructor and of `connect`, with what `RAND_bytes` and eRPC
delivered. -/
structure Setup : Type where
  id : UInt8
  maxKeySize : Nat
  maxValSize : Nat
  random : UInt64
  uninit : Slot → SentMessageTag
  mem : Mem
  encKey : Bytes
  sessionNr : Int

/-- A client that was constructed and connected. -/
def Setup.client (s : Setup) : Client :=
  (Client.init s.id s.maxKeySize s.maxValSize s.random s.uninit s.mem).connect s.encKey s.sessionNr

/-- Take over a ring in which callbacks were invoked; `disconnect_callback` clears
`connected`. -/
def complete (c : Client) (q : PendingRequestQueue) (done : List Completion) : Client :=
  { c with
    queue := q
    completions := c.completions ++ done
    connected := c.connected && done.all fun x => x.callback ≠ .disconnect }

def messageArrived (c : Client) (ret : RetVal) (seqOp : UInt64) : Client :=
  let r := c.queue.messageArrived ret seqOp
  c.complete r.1 r.2.toList

/-- `*tag->value_len = payload.value_len` -/
def storeValueLen (c : Client) (cell : Option Nat) (len : Nat) : Client :=
  match cell with
  | none => c
  | some a => { c with mem := { c.mem with sizes := Function.update c.mem.sizes a len } }

/-- `Client::decrypt_cont_func` for the tag in slot `k`. -/
def decryptContFunc (gcm : AesGcm) (c : Client) (k : Slot) (d : Delivery) : Client :=
  let tag := c.queue.queue k
  let r := decryptMessage gcm c.encKey d.env d.stack ⟨.null, callerPtr tag.value, 0⟩ c.mem
    d.response
  let c := { c with mem := r.mem }
  if r.ret < 0 then c.messageArrived .invalidResponse r.header.seqOp
  else if r.header.seqOp &&& (seqMask ||| idMask) ≠
      nextSeq tag.header.seqOp &&& (idMask ||| seqMask) then c
  else if opFromSeqOp tag.header.seqOp ≠ opFromSeqOp r.header.seqOp then
    c.messageArrived .opFailed r.header.seqOp
  else
    (c.storeValueLen tag.valueLen r.payload.valueLen).messageArrived .opSuccess r.header.seqOp

/-- eRPC runs one continuation, if it is still to run. -/
def deliver (gcm : AesGcm) (c : Client) (d : Delivery) : Client :=
  match c.pending.find? (·.1 == d.call) with
  | none => c
  | some p => { c with pending := c.pending.erase p }.decryptContFunc gcm p.2 d

/-- `run_event_loop_once` -/
def runEventLoopOnce (gcm : AesGcm) (c : Client) (batch : List Delivery) : Client :=
  batch.foldl (deliver gcm) c

/-- The event-loop iterations, the global IV and the library outcomes of one call. -/
structure CallEnv : Type where
  wait : List (List Delivery)
  iv : Iv
  enc : EncEnv
  loop : List (List Delivery)

/-- The wait loop of `prepare_new_request`. -/
def waitForSlot (gcm : AesGcm) (index : Slot) : List (List Delivery) → Client → Option Client
  | [], c => if (c.queue.queue index).valid then none else some c
  | batch :: wait, c =>
      if (c.queue.queue index).valid then waitForSlot gcm index wait (c.runEventLoopOnce gcm batch)
      else some c

/-- `prepare_new_request` -/
def prepareNewRequest (gcm : AesGcm) (wait : List (List Delivery)) (c : Client) (op : UInt8)
    (userTag : Nat) (cb : Option Callback) (valueSize : Option Nat) : Option (Client × Slot) :=
  let index := acceptedIndex c.queue.currentSeqOp
  (waitForSlot gcm index wait c).map fun c =>
    let ret := (c.queue.queue index).validate userTag cb valueSize
    let ret := { ret with
      header := { ret.header with seqOp := setOp c.queue.currentSeqOp op }
      call := c.calls }
    ({ c with queue := c.queue.setTag index ret }, index)

/-- `send_message` -/
def sendMessage (gcm : AesGcm) (c : Client) (s : Sent) (loop : List (List Delivery))
    (loopIterations : Nat) : Client :=
  (loop.take loopIterations).foldl (runEventLoopOnce gcm)
    { c with
      queue := c.queue.incSeq
      pending := c.pending ++ [(s.tag.call, s.slot)]
      sent := c.sent ++ [s] }

/-- What `get`, `put`, `del` and `send_disconnect_message` hand to the ring, to the tag and
to `encrypt_message`; `value` is what the member stores in `tag->value`, if it does. -/
structure Submission : Type where
  op : UInt8
  userTag : Nat
  callback : Option Callback
  valueSize : Option Nat
  keyLen : Nat
  value : Option (Option Nat)
  payload : RdmaEncPayload

/-- The common part of the four: take a slot, fill in the tag, encrypt, and send or give
the slot back. -/
def submit (gcm : AesGcm) (env : CallEnv) (c : Client) (s : Submission) (loopIterations : Nat) :
    Option (Client × Int) :=
  (prepareNewRequest gcm env.wait c s.op s.userTag s.callback s.valueSize).map fun (c, index) =>
    let tag := c.queue.queue index
    let tag := { tag with
      header := { tag.header with keyLen := UInt64.ofNat s.keyLen }
      value := s.value.getD tag.value }
    match (encryptMessage gcm c.encKey env.enc env.iv tag.header s.payload).2 with
    | none => ({ c with queue := c.queue.setTag index { tag with valid := false } }, -1)
    | some ciphertext =>
        (sendMessage gcm { c with queue := c.queue.setTag index tag }
          ⟨index, tag, s.payload, ciphertext⟩ env.loop loopIterations, 0)

/-- A call is over. -/
def nextCall (c : Client) : Client := { c with calls := c.calls + 1 }

/-- A call returns `ret`. -/
def returns (c : Client) (ret : Int) : Client × Int :=
  ({ c.nextCall with returned := c.returned ++ [(c.calls, ret)] }, ret)

/-- `Client::get`; a failed assertion does not return. -/
def get (gcm : AesGcm) (env : CallEnv) (c : Client) (key : Option Bytes) (value : Option Nat)
    (valueLen : Option Nat) (callback : Option Nat) (userTag loopIterations : Nat) :
    Option (Client × Int) :=
  match key with
  | none => some (c.returns (-1))
  | some bytes =>
      if c.sessionNr < 0 ∨ bytes.length > c.maxKeySize then none
      else
        (c.submit gcm env
          { op := rdmaGet, userTag := userTag, callback := callback.map .user
            valueSize := valueLen, keyLen := bytes.length, value := some value
            payload := ⟨some bytes, none, 0⟩ } loopIterations).map
          fun r => r.1.returns r.2

/-- `Client::put`; it stores `user_tag` in the tag a second time, which changes nothing. -/
def put (gcm : AesGcm) (env : CallEnv) (c : Client) (key value : Option Bytes)
    (callback : Option Nat) (userTag loopIterations : Nat) : Option (Client × Int) :=
  match key, value with
  | some bytes, some src =>
      if c.sessionNr < 0 ∨ bytes.length > c.maxKeySize ∨ src.length > c.maxValSize then none
      else
        (c.submit gcm env
          { op := rdmaPut, userTag := userTag, callback := callback.map .user
            valueSize := none, keyLen := bytes.length, value := some none
            payload := ⟨some bytes, some src, src.length⟩ } loopIterations).map
          fun r => r.1.returns r.2
  | _, _ => some (c.returns (-1))

/-- `Client::del` -/
def del (gcm : AesGcm) (env : CallEnv) (c : Client) (key : Option Bytes)
    (callback : Option Nat) (userTag loopIterations : Nat) : Option (Client × Int) :=
  match key with
  | none => some (c.returns (-1))
  | some bytes =>
      if c.sessionNr < 0 ∨ bytes.length > c.maxKeySize then none
      else
        (c.submit gcm env
          { op := rdmaDelete, userTag := userTag, callback := callback.map .user
            valueSize := none, keyLen := bytes.length, value := some none
            payload := ⟨some bytes, none, 0⟩ } loopIterations).map
          fun r => r.1.returns r.2

/-- `send_disconnect_message`; it leaves the value pointer of the tag as it finds it. -/
def sendDisconnectMessage (gcm : AesGcm) (env : CallEnv) (c : Client) : Option Client :=
  (c.submit gcm env
    { op := rdmaErr, userTag := 0, callback := some .disconnect
      valueSize := none, keyLen := 0, value := none
      payload := ⟨none, none, 0⟩ } 5).map
    fun r => r.1.nextCall

/-- `disconnect`; `isConnected` is what eRPC reports for the session. -/
def disconnect (gcm : AesGcm) (env : CallEnv) (c : Client) (isConnected : Bool) : Option Client :=
  if isConnected then
    (c.sendDisconnectMessage gcm env).map fun c =>
      let r := c.queue.invalidateAllRequests
      c.complete r.1 r.2
  else some c

/-! ## Calls -/

/-- The arguments of `get`, `put` and `del`. -/
inductive Request : Type
  | get (key : Option Bytes) (value : Option Nat) (valueLen : Option Nat)
  | put (key value : Option Bytes)
  | del (key : Option Bytes)

/-- A call with its callback, tag and number of event-loop iterations. -/
structure Call : Type where
  request : Request
  callback : Option Nat
  userTag : Nat
  loopIterations : Nat

def call (gcm : AesGcm) (env : CallEnv) (c : Client) (k : Call) : Option (Client × Int) :=
  match k.request with
  | .get key value valueLen =>
      c.get gcm env key value valueLen k.callback k.userTag k.loopIterations
  | .put key value => c.put gcm env key value k.callback k.userTag k.loopIterations
  | .del key => c.del gcm env key k.callback k.userTag k.loopIterations

/-- `queue_full` -/
def queueFull (c : Client) : Bool := c.queue.queueFull

end Client

end NetworkStack
