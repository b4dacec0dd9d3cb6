import NetworkStack.CallerOutput

/-!
# Two clients in one process

What the clients of a process share: `enc_key` is a global, which `connect` sets,
and `connected` is a variable of the thread, which `connect` sets and
`disconnect_callback` clears. An operation of a client runs on one thread, with
the global key and the flag of that thread; its event loop runs continuations of
that client only. The IV is global as well: here each encryption gets its IV as
an input, so that a run stands for those with any values of it.

A process keeps its history: what was encrypted for each client under which key,
how many messages each `prepare_disconnect` sent, and on which threads a client has
connected.
-/

namespace NetworkStack

namespace Client

/-! ## Operations -/

/-- The loop of `prepare_disconnect` in iteration `i`, with `n` iterations to go. -/
def prepareDisconnectLoop (gcm : AesGcm) (env : Nat → CallEnv) : Nat → Nat → Client → Option Client
  | 0, _, c => some c
  | n + 1, i, c =>
      if c.connected then
        (c.sendDisconnectMessage gcm (env i)).bind (prepareDisconnectLoop gcm env n (i + 1))
      else some c

/-- `prepare_disconnect` -/
def prepareDisconnect (gcm : AesGcm) (env : Nat → CallEnv) (c : Client) : Option Client :=
  prepareDisconnectLoop gcm env maxAcceptedResponses 0 c

/-- What can be done with a client after its construction. -/
inductive Op : Type
  | connect (encryptionKey : Bytes) (sessionNr : Int) (wait : List (List Delivery))
  | call (k : Call) (env : CallEnv)
  | runEventLoop (batches : List (List Delivery))
  | prepareDisconnect (env : Nat → CallEnv)
  | disconnect (env : CallEnv) (isConnected : Bool)

/-- A `connect` that gets a session. -/
def Op.connects : Op → Bool
  | .connect _ sessionNr _ => decide (0 ≤ sessionNr)
  | _ => false

def Op.prepares : Op → Bool
  | .prepareDisconnect _ => true
  | _ => false

/-- One operation. One that does not return leaves the client as it is, and eRPC reports no
session as connected that does not exist. -/
def exec (gcm : AesGcm) (c : Client) : Op → Client
  | .connect encryptionKey sessionNr wait =>
      if sessionNr < 0 then c.connect encryptionKey sessionNr
      else
        { wait.foldl (runEventLoopOnce gcm) (c.connect encryptionKey sessionNr) with
          connected := true }
  | .call k env => ((c.call gcm env k).map Prod.fst).getD c
  | .runEventLoop batches => batches.foldl (runEventLoopOnce gcm) c
  | .prepareDisconnect env => (c.prepareDisconnect gcm env).getD c
  | .disconnect env isConnected =>
      (c.disconnect gcm env (isConnected && decide (0 ≤ c.sessionNr))).getD c

/-- A client after its construction, before any `connect`. -/
def Setup.constructed (s : Setup) : Client :=
  .init s.id s.maxKeySize s.maxValSize s.random s.uninit s.mem

end Client

/-! ## The process -/

/-- The client whose runs are compared, and the other one. -/
inductive Who : Type
  | a
  | b
deriving DecidableEq

/-- A message as it is encrypted. -/
structure Plaintext : Type where
  header : RdmaMsgHeader
  payload : RdmaEncPayload
  key : Bytes

/-- A client with its history. -/
structure Party : Type where
  client : Client
  messages : List Plaintext
  disconnects : List Nat
  threads : List Nat

structure Process : Type where
  encKey : Bytes
  connected : Nat → Bool
  party : Who → Party

/-- One operation of one client, on one thread. -/
structure Step : Type where
  who : Who
  thread : Nat
  op : Client.Op

/-- The history after an operation that leaves the client `c`. -/
def Party.record (party : Party) (thread : Nat) (op : Client.Op) (c : Client) :
    Party :=
  let new := c.sent.drop party.client.sent.length
  { client := c
    messages := party.messages ++ new.map fun s => ⟨s.tag.header, s.payload, c.encKey⟩
    disconnects := if op.prepares then party.disconnects ++ [new.length] else party.disconnects
    threads := if op.connects then thread :: party.threads else party.threads }

namespace Process

/-- The process before any `connect`: no key, and no thread is connected. -/
def start (a b : Client.Setup) : Process where
  encKey := []
  connected _ := false
  party
    | .a => ⟨a.constructed, [], [], []⟩
    | .b => ⟨b.constructed, [], [], []⟩

/-- A client as its code sees it on a thread. -/
def load (p : Process) (who : Who) (thread : Nat) : Client :=
  { (p.party who).client with encKey := p.encKey, connected := p.connected thread }

def step (gcm : AesGcm) (p : Process) (s : Step) : Process :=
  let c := (p.load s.who s.thread).exec gcm s.op
  { encKey := c.encKey
    connected := Function.update p.connected s.thread c.connected
    party := Function.update p.party s.who ((p.party s.who).record s.thread s.op c) }

/-- The response `d` would complete the request of call `n` in slot `k` with `OP_SUCCESS`. -/
def Accepts (gcm : AesGcm) (p : Process) (who : Who) (n : Nat) (k : Slot) (d : Delivery) : Prop :=
  (n, k) ∈ (p.party who).client.pending ∧
    Client.Succeeds gcm { (p.party who).client with encKey := p.encKey } k d

end Process

end NetworkStack
