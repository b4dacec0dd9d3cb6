import NetworkStack.Codec

/-!
# The ring of pending requests

`sent_message_tag` and `PendingRequestQueue`: a ring of 1024 message tags,
indexed by the sequence number of the request a tag was filled for. A callback
is user code; the model records its invocation as a `Completion`. A tag also
records which call filled it, so that a completion can be told to belong to that
call.
-/

namespace NetworkStack

/-- `enum ret_val` -/
inductive RetVal : Type
  | opSuccess
  | opFailed
  | timeout
  | invalidResponse
deriving DecidableEq

/-- A `status_callback`: one of the user's functions, or `disconnect_callback`. -/
inductive Callback : Type
  | user (function : Nat)
  | disconnect
deriving DecidableEq

/-- One invocation of a callback. -/
structure Completion : Type where
  call : Nat
  callback : Callback
  ret : RetVal
  userTag : Nat
deriving DecidableEq

/-- `struct sent_message_tag`, and the number of the call that filled it. -/
structure SentMessageTag : Type where
  header : RdmaMsgHeader
  value : Option Nat
  valueLen : Option Nat
  userTag : Nat
  callback : Option Callback
  valid : Bool
  call : Nat
deriving DecidableEq

/-- `sent_message_tag::validate` -/
def SentMessageTag.validate (t : SentMessageTag) (tag : Nat) (cb : Option Callback)
    (valueSize : Option Nat) : SentMessageTag :=
  { t with valueLen := valueSize, userTag := tag, callback := cb, valid := true }

/-- `sent_message_tag::invalidate` -/
def SentMessageTag.invalidate (t : SentMessageTag) (ret : RetVal) :
    SentMessageTag × Option Completion :=
  ({ t with valid := false },
    t.callback.map fun cb => { call := t.call, callback := cb, ret := ret, userTag := t.userTag })

/-- A position in the ring. -/
abbrev Slot : Type := Fin maxAcceptedResponses

structure PendingRequestQueue : Type where
  currentSeqOp : UInt64
  queue : Slot → SentMessageTag

namespace PendingRequestQueue

/-- The constructor with the bytes `RAND_bytes` delivered. Apart from `valid` the
tags are not initialized, so their content is a parameter. -/
def init (id : UInt8) (random : UInt64) (uninit : Slot → SentMessageTag) :
    PendingRequestQueue where
  currentSeqOp := setId random id
  queue := fun k => { uninit k with valid := false }

def setTag (q : PendingRequestQueue) (k : Slot) (t : SentMessageTag) : PendingRequestQueue :=
  { q with queue := Function.update q.queue k t }

/-- Invalidate one slot. -/
def invalidateSlot (q : PendingRequestQueue) (k : Slot) (ret : RetVal) :
    PendingRequestQueue × Option Completion :=
  (q.setTag k ((q.queue k).invalidate ret).1, ((q.queue k).invalidate ret).2)

/-- `message_arrived` -/
def messageArrived (q : PendingRequestQueue) (ret : RetVal) (seqOp : UInt64) :
    PendingRequestQueue × Option Completion :=
  let index := acceptedIndex (prevSeq seqOp)
  if !(q.queue index).valid then (q, none) else q.invalidateSlot index ret

/-- `index++; index %= MAX_ACCEPTED_RESPONSES` -/
def nextIndex (index : Slot) : Slot :=
  ⟨(index.val + 1) % maxAcceptedResponses, Nat.mod_lt _ (by decide)⟩

/-- The loop of `invalidate_all_requests` with `n` iterations to go. -/
def invalidateLoop : Nat → Slot → PendingRequestQueue → PendingRequestQueue × List Completion
  | 0, _, q => (q, [])
  | n + 1, index, q =>
      let done :=
        if (q.queue index).valid then q.invalidateSlot index .timeout else (q, none)
      let rest := invalidateLoop n (nextIndex index) done.1
      (rest.1, done.2.toList ++ rest.2)

/-- `invalidate_all_requests` -/
def invalidateAllRequests (q : PendingRequestQueue) : PendingRequestQueue × List Completion :=
  invalidateLoop maxAcceptedResponses (acceptedIndex q.currentSeqOp) q

/-- `queue_full` -/
def queueFull (q : PendingRequestQueue) : Bool :=
  (q.queue (acceptedIndex q.currentSeqOp)).valid

/-- `inc_seq` -/
@[irreducible] def incSeq (q : PendingRequestQueue) : PendingRequestQueue :=
  { q with currentSeqOp := nextSeq (nextSeq q.currentSeqOp) }

/-! ## Slots -/

@[simp] theorem setTag_currentSeqOp (q : PendingRequestQueue) (k : Slot) (t : SentMessageTag) :
    (q.setTag k t).currentSeqOp = q.currentSeqOp := rfl

@[simp] theorem setTag_queue_self (q : PendingRequestQueue) (k : Slot) (t : SentMessageTag) :
    (q.setTag k t).queue k = t := Function.update_self ..

theorem setTag_queue_of_ne (q : PendingRequestQueue) {k j : Slot} (t : SentMessageTag)
    (ne : j ≠ k) : (q.setTag k t).queue j = q.queue j := Function.update_of_ne ne ..

@[simp] theorem incSeq_queue (q : PendingRequestQueue) (k : Slot) :
    q.incSeq.queue k = q.queue k := by
  unfold incSeq
  rfl

@[simp] theorem incSeq_currentSeqOp (q : PendingRequestQueue) :
    q.incSeq.currentSeqOp = nextSeq (nextSeq q.currentSeqOp) := by
  unfold incSeq
  rfl

theorem invalidateSlot_queue_self (q : PendingRequestQueue) (k : Slot) (ret : RetVal) :
    (q.invalidateSlot k ret).1.queue k = { q.queue k with valid := false } :=
  setTag_queue_self ..

theorem invalidateSlot_queue_of_ne (q : PendingRequestQueue) {k j : Slot} (ret : RetVal)
    (ne : j ≠ k) : (q.invalidateSlot k ret).1.queue j = q.queue j :=
  setTag_queue_of_ne _ _ ne

/-- `message_arrived` does nothing, or invalidates the slot its sequence word names. -/
theorem messageArrived_cases (q : PendingRequestQueue) (ret : RetVal) (seqOp : UInt64) :
    ((q.queue (acceptedIndex (prevSeq seqOp))).valid = false ∧
        q.messageArrived ret seqOp = (q, none)) ∨
      ((q.queue (acceptedIndex (prevSeq seqOp))).valid = true ∧
        q.messageArrived ret seqOp = q.invalidateSlot (acceptedIndex (prevSeq seqOp)) ret) := by
  unfold messageArrived
  cases valid : (q.queue (acceptedIndex (prevSeq seqOp))).valid with
  | false => exact Or.inl ⟨rfl, by simp [valid]⟩
  | true => exact Or.inr ⟨rfl, by simp [valid]⟩

end PendingRequestQueue

end NetworkStack
