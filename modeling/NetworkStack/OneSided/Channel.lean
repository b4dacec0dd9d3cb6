import NetworkStack.OneSided.Connection

/-!
# A connection with its completions

A `Connection` counts the completions of earlier transfers that were not
fetched; a `Channel` knows them. A call fetches the oldest one, which is that of
its own transfer only if none is left (`Front`). So a put that gives up after
posting its write decides what the next get does: the get takes the completion
of the write for its own and returns NULL. `rdmaReadFromServer_shows` says what
a read in which no library call fails returns, and `rdmaPut_of_encrypted` what a
put leaves.
-/

namespace NetworkStack.OneSided

open FlatMemory

/-- The fields of `struct rpma_completion` that are read. -/
structure RpmaCompletion : Type where
  op : RpmaOp
  opStatus : Nat
deriving DecidableEq

/-- Outcomes of the librpma calls of one transfer: whether it is posted, what its completion will
report, whether it takes effect before the call is over although that is not reported, and
the wait for a completion, the fetch of one, and the next event. -/
structure Transfer : Type where
  post : Bool
  opStatus : Nat
  landed : Bool
  wait : Bool
  completionGet : Bool
  nextEvent : Option RpmaConnEvent

/-- The completion of the transfer. -/
def Transfer.completion (t : Transfer) (op : RpmaOp) : RpmaCompletion := ⟨op, t.opStatus⟩

/-- No librpma call fails, and the completion of the transfer reports success. -/
structure Transfer.Ok (t : Transfer) : Prop where
  post : t.post = true
  opStatus : t.opStatus = ibvWcSuccess
  wait : t.wait = true
  completionGet : t.completionGet = true

/-- A transfer without failures, that takes effect while an older completion is fetched or not. -/
def Transfer.ok (landed : Bool) (nextEvent : Option RpmaConnEvent) : Transfer :=
  ⟨true, ibvWcSuccess, landed, true, true, nextEvent⟩

theorem Transfer.ok_ok (landed : Bool) (nextEvent : Option RpmaConnEvent) :
    (Transfer.ok landed nextEvent).Ok :=
  ⟨rfl, rfl, rfl, rfl⟩

/-- A write that completes with success has reached the store, whoever fetches the completion. -/
def Transfer.reaches (t : Transfer) : Bool := t.post && (t.landed || t.opStatus = ibvWcSuccess)

theorem Transfer.post_of_reaches {t : Transfer} (reaches : t.reaches = true) : t.post = true := by
  simp only [Transfer.reaches, Bool.and_eq_true] at reaches
  exact reaches.1

/-- An endpoint with the completions of earlier transfers that were not fetched, oldest first. -/
structure Channel : Type where
  endpoint : Endpoint
  completions : List RpmaCompletion

namespace Channel

def connection (c : Channel) : Connection := ⟨c.endpoint, c.completions.length⟩

/-- The completions that are to be fetched once the transfer was posted. -/
def posted (c : Channel) (op : RpmaOp) (t : Transfer) : List RpmaCompletion :=
  c.completions ++ if t.post then [t.completion op] else []

/-- What the call sees: it fetches the oldest completion, if there is one. -/
def env (c : Channel) (op : RpmaOp) (t : Transfer) : TransferEnv where
  post := t.post
  wait := t.wait
  completionGet := t.completionGet && !(c.posted op t).isEmpty
  op := ((c.posted op t).head?.map RpmaCompletion.op).getD op
  opStatus := ((c.posted op t).head?.map RpmaCompletion.opStatus).getD ibvWcSuccess
  landed := t.landed || (op = .write && t.opStatus = ibvWcSuccess)
  nextEvent := t.nextEvent

/-- The completions that stay behind. -/
def left (c : Channel) (op : RpmaOp) (t : Transfer) : List RpmaCompletion :=
  if t.wait && t.completionGet then (c.posted op t).tail else c.posted op t

/-- The completions that `rdma_write_to_server` leaves, which fetches none if its write is not
posted. -/
def leftByWrite (c : Channel) (t : Transfer) : List RpmaCompletion :=
  if t.post then c.left .write t else c.completions

/-- `rdma_read_from_server` -/
def rdmaReadFromServer (t : Transfer) (c : Channel) (srcOffset : UInt64) :
    Channel × Option Bytes :=
  let r := c.connection.rdmaReadFromServer (c.env .read t) srcOffset
  (⟨r.1.endpoint, c.left .read t⟩, r.2)

/-- `rdma_write_to_server` -/
def rdmaWriteToServer (t : Transfer) (c : Channel) (offset : UInt64) : Channel × Int :=
  let r := c.connection.rdmaWriteToServer (c.env .write t) offset
  (⟨r.1.endpoint, c.leftByWrite t⟩, r.2)

/-- `rdma_get` -/
def rdmaGet (gcm : AesGcm) (t : Transfer) (e : DecryptEnv) (c : Channel) (info : LocalKeyInfo)
    (value : Ptr) (mem : Mem) : GetOut Channel :=
  onesidedGet gcm c.endpoint.ep (rdmaReadFromServer t) e c info value mem

/-- `rdma_put` -/
def rdmaPut (gcm : AesGcm) (t : Transfer) (e : EncryptEnv) (c : Channel) (info : LocalKeyInfo)
    (newValue : Memory) : Channel × LocalKeyInfo × Int :=
  let info := { info with sequenceNumber := info.sequenceNumber + 1 }
  let r := onesidedPut gcm c.endpoint.ep
    (fun c src => { c with
      endpoint := { c.endpoint with localBuf := write c.endpoint.localBuf 0 src } })
    (rdmaWriteToServer t) e c info newValue
  if r.2 < 0 then (r.1, { info with sequenceNumber := info.sequenceNumber - 1 }, -1)
  else (r.1, info, 0)

/-! ## The channel is a connection -/

variable {gcm : AesGcm} {c : Channel} {t : Transfer} {op : RpmaOp} {info : LocalKeyInfo}
  {newValue : Memory} {e : EncryptEnv}

theorem length_left (c : Channel) (op : RpmaOp) (t : Transfer) :
    (c.left op t).length = c.connection.leftAfter (c.env op t) := by
  have length : (c.posted op t).length = c.completions.length + if t.post then 1 else 0 := by
    unfold posted
    split
    · exact List.length_append
    · rw [List.append_nil, Nat.add_zero]
  unfold left Connection.leftAfter env connection
  dsimp only
  cases there : c.posted op t with
  | nil =>
      rw [there] at length
      simp only [List.length_nil] at length
      simp [← length]
  | cons x rest =>
      rw [there, List.length_cons] at length
      rw [← length]
      cases t.wait <;> cases t.completionGet <;> simp

theorem connection_rdmaReadFromServer (srcOffset : UInt64) :
    (c.rdmaReadFromServer t srcOffset).1.connection =
      (c.connection.rdmaReadFromServer (c.env .read t) srcOffset).1 := by
  have behind : (c.connection.rdmaReadFromServer (c.env .read t) srcOffset).1.left =
      c.connection.leftAfter (c.env .read t) := by
    unfold Connection.rdmaReadFromServer
    dsimp only
    repeat' split
    all_goals rfl
  rw [← length_left] at behind
  exact congrArg (Connection.mk _) behind.symm

theorem connection_rdmaWriteToServer (offset : UInt64) :
    (c.rdmaWriteToServer t offset).1.connection =
      (c.connection.rdmaWriteToServer (c.env .write t) offset).1 := by
  have behind : (c.connection.rdmaWriteToServer (c.env .write t) offset).1.left =
      (c.leftByWrite t).length := by
    unfold Connection.rdmaWriteToServer leftByWrite
    have same : (c.env .write t).post = t.post := rfl
    dsimp only
    rw [same]
    cases t.post with
    | false => rfl
    | true =>
        rw [if_pos rfl, length_left]
        simp only [Bool.not_true, Bool.false_eq_true, if_false]
        repeat' split
        all_goals rfl
  exact congrArg (Connection.mk _) behind.symm

end Channel

/-! ## What a read returns -/

/-- The completion that a call fetches: that of its own transfer, that of an earlier transfer
which was no read, or that of an earlier read, which reports success or not. -/
inductive Front : Type
  | own
  | other
  | read (success : Bool)
deriving DecidableEq

/-- The completion a call fetches where these are left. -/
def frontOf : List RpmaCompletion → Front
  | [] => .own
  | x :: _ => if x.op = .read then .read (x.opStatus = ibvWcSuccess) else .other

/-- There is an event, and it is not the end of the connection. -/
def goesOn (event : Option RpmaConnEvent) : Bool :=
  event ≠ none && event ≠ some .closed && event ≠ some .lost

/-- What is made of the block in the store, or of what `local_buf` held before, by a read that
fetches this completion and in which no library call fails. -/
def Front.shows {β : Type} (landed : Bool) (event : Option RpmaConnEvent)
    (block buffer : Option β) : Front → Option β
  | .own => block
  | .other => none
  | .read success =>
      if success || goesOn event then (if landed then block else buffer) else none

/-- What a read makes something of is the block or the buffer. -/
theorem Front.eq_of_shows {β : Type} {front : Front} {landed : Bool}
    {event : Option RpmaConnEvent} {block buffer shown : β}
    (shows_ : front.shows landed event (some block) (some buffer) = some shown) :
    shown = block ∨ shown = buffer := by
  cases front with
  | own => exact Or.inl (Option.some.inj shows_).symm
  | other => cases shows_
  | read success =>
      unfold shows at shows_
      dsimp only at shows_
      split at shows_
      · split at shows_
        · exact Or.inl (Option.some.inj shows_).symm
        · exact Or.inr (Option.some.inj shows_).symm
      · cases shows_

theorem Front.bind_shows {β γ : Type} (f : β → Option γ) (front : Front) (landed : Bool)
    (event : Option RpmaConnEvent) (block buffer : Option β) :
    (front.shows landed event block buffer).bind f =
      front.shows landed event (block.bind f) (buffer.bind f) := by
  cases front with
  | own => rfl
  | other => rfl
  | read success =>
      unfold shows
      dsimp only
      split
      · split <;> rfl
      · rfl

/-- The completion of a write at the end is fetched only if no other one is left. -/
theorem frontOf_append_write (rest : List RpmaCompletion) (t : Transfer) :
    frontOf (rest ++ [t.completion .write]) =
      if frontOf rest = .own then .other else frontOf rest := by
  cases rest with
  | nil => rfl
  | cons x rest =>
      have kept : frontOf (x :: rest) ≠ .own := by
        unfold frontOf
        dsimp only
        split <;> simp
      rw [if_neg kept]
      rfl

/-- Nothing is made of a read that fetches the completion of another read, whatever it reports,
exactly if there is nothing in the block and nothing in the buffer. -/
theorem Front.shows_read_eq_none_iff {β : Type} {success : Bool} {block buffer : Option β} :
    (∀ landed event, (Front.read success).shows landed event block buffer = none) ↔
      block = none ∧ buffer = none := by
  constructor
  · intro nothing
    have filled := nothing true (some .established)
    have kept := nothing false (some .established)
    simp only [shows, goesOn] at filled kept
    exact ⟨by simpa using filled, by simpa using kept⟩
  · rintro ⟨rfl, rfl⟩ landed event
    cases landed <;> simp [shows]

/-- A read that fetches the completion of another kind shows nothing. -/
theorem Front.shows_other_eq_iff {β : Type} {success : Bool}
    {block buffer block' buffer' : Option β} :
    (∀ landed event, Front.other.shows landed event block' buffer' =
        (Front.read success).shows landed event block buffer) ↔ block = none ∧ buffer = none := by
  constructor
  · intro same
    exact shows_read_eq_none_iff.mp fun landed event => (same landed event).symm
  · intro nothing landed event
    exact (shows_read_eq_none_iff.mpr nothing landed event).symm

/-- Two reads that fetch the completions of other reads show the same, whatever happens, exactly
if the completions report the same and the blocks and the buffers are the same, or if there is
nothing to show. -/
theorem Front.shows_read_eq_iff {β : Type} {success success' : Bool}
    {block buffer block' buffer' : Option β} :
    (∀ landed event, (Front.read success).shows landed event block buffer =
        (Front.read success').shows landed event block' buffer') ↔
      if success = success' then block' = block ∧ buffer' = buffer
      else (block = none ∧ buffer = none) ∧ block' = none ∧ buffer' = none := by
  constructor
  · intro same
    have filled := same true (some .established)
    have kept := same false (some .established)
    have filledSilent := same true none
    have keptSilent := same false none
    cases success <;> cases success' <;>
      simp_all [shows, goesOn]
  · intro same
    split at same
    · rename_i agree
      rw [agree, same.1, same.2]
      exact fun _ _ => rfl
    · intro landed event
      rw [shows_read_eq_none_iff.mpr same.1, shows_read_eq_none_iff.mpr same.2]

namespace Channel

variable {gcm : AesGcm} {c : Channel} {t : Transfer} {op : RpmaOp} {info : LocalKeyInfo}
  {newValue : Memory} {e : EncryptEnv}

/-- What is in `local_buf`. -/
def buffer (c : Channel) : Bytes := read c.endpoint.localBuf 0 c.endpoint.ep.blockSize.toNat

/-- A read in which no library call fails. -/
theorem rdmaReadFromServer_shows (ok : t.Ok) (offset : UInt64) :
    (c.rdmaReadFromServer t offset).2 =
      (frontOf c.completions).shows t.landed t.nextEvent (some (c.connection.block offset))
        (some c.buffer) := by
  apply Option.ext
  intro bytes
  change (c.connection.rdmaReadFromServer (c.env .read t) offset).2 = some bytes ↔ _
  rw [Connection.rdmaReadFromServer_eq_some_iff]
  unfold Connection.Returns Connection.bufferAfter Connection.takesEffect Connection.own
    TransferEnv.completes env posted connection Transfer.completion
  cases c.completions with
  | nil => simp [ok.post, ok.wait, ok.completionGet, ok.opStatus, frontOf, Front.shows]
  | cons x rest =>
      by_cases isRead : x.op = .read
      · have front : frontOf (x :: rest) = .read (x.opStatus = ibvWcSuccess) := if_pos isRead
        rw [front]
        unfold Front.shows
        by_cases success : x.opStatus = ibvWcSuccess
        · cases t.landed <;> simp [ok.post, ok.wait, ok.completionGet, isRead, success, buffer]
        · cases t.landed <;> cases t.nextEvent with
          | none => simp [ok.post, ok.wait, ok.completionGet, isRead, success, goesOn]
          | some event =>
              cases event <;>
                simp [ok.post, ok.wait, ok.completionGet, isRead, success, goesOn, buffer]
      · simp [ok.post, ok.wait, ok.completionGet, frontOf, Front.shows, isRead]

/-! ## What a put leaves -/

/-- The call fetches a completion that says that a write succeeded. -/
def reports (c : Channel) (t : Transfer) : Bool :=
  t.post && t.wait && t.completionGet &&
    (c.posted .write t).head? = some ⟨.write, ibvWcSuccess⟩

/-- A write takes effect exactly if it reaches the store, whichever completion is fetched. -/
theorem takesEffect_write (c : Channel) (t : Transfer) :
    c.connection.takesEffect (c.env .write t) .write = t.reaches := by
  unfold Connection.takesEffect Connection.own TransferEnv.completes env posted connection
    Transfer.reaches Transfer.completion
  cases c.completions with
  | nil => cases t.post <;> cases t.landed <;> cases t.wait <;> cases t.completionGet <;> simp
  | cons x rest => simp

/-- A write succeeds exactly when one is reported, be it another one. -/
theorem rdmaWriteToServer_eq (t : Transfer) (offset : UInt64) :
    c.rdmaWriteToServer t offset =
      (⟨if t.reaches then
          { c.endpoint with store := write c.endpoint.store offset.toNat c.buffer }
        else c.endpoint, c.leftByWrite t⟩,
        if c.reports t then 0 else -1) := by
  have returns : (c.connection.rdmaWriteToServer (c.env .write t) offset).2 =
      if c.reports t then 0 else -1 := by
    unfold Connection.rdmaWriteToServer reports env
    cases t.post <;> cases t.wait <;> cases t.completionGet <;>
      cases c.posted .write t with
      | nil => simp
      | cons x rest =>
          rcases x with ⟨op, status⟩
          by_cases isWrite : op = .write <;> by_cases success : status = ibvWcSuccess <;>
            simp [isWrite, success]
  have stays : (c.connection.rdmaWriteToServer (c.env .write t) offset).1.endpoint =
      if t.reaches then
        { c.endpoint with store := write c.endpoint.store offset.toNat c.buffer }
      else c.endpoint := by
    unfold Connection.rdmaWriteToServer
    rw [takesEffect_write]
    dsimp only
    repeat' split
    all_goals rfl
  unfold rdmaWriteToServer
  dsimp only
  rw [returns, stays]

/-- The channel with what `rdma_put` encrypts in its buffer. -/
def encrypted (c : Channel) (out : EncryptOut) : Channel :=
  { c with endpoint := { c.endpoint with localBuf := write c.endpoint.localBuf 0 out.written } }

/-- `rdma_put` stops when the encryption fails, and the store, the completions and the caller's
`info` are as before. -/
theorem rdmaPut_of_failed (t : Transfer)
    (failed : (encryptKeyValueData gcm c.endpoint.ep e info.next newValue).ret < 0) :
    c.rdmaPut gcm t e info newValue =
      (c.encrypted (encryptKeyValueData gcm c.endpoint.ep e info.next newValue), info, -1) := by
  have back : info.sequenceNumber + 1 - 1 = info.sequenceNumber := UInt64.add_sub_cancel ..
  unfold LocalKeyInfo.next at failed ⊢
  unfold rdmaPut onesidedPut
  dsimp only
  rw [back, if_pos failed, if_pos (by simp)]
  rfl

/-- After an encryption `rdma_put` writes, and takes the sequence number back unless a write is
reported as successful. -/
theorem rdmaPut_of_encrypted (t : Transfer)
    (done : ¬ (encryptKeyValueData gcm c.endpoint.ep e info.next newValue).ret < 0) :
    c.rdmaPut gcm t e info newValue =
      (((c.encrypted (encryptKeyValueData gcm c.endpoint.ep e info.next newValue)).rdmaWriteToServer
          t info.valueOffset).1,
        if c.reports t then (info.next, 0) else (info, -1)) := by
  have back : info.sequenceNumber + 1 - 1 = info.sequenceNumber := UInt64.add_sub_cancel ..
  have same : (c.encrypted (encryptKeyValueData gcm c.endpoint.ep e info.next newValue)).reports t =
      c.reports t := rfl
  unfold LocalKeyInfo.next at done same ⊢
  unfold encrypted at same ⊢
  unfold rdmaPut onesidedPut
  dsimp only
  rw [back, if_neg done, rdmaWriteToServer_eq, same]
  by_cases reported : c.reports t = true
  · rw [if_pos reported, if_pos reported, if_neg (by simp)]
  · rw [if_neg reported, if_neg reported, if_pos (by simp)]

end Channel

end NetworkStack.OneSided
