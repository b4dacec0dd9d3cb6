import NetworkStack.Completion

/-!
# Responses and slots

`decrypt_cont_func` gets the tag of its own request, but completes the slot that
the received header names, also when the response did not decrypt and the header
is not authentic; and it drops a response that decrypts and does not answer the
request. So a response is not always `Isolated` to its own slot, and a run may
leave a slot occupied by a request whose continuation has run, so that the client
is not `Live`; the module says exactly when.
-/

namespace NetworkStack

open Machine

namespace Client

/-- A header word that answers a request names its slot. -/
theorem Answers.namedSlot_eq {w : UInt64} {tag : SentMessageTag} (answers : Answers w tag) :
    namedSlot w = acceptedIndex tag.header.seqOp := by
  have lt := seqOf_lt tag.header.seqOp
  apply acceptedIndex_congr
  rw [seqOf_prevSeq, answers.1]
  unfold seqModulus at *
  omega

/-- A request of call `n` waits in slot `k`, and its continuation is still to run. -/
structure Waiting (c : Client) (n : Nat) (k : Slot) : Prop where
  pending : (n, k) ∈ c.pending
  valid : (c.queue.queue k).valid = true
  call : (c.queue.queue k).call = n

section Runs

variable {id : UInt8} {s₀ : Nat} {c : Client} {n : Nat} {k : Slot}

/-- The word that a waiting request accepts names its own slot. -/
theorem Inv.namedSlot_eq (inv : c.Inv id s₀) (waiting : c.Waiting n k) {w : UInt64}
    (answers : Answers w (c.queue.queue k)) : namedSlot w = k :=
  answers.namedSlot_eq.trans (inv.outstanding.slot (n, k) waiting.pending)

/-! ## Isolation -/

/-- The continuation of call `n`, waiting in slot `k`, changes the valid flag of no other
slot and invokes no other callback. -/
def Isolated (gcm : AesGcm) (c : Client) (n : Nat) (k : Slot) (d : Delivery) : Prop :=
  (∀ j, j ≠ k → ((c.decryptContFunc gcm k d).queue.queue j).valid = (c.queue.queue j).valid) ∧
    ∃ invoked, (c.decryptContFunc gcm k d).completions = c.completions ++ invoked ∧
      ∀ x ∈ invoked, x.call = n

theorem isolated_of_same {gcm : AesGcm} {d : Delivery} {mem : Mem}
    (same : c.decryptContFunc gcm k d = { c with mem := mem }) : c.Isolated gcm n k d := by
  rw [Isolated, same]
  exact ⟨fun _ _ => rfl, [], (List.append_nil _).symm, by simp⟩

theorem isolated_of_own {gcm : AesGcm} {d : Delivery} {mem : Mem} {ret : RetVal}
    (own : (c.queue.queue k).call = n)
    (done : c.decryptContFunc gcm k d = ({ c with mem := mem } : Client).completeSlot k ret) :
    c.Isolated gcm n k d := by
  rw [Isolated, done]
  refine ⟨?_, ((c.queue.queue k).invalidate ret).2.toList, rfl, ?_⟩
  · intro j ne
    rw [completeSlot_queue_of_ne _ ret ne]
  · intro x member
    unfold SentMessageTag.invalidate at member
    cases callback : (c.queue.queue k).callback with
    | none => simp [callback] at member
    | some cb =>
        simp only [callback, Option.map_some, Option.toList_some, List.mem_singleton] at member
        rw [member]
        exact own

/-- A response is isolated exactly when it decrypts, or the header it leaves names its own
slot or a free one. -/
theorem isolated_iff (inv : c.Inv id s₀) (waiting : c.Waiting n k) (gcm : AesGcm)
    (d : Delivery) :
    c.Isolated gcm n k d ↔
      d.Decrypts gcm c.encKey (c.queue.queue k).value c.mem ∨
        namedSlot (d.word gcm c.encKey) = k ∨
        (c.queue.queue (namedSlot (d.word gcm c.encKey))).valid = false := by
  obtain ⟨mem, ran, -⟩ := decryptContFunc_eq gcm c k d
  unfold verdict at ran
  dsimp only at ran
  by_cases decrypts : d.Decrypts gcm c.encKey (c.queue.queue k).value c.mem
  · refine ⟨fun _ => Or.inl decrypts, fun _ => ?_⟩
    rw [if_pos decrypts] at ran
    split at ran
    · rename_i answers
      have named := inv.namedSlot_eq waiting answers
      dsimp only [settle] at ran
      rw [named, waiting.valid, if_pos rfl] at ran
      exact isolated_of_own waiting.call ran
    · exact isolated_of_same ran
  · rw [if_neg decrypts] at ran
    dsimp only [settle] at ran
    cases occupied : (c.queue.queue (namedSlot (d.word gcm c.encKey))).valid with
    | false =>
        rw [occupied, if_neg Bool.false_ne_true] at ran
        exact ⟨fun _ => Or.inr (Or.inr rfl), fun _ => isolated_of_same ran⟩
    | true =>
        rw [occupied, if_pos rfl] at ran
        by_cases own : namedSlot (d.word gcm c.encKey) = k
        · rw [own] at ran
          exact ⟨fun _ => Or.inr (Or.inl own), fun _ => isolated_of_own waiting.call ran⟩
        · constructor
          · intro isolated
            have flag := isolated.1 _ own
            rw [ran, completeSlot_queue_self, occupied] at flag
            cases flag
          · intro harmless
            rcases harmless with yes | yes | no
            · exact (decrypts yes).elim
            · exact (own yes).elim
            · cases no

/-! ## Dead slots -/

/-- Every occupied slot belongs to a request whose continuation is still to run; so does the
slot the next request waits for, when the queue is full. -/
structure Live (c : Client) : Prop where
  slots : ∀ k, (c.queue.queue k).valid = true → ((c.queue.queue k).call, k) ∈ c.pending
  full : c.queueFull = true → ((c.queue.queue c.nextSlot).call, c.nextSlot) ∈ c.pending

theorem Live.of_slots
    (slots : ∀ k, (c.queue.queue k).valid = true → ((c.queue.queue k).call, k) ∈ c.pending) :
    c.Live :=
  ⟨slots, slots c.nextSlot⟩

/-- The response to a request that waits in its slot answers it, or does not decrypt and
leaves a header that names the slot. -/
def FreesItsSlot (gcm : AesGcm) (c : Client) : Action → Prop
  | .poll d => ∀ n k, c.pending.find? (·.1 == d.call) = some (n, k) → c.Waiting n k →
      if d.Decrypts gcm c.encKey (c.queue.queue k).value c.mem then
        Answers (d.word gcm c.encKey) (c.queue.queue k)
      else namedSlot (d.word gcm c.encKey) = k
  | _ => True

theorem Live.giveBack (live : c.Live) (s : Submission) : (c.giveBack s).Live := by
  refine .of_slots ?_
  intro j valid
  by_cases here : j = c.nextSlot
  · subst here
    change ((c.queue.setTag c.nextSlot _).queue c.nextSlot).valid = true at valid
    rw [PendingRequestQueue.setTag_queue_self] at valid
    cases valid
  · have same : (c.giveBack s).queue.queue j = c.queue.queue j :=
      PendingRequestQueue.setTag_queue_of_ne _ _ here
    rw [same] at valid ⊢
    exact live.slots j valid

theorem Live.enqueue (live : c.Live) (s : Submission) (ciphertext : Bytes) :
    (c.enqueue s ciphertext).Live := by
  refine .of_slots ?_
  intro j valid
  rw [enqueue_queue] at valid ⊢
  by_cases here : j = c.nextSlot
  · rw [here, PendingRequestQueue.setTag_queue_self]
    exact List.mem_append_right _ (List.mem_singleton_self _)
  · rw [PendingRequestQueue.setTag_queue_of_ne _ _ here] at valid ⊢
    exact List.mem_append_left _ (live.slots j valid)

theorem settle_pending (c : Client) (v : Option (RetVal × UInt64)) :
    (c.settle v).pending = c.pending := by
  rcases c.settle_cases v with same | ⟨ret, w, -, -, done⟩
  · rw [same]
  · rw [done]
    rfl

/-- A slot that a verdict leaves occupied was occupied by the same request, and is not the
one the verdict names. -/
theorem settle_valid {v : Option (RetVal × UInt64)} {j : Slot}
    (valid : ((c.settle v).queue.queue j).valid = true) :
    (c.settle v).queue.queue j = c.queue.queue j ∧
      ∀ ret w, v = some (ret, w) → namedSlot w ≠ j := by
  rcases v with _ | ⟨ret, w⟩
  · exact ⟨rfl, fun _ _ h => by cases h⟩
  · dsimp only [settle] at valid ⊢
    split at valid
    · rename_i occupied
      have ne : j ≠ namedSlot w := by
        rintro rfl
        rw [completeSlot_queue_self] at valid
        cases valid
      rw [if_pos occupied, completeSlot_queue_of_ne c ret ne]
      refine ⟨rfl, ?_⟩
      rintro ret' w' ⟨⟩
      exact ne.symm
    · rename_i free
      rw [if_neg free]
      refine ⟨rfl, ?_⟩
      rintro ret' w' ⟨⟩ rfl
      exact free valid

theorem settle_queue_of_named_ne {v : Option (RetVal × UInt64)} {j : Slot}
    (other : ∀ ret w, v = some (ret, w) → namedSlot w ≠ j) :
    (c.settle v).queue.queue j = c.queue.queue j := by
  rcases c.settle_cases v with same | ⟨ret, w, eq, -, done⟩
  · rw [same]
  · rw [done, completeSlot_queue_of_ne c ret (other ret w eq).symm]

/-- The verdict on a waiting request names its slot exactly when the response answers it or
does not decrypt and names the slot. -/
theorem Inv.verdict_named_iff (inv : c.Inv id s₀) (waiting : c.Waiting n k) (gcm : AesGcm)
    (d : Delivery) :
    (∃ ret w, verdict gcm c.encKey (c.queue.queue k) c.mem d = some (ret, w) ∧
        namedSlot w = k) ↔
      if d.Decrypts gcm c.encKey (c.queue.queue k).value c.mem then
        Answers (d.word gcm c.encKey) (c.queue.queue k)
      else namedSlot (d.word gcm c.encKey) = k := by
  unfold verdict
  dsimp only
  split
  · split
    · rename_i answers
      exact ⟨fun _ => answers, fun _ => ⟨_, _, rfl, inv.namedSlot_eq waiting answers⟩⟩
    · rename_i other
      exact ⟨by rintro ⟨ret, w, ⟨⟩, -⟩, fun answers => (other answers).elim⟩
  · exact ⟨by rintro ⟨ret, w, ⟨⟩, named⟩; exact named, fun named => ⟨_, _, rfl, named⟩⟩

/-- One continuation keeps the client live exactly when it frees the slot of its request. -/
theorem live_deliver_iff (inv : c.Inv id s₀) (live : c.Live) (gcm : AesGcm) (d : Delivery) :
    (c.deliver gcm d).Live ↔ FreesItsSlot gcm c (.poll d) := by
  rcases c.deliver_cases gcm d with ⟨none_, same⟩ | ⟨⟨n, k⟩, mem, found, ran⟩
  · rw [same]
    refine ⟨fun _ n k found => ?_, fun _ => live⟩
    rw [none_] at found
    cases found
  · have member := List.mem_of_find?_eq_some found
    have once : (n, k) ∉ c.pending.erase (n, k) := by
      have nodup : c.pending.Nodup := inv.outstanding.nodup.of_map
      exact fun h => (nodup.mem_erase_iff.mp h).1 rfl
    constructor
    · intro after n' k' found' waiting
      cases found.symm.trans found'
      rw [← inv.verdict_named_iff waiting gcm d]
      by_contra elsewhere
      have stays := settle_queue_of_named_ne
        (c := { c with pending := c.pending.erase (n, k), mem := mem })
        (v := verdict gcm c.encKey (c.queue.queue k) c.mem d) (j := k)
        fun ret w eq named => elsewhere ⟨ret, w, eq, named⟩
      have dead := after.slots k (by rw [ran, stays]; exact waiting.valid)
      rw [ran, stays, settle_pending] at dead
      exact once (waiting.call ▸ dead)
    · intro frees
      refine .of_slots ?_
      intro j valid
      rw [ran] at valid ⊢
      obtain ⟨tag, notNamed⟩ := settle_valid valid
      rw [tag] at valid ⊢
      rw [settle_pending]
      have was := live.slots j valid
      refine (List.mem_erase_of_ne ?_).mpr was
      intro isOwn
      obtain ⟨call, slot⟩ := Prod.mk.inj isOwn
      subst slot
      have waiting : c.Waiting n j := ⟨member, valid, call⟩
      obtain ⟨ret, w, eq, named⟩ := (inv.verdict_named_iff waiting gcm d).mpr
        (frees n j found waiting)
      exact notNamed ret w eq named

/-- One action keeps the client live exactly when it frees the slot of its request. -/
theorem live_step_iff (inv : c.Inv id s₀) (live : c.Live) (gcm : AesGcm) (a : Action) :
    (c.step gcm a).Live ↔ FreesItsSlot gcm c a := by
  rcases c.step_cases gcm a with ⟨d, rfl⟩ | ⟨notPoll, c', calls, returned, eq, -, left⟩
  · exact live_deliver_iff inv live gcm d
  have kept : c'.Live := by
    rcases left with rfl | ⟨s, -, -, -, rfl | ⟨enc, iv, text, -, rfl⟩⟩
    · exact live
    · exact live.giveBack s
    · exact live.enqueue s text
  refine iff_of_true ?_ ?_
  · rw [eq]
    exact ⟨kept.slots, kept.full⟩
  · cases a with
    | call k iv enc => trivial
    | poll d => exact (notPoll d rfl).elim
    | sendDisconnect iv enc => trivial

end Runs

/-- In every reachable state and for every request that waits in its slot, any bytes
delivered as its response are isolated exactly when they decrypt, or the header they leave
names the request's own slot or a free one. -/
theorem response_isolated_iff (gcm : AesGcm) (setup : Setup) (acts : List Action) {n : Nat}
    {k : Slot} (waiting : (run (step gcm) setup.client acts).Waiting n k) (d : Delivery) :
    (run (step gcm) setup.client acts).Isolated gcm n k d ↔
      d.Decrypts gcm (run (step gcm) setup.client acts).encKey
          ((run (step gcm) setup.client acts).queue.queue k).value
          (run (step gcm) setup.client acts).mem ∨
        namedSlot (d.word gcm (run (step gcm) setup.client acts).encKey) = k ∨
        ((run (step gcm) setup.client acts).queue.queue
          (namedSlot (d.word gcm (run (step gcm) setup.client acts).encKey))).valid = false :=
  isolated_iff (inv_run (inv_client setup) gcm acts) waiting gcm d

/-- No state of a run has a dead slot exactly when every response frees the slot its request
waits in. -/
theorem live_iff (gcm : AesGcm) (setup : Setup) (acts : List Action) :
    (∀ before, before <+: acts → (run (step gcm) setup.client before).Live) ↔
      Along (step gcm) (FreesItsSlot gcm) setup.client acts := by
  have fresh : setup.client.Live := by
    refine .of_slots ?_
    intro k valid
    cases valid
  exact forall_prefix_iff_along (I := fun c : Client => c.Inv setup.id (seqOf setup.random))
    (fun c a inv => inv_step inv gcm a) (fun c a inv live => live_step_iff inv live gcm a)
    (inv_client setup) fresh acts

end Client

/-! ## Concrete deliveries -/

namespace Sample

/-- The slot of sequence number `n`. -/
def slot (n : Nat) : Slot := acceptedIndex (UInt64.ofNat (n * 1024))

/-- A client that sent two puts, with sequence numbers 10 and 12. -/
def twoPuts : List Client.Action :=
  [.call (putCall 42) (.ofNat 1) enc, .call (putCall 43) (.ofNat 2) enc]

/-- The response to the put with sequence number `n`, sealed by the server. -/
def putResponse (n : Nat) : Bytes :=
  sealMessage .checksum (List.replicate 16 5) (Iv.ofNat 9).bytes
    ⟨UInt64.ofNat ((n + 1) * 1024 + 7 * 4 + 1), [], []⟩

/-- The same with the tag cut off and replaced. -/
def forgedResponse (n : Nat) : Bytes :=
  (putResponse n).take (ivLen + headerLen) ++ List.replicate 16 0

/-- The bytes arrive as the response to the request of `call`. -/
def arrives (call : Nat) (response : Bytes) : Delivery := ⟨call, response, ⟨0, 0⟩, .ok⟩

end Sample

/-- A response to the first put that does not decrypt, with a header that names the slot of
the second, completes the second. -/
theorem forged_response_completes_other :
    (run (Client.step .checksum) (Sample.setup 10).client Sample.twoPuts).Waiting 0
        (Sample.slot 10) ∧
      ¬ (run (Client.step .checksum) (Sample.setup 10).client Sample.twoPuts).Isolated .checksum 0
        (Sample.slot 10)
        (Sample.arrives 0 (Sample.forgedResponse 12)) := by
  refine ⟨⟨by decide +kernel, by decide +kernel, by decide +kernel⟩, ?_⟩
  intro isolated
  have flag := isolated.1 (Sample.slot 12) (by decide)
  have before : ((run (Client.step .checksum) (Sample.setup 10).client
      Sample.twoPuts).queue.queue (Sample.slot 12)).valid = true := by decide +kernel
  have after : (((run (Client.step .checksum) (Sample.setup 10).client
      Sample.twoPuts).decryptContFunc .checksum (Sample.slot 10)
        (Sample.arrives 0 (Sample.forgedResponse 12))).queue.queue
          (Sample.slot 12)).valid = false := by
    decide +kernel
  rw [before, after] at flag
  cases flag

/-- The authentic response to the first put is isolated. -/
theorem authentic_response_isolated :
    (run (Client.step .checksum) (Sample.setup 10).client Sample.twoPuts).Isolated .checksum 0
        (Sample.slot 10)
      (Sample.arrives 0 (Sample.putResponse 10)) :=
  (Client.response_isolated_iff .checksum (Sample.setup 10) Sample.twoPuts (n := 0)
    (k := Sample.slot 10)
    ⟨by decide +kernel, by decide +kernel, by decide +kernel⟩
    (Sample.arrives 0 (Sample.putResponse 10))).mpr (Or.inl (by decide +kernel))

/-- The response to the first put, delivered for both, leaves the slot of the second
occupied with no continuation to come. -/
theorem replayed_response_leaves_dead_slot :
    ¬ ∀ before, before <+: Sample.twoPuts ++
        [.poll (Sample.arrives 0 (Sample.putResponse 10)),
          .poll (Sample.arrives 1 (Sample.putResponse 10))] →
      (run (Client.step .checksum) (Sample.setup 10).client before).Live := by
  intro all
  have live := all _ List.prefix_rfl
  have occupied : ((run (Client.step .checksum) (Sample.setup 10).client (Sample.twoPuts ++
      [.poll (Sample.arrives 0 (Sample.putResponse 10)),
        .poll (Sample.arrives 1 (Sample.putResponse 10))])).queue.queue
          (Sample.slot 12)).valid = true := by
    decide +kernel
  have none_ : (run (Client.step .checksum) (Sample.setup 10).client (Sample.twoPuts ++
      [.poll (Sample.arrives 0 (Sample.putResponse 10)),
        .poll (Sample.arrives 1 (Sample.putResponse 10))])).pending = [] := by
    decide +kernel
  have pending := live.slots (Sample.slot 12) occupied
  rw [none_] at pending
  cases pending

end NetworkStack
