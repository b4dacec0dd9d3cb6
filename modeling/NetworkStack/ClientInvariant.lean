import Mathlib.Data.List.Nodup
import NetworkStack.ClientRun

/-!
# The invariant of every client run

`Client.Inv` holds in every state of every run (`inv_run`), whatever bytes the
network delivers: requests are numbered consecutively in steps of two, an
occupied slot holds the tag of a request that was sent and not completed, a
request that was sent has had its callback invoked once exactly when its tag is
gone from its slot, and every continuation still to run belongs to a request
that was sent.
-/

namespace NetworkStack

open Machine

namespace Client

/-- The callback invocations of one call. -/
def completionsOf (c : Client) (n : Nat) : List Completion :=
  c.completions.filter (·.call = n)

/-- A sent request is in its slot and not completed, or gone from it and completed once. -/
def Accounted (c : Client) (s : Sent) : Prop :=
  (c.queue.queue s.slot = s.tag ∧ c.completionsOf s.tag.call = []) ∨
    (c.queue.queue s.slot ≠ s.tag ∧
      ∃ ret, c.completionsOf s.tag.call = (s.tag.invalidate ret).2.toList)

/-- The requests sent are numbered in steps of two from `s₀`. -/
structure Numbered (id : UInt8) (s₀ : Nat) (c : Client) : Prop where
  current : seqOf c.queue.currentSeqOp = (s₀ + 2 * c.sent.length) % seqModulus
  currentId : idOf c.queue.currentSeqOp = id.toNat
  seq : ∀ i s, c.sent[i]? = some s → seqOf s.tag.header.seqOp = (s₀ + 2 * i) % seqModulus
  sentId : ∀ s ∈ c.sent, idOf s.tag.header.seqOp = id.toNat
  slot : ∀ s ∈ c.sent, s.slot = acceptedIndex s.tag.header.seqOp
  valid : ∀ s ∈ c.sent, s.tag.valid = true
  call : ∀ s ∈ c.sent, s.tag.call < c.calls
  nodup : (c.sent.map (·.tag.call)).Nodup

/-- What the slots hold and which callbacks were invoked. -/
structure Occupied (c : Client) : Prop where
  slots : ∀ k, (c.queue.queue k).valid = true →
    ∃ s ∈ c.sent, s.slot = k ∧ s.tag = c.queue.queue k
  accounted : ∀ s ∈ c.sent, c.Accounted s
  others : ∀ n, (∀ s ∈ c.sent, s.tag.call ≠ n) → c.completionsOf n = []

/-- The continuations still to run. -/
structure Outstanding (c : Client) : Prop where
  sent : ∀ p ∈ c.pending, ∃ s ∈ c.sent, s.tag.call = p.1 ∧ s.slot = p.2
  nodup : (c.pending.map Prod.fst).Nodup
  slot : ∀ p ∈ c.pending, acceptedIndex (c.queue.queue p.2).header.seqOp = p.2

structure Inv (id : UInt8) (s₀ : Nat) (c : Client) : Prop where
  numbered : c.Numbered id s₀
  occupied : c.Occupied
  outstanding : c.Outstanding

section Preserved

variable {id : UInt8} {s₀ : Nat} {c : Client}

/-- A sent request is determined by its call. -/
theorem Numbered.sent_eq (numbered : c.Numbered id s₀) {s t : Sent} (hs : s ∈ c.sent)
    (ht : t ∈ c.sent) (same : s.tag.call = t.tag.call) : s = t :=
  List.inj_on_of_nodup_map numbered.nodup hs ht same

/-- So is its position. -/
theorem Numbered.index_eq (numbered : c.Numbered id s₀) {i j : Nat} {s t : Sent}
    (hs : c.sent[i]? = some s) (ht : c.sent[j]? = some t) (same : s.tag.call = t.tag.call) :
    i = j := by
  refine (List.getElem?_inj ?_ numbered.nodup).mp ?_
  · rw [List.length_map]
    exact (List.getElem?_eq_some_iff.mp hs).1
  · rw [List.getElem?_map, List.getElem?_map, hs, ht]
    exact congrArg some same

/-- The continuation of a call is determined by the call. -/
theorem Outstanding.find_eq (outstanding : c.Outstanding) {p : Nat × Slot}
    (member : p ∈ c.pending) : c.pending.find? (·.1 == p.1) = some p := by
  cases found : c.pending.find? (·.1 == p.1) with
  | none => simpa using List.find?_eq_none.mp found p member
  | some q =>
      have own : q.1 = p.1 := by simpa using List.find?_some found
      rw [List.inj_on_of_nodup_map outstanding.nodup (List.mem_of_find?_eq_some found) member own]

theorem inv_client (setup : Setup) : setup.client.Inv setup.id (seqOf setup.random) := by
  obtain ⟨seq, idEq, -⟩ := setId_fields setup.random setup.id
  constructor
  · constructor
    · exact seq.trans (Nat.mod_eq_of_lt (seqOf_lt setup.random)).symm
    · exact idEq
    all_goals simp [Setup.client, connect, init]
  · constructor
    · intro k valid
      cases valid
    · simp [Setup.client, connect, init]
    · intro n _
      rfl
  · constructor <;> simp [Setup.client, connect, init]

/-- The invariant is about the ring, the continuations and the history of requests and
callbacks. -/
theorem Inv.of_eq (inv : c.Inv id s₀) {c' : Client} (queue : c'.queue = c.queue)
    (pending : c'.pending = c.pending) (sent : c'.sent = c.sent)
    (completions : c'.completions = c.completions) (calls : c.calls ≤ c'.calls) :
    c'.Inv id s₀ := by
  rcases c' with ⟨_, _, _, _, _, _, _, _, _, _, _, _⟩
  cases queue
  cases pending
  cases sent
  cases completions
  obtain ⟨numbered, occupied, outstanding⟩ := inv
  refine ⟨⟨numbered.current, numbered.currentId, numbered.seq, numbered.sentId, numbered.slot,
    numbered.valid, ?_, numbered.nodup⟩, ⟨occupied.slots, occupied.accounted, occupied.others⟩,
    ⟨outstanding.sent, outstanding.nodup, outstanding.slot⟩⟩
  intro s member
  exact (numbered.call s member).trans_le calls

theorem Inv.nextCall (inv : c.Inv id s₀) : c.nextCall.Inv id s₀ :=
  inv.of_eq rfl rfl rfl rfl (Nat.le_succ c.calls)

theorem Inv.returns (inv : c.Inv id s₀) (ret : Int) : (c.returns ret).1.Inv id s₀ :=
  inv.of_eq rfl rfl rfl rfl (Nat.le_succ c.calls)

/-- The next slot is the one of the current sequence number, whatever the operation. -/
theorem acceptedIndex_newTag (c : Client) {s : Submission} (op : s.op.toNat < 4) :
    acceptedIndex (c.newTag s).header.seqOp = c.nextSlot :=
  acceptedIndex_congr (setOp_fields c.queue.currentSeqOp op).1

/-- Filling a free slot with a tag of the next request keeps what is accounted for. -/
theorem Accounted.fill {s : Sent} (accounted : c.Accounted s) (valid : s.tag.valid = true)
    (free : (c.queue.queue c.nextSlot).valid = false) {t : SentMessageTag} (other : t ≠ s.tag)
    {c' : Client} (slots : ∀ k, c'.queue.queue k = (c.queue.setTag c.nextSlot t).queue k)
    (done : c'.completions = c.completions) : c'.Accounted s := by
  unfold Accounted completionsOf at accounted ⊢
  rw [slots, done]
  by_cases here : s.slot = c.nextSlot
  · rw [here, PendingRequestQueue.setTag_queue_self]
    rcases accounted with ⟨inSlot, -⟩ | ⟨-, completed⟩
    · rw [here] at inSlot
      rw [inSlot, valid] at free
      cases free
    · exact Or.inr ⟨other, completed⟩
  · rw [PendingRequestQueue.setTag_queue_of_ne _ _ here]
    exact accounted

theorem Inv.giveBack (inv : c.Inv id s₀) {s : Submission} (op : s.op.toNat < 4)
    (free : (c.queue.queue c.nextSlot).valid = false) : (c.giveBack s).Inv id s₀ := by
  obtain ⟨numbered, occupied, outstanding⟩ := inv
  refine ⟨⟨numbered.current, numbered.currentId, numbered.seq, numbered.sentId, numbered.slot,
    numbered.valid, numbered.call, numbered.nodup⟩, ⟨?_, ?_, occupied.others⟩,
    ⟨outstanding.sent, outstanding.nodup, ?_⟩⟩
  · intro k valid
    by_cases here : k = c.nextSlot
    · subst here
      change ((c.queue.setTag c.nextSlot _).queue c.nextSlot).valid = true at valid
      rw [PendingRequestQueue.setTag_queue_self] at valid
      cases valid
    · have same : (c.giveBack s).queue.queue k = c.queue.queue k :=
        PendingRequestQueue.setTag_queue_of_ne _ _ here
      rw [same] at valid ⊢
      exact occupied.slots k valid
  · intro t member
    have validTag := numbered.valid t member
    refine (occupied.accounted t member).fill validTag free ?_ (fun _ => rfl) rfl
    intro same
    rw [← same] at validTag
    cases validTag
  · intro p member
    by_cases here : p.2 = c.nextSlot
    · have filled : (c.giveBack s).queue.queue p.2 = { c.newTag s with valid := false } := by
        rw [here]
        exact PendingRequestQueue.setTag_queue_self ..
      rw [filled, here]
      exact c.acceptedIndex_newTag op
    · have same : (c.giveBack s).queue.queue p.2 = c.queue.queue p.2 :=
        PendingRequestQueue.setTag_queue_of_ne _ _ here
      rw [same]
      exact outstanding.slot p member

@[simp] theorem enqueue_queue (c : Client) (s : Submission) (ciphertext : Bytes) (k : Slot) :
    (c.enqueue s ciphertext).queue.queue k =
      (c.queue.setTag c.nextSlot (c.newTag s)).queue k :=
  PendingRequestQueue.incSeq_queue _ k

/-- No request sent so far belongs to the call that is going on. -/
theorem Numbered.call_ne (numbered : c.Numbered id s₀) {t : Sent} (member : t ∈ c.sent) :
    t.tag.call ≠ c.calls :=
  (numbered.call t member).ne

section Enqueue

variable {s : Submission} {ciphertext : Bytes}

theorem enqueue_queue_self (c : Client) (s : Submission) (ciphertext : Bytes) :
    (c.enqueue s ciphertext).queue.queue c.nextSlot = c.newTag s := by
  rw [enqueue_queue, PendingRequestQueue.setTag_queue_self]

theorem enqueue_queue_of_ne (c : Client) (s : Submission) (ciphertext : Bytes) {k : Slot}
    (ne : k ≠ c.nextSlot) :
    (c.enqueue s ciphertext).queue.queue k = c.queue.queue k := by
  rw [enqueue_queue, PendingRequestQueue.setTag_queue_of_ne _ _ ne]

/-- The next request continues the numbering. -/
theorem Numbered.enqueue (numbered : c.Numbered id s₀) (op : s.op.toNat < 4) :
    (c.enqueue s ciphertext).nextCall.Numbered id s₀ := by
  obtain ⟨newSeq, newId, -⟩ := setOp_fields c.queue.currentSeqOp op
  refine ⟨?_, ?_, ?_, ?_, ?_, ?_, ?_, ?_⟩
  · change seqOf (PendingRequestQueue.incSeq _).currentSeqOp =
      (s₀ + 2 * (c.sent ++ [_]).length) % seqModulus
    rw [PendingRequestQueue.incSeq_currentSeqOp, PendingRequestQueue.setTag_currentSeqOp,
      seqOf_nextSeq, seqOf_nextSeq, numbered.current, List.length_append, List.length_singleton]
    unfold seqModulus
    omega
  · change idOf (PendingRequestQueue.incSeq _).currentSeqOp = id.toNat
    rw [PendingRequestQueue.incSeq_currentSeqOp, PendingRequestQueue.setTag_currentSeqOp,
      idOf_nextSeq, idOf_nextSeq, numbered.currentId]
  · intro i t get
    change (c.sent ++ [_])[i]? = some t at get
    rcases getElem?_snoc get with old | ⟨rfl, rfl⟩
    · exact numbered.seq i t old
    · exact newSeq.trans numbered.current
  · intro t member
    rcases List.mem_append.mp member with old | new
    · exact numbered.sentId t old
    · rw [List.mem_singleton.mp new]
      exact newId.trans numbered.currentId
  · intro t member
    rcases List.mem_append.mp member with old | new
    · exact numbered.slot t old
    · rw [List.mem_singleton.mp new]
      exact (c.acceptedIndex_newTag op).symm
  · intro t member
    rcases List.mem_append.mp member with old | new
    · exact numbered.valid t old
    · rw [List.mem_singleton.mp new]
      rfl
  · intro t member
    rcases List.mem_append.mp member with old | new
    · exact Nat.lt_succ_of_lt (numbered.call t old)
    · rw [List.mem_singleton.mp new]
      exact Nat.lt_succ_self c.calls
  · change ((c.sent ++ [_]).map _).Nodup
    rw [List.map_append, List.nodup_append]
    refine ⟨numbered.nodup, List.nodup_singleton _, ?_⟩
    intro n inSent m inNew
    obtain ⟨t, member, rfl⟩ := List.mem_map.mp inSent
    rw [List.mem_singleton.mp inNew]
    exact numbered.call_ne member

/-- The next request fills a free slot. -/
theorem Occupied.enqueue (occupied : c.Occupied) (numbered : c.Numbered id s₀)
    (free : (c.queue.queue c.nextSlot).valid = false) :
    (c.enqueue s ciphertext).nextCall.Occupied := by
  refine ⟨?_, ?_, ?_⟩
  · intro k valid
    change ((c.enqueue s ciphertext).queue.queue k).valid = true at valid
    by_cases here : k = c.nextSlot
    · subst here
      exact ⟨_, List.mem_append_right _ (List.mem_singleton_self _), rfl,
        (c.enqueue_queue_self s ciphertext).symm⟩
    · rw [c.enqueue_queue_of_ne s ciphertext here] at valid
      obtain ⟨t, member, slot, tag⟩ := occupied.slots k valid
      exact ⟨t, List.mem_append_left _ member, slot,
        tag.trans (c.enqueue_queue_of_ne s ciphertext here).symm⟩
  · intro t member
    rcases List.mem_append.mp member with old | new
    · refine (occupied.accounted t old).fill (numbered.valid t old) free ?_
        (c.enqueue_queue s ciphertext) rfl
      intro same
      exact numbered.call_ne old (congrArg SentMessageTag.call same).symm
    · rw [List.mem_singleton.mp new]
      exact Or.inl ⟨c.enqueue_queue_self s ciphertext,
        occupied.others c.calls fun t => numbered.call_ne⟩
  · intro n none_
    exact occupied.others n fun t member => none_ t (List.mem_append_left _ member)

/-- The continuation of the next request is still to run. -/
theorem Outstanding.enqueue (outstanding : c.Outstanding) (numbered : c.Numbered id s₀)
    (op : s.op.toNat < 4) : (c.enqueue s ciphertext).nextCall.Outstanding := by
  refine ⟨?_, ?_, ?_⟩
  · intro p member
    rcases List.mem_append.mp member with old | new
    · obtain ⟨t, sent, both⟩ := outstanding.sent p old
      exact ⟨t, List.mem_append_left _ sent, both⟩
    · rw [List.mem_singleton.mp new]
      exact ⟨_, List.mem_append_right _ (List.mem_singleton_self _), rfl, rfl⟩
  · change ((c.pending ++ [_]).map _).Nodup
    rw [List.map_append, List.nodup_append]
    refine ⟨outstanding.nodup, List.nodup_singleton _, ?_⟩
    intro n inPending m inNew
    obtain ⟨p, member, rfl⟩ := List.mem_map.mp inPending
    obtain ⟨t, sent, call, -⟩ := outstanding.sent p member
    rw [List.mem_singleton.mp inNew, ← call]
    exact numbered.call_ne sent
  · intro p member
    change acceptedIndex ((c.enqueue s ciphertext).queue.queue p.2).header.seqOp = p.2
    by_cases here : p.2 = c.nextSlot
    · rw [here, enqueue_queue_self]
      exact c.acceptedIndex_newTag op
    · rw [c.enqueue_queue_of_ne s ciphertext here]
      rcases List.mem_append.mp member with old | new
      · exact outstanding.slot p old
      · exact (here (congrArg Prod.snd (List.mem_singleton.mp new))).elim

end Enqueue

theorem Inv.enqueue (inv : c.Inv id s₀) {s : Submission} (op : s.op.toNat < 4)
    (free : (c.queue.queue c.nextSlot).valid = false) (ciphertext : Bytes) :
    (c.enqueue s ciphertext).nextCall.Inv id s₀ :=
  ⟨inv.numbered.enqueue op, inv.occupied.enqueue inv.numbered free,
    inv.outstanding.enqueue inv.numbered op⟩

/-- A continuation is no longer to run. -/
theorem Inv.erase (inv : c.Inv id s₀) (p : Nat × Slot) (mem : Mem) :
    ({ c with pending := c.pending.erase p, mem := mem } : Client).Inv id s₀ := by
  obtain ⟨numbered, occupied, outstanding⟩ := inv
  refine ⟨⟨numbered.current, numbered.currentId, numbered.seq, numbered.sentId, numbered.slot,
    numbered.valid, numbered.call, numbered.nodup⟩,
    ⟨occupied.slots, occupied.accounted, occupied.others⟩, ⟨?_, ?_, ?_⟩⟩
  · intro q member
    exact outstanding.sent q (List.mem_of_mem_erase member)
  · exact outstanding.nodup.sublist (List.erase_sublist.map Prod.fst)
  · intro q member
    exact outstanding.slot q (List.mem_of_mem_erase member)

theorem completionsOf_completeSlot_self (c : Client) (k : Slot) (ret : RetVal) :
    (c.completeSlot k ret).completionsOf (c.queue.queue k).call =
      c.completionsOf (c.queue.queue k).call ++ ((c.queue.queue k).invalidate ret).2.toList := by
  change (c.completions ++ ((c.queue.queue k).invalidate ret).2.toList).filter _ = _
  rw [List.filter_append]
  congr 1
  unfold SentMessageTag.invalidate
  cases (c.queue.queue k).callback with
  | none => rfl
  | some cb => simp

theorem completionsOf_completeSlot_of_ne (c : Client) (k : Slot) (ret : RetVal) {n : Nat}
    (ne : n ≠ (c.queue.queue k).call) :
    (c.completeSlot k ret).completionsOf n = c.completionsOf n := by
  change (c.completions ++ ((c.queue.queue k).invalidate ret).2.toList).filter _ = _
  rw [List.filter_append]
  unfold SentMessageTag.invalidate
  cases (c.queue.queue k).callback with
  | none => simp [completionsOf]
  | some cb => simp [completionsOf, ne.symm]

theorem completeSlot_queue_self (c : Client) (k : Slot) (ret : RetVal) :
    (c.completeSlot k ret).queue.queue k = { c.queue.queue k with valid := false } :=
  c.queue.invalidateSlot_queue_self k ret

theorem completeSlot_queue_of_ne (c : Client) {k j : Slot} (ret : RetVal) (ne : j ≠ k) :
    (c.completeSlot k ret).queue.queue j = c.queue.queue j :=
  c.queue.invalidateSlot_queue_of_ne ret ne

section CompleteSlot

variable {k : Slot}

/-- A completed slot holds no request as it was sent: its tag is not valid any more. -/
theorem Numbered.completeSlot_ne (numbered : c.Numbered id s₀) {s : Sent} (member : s ∈ c.sent)
    (k : Slot) (ret : RetVal) : (c.completeSlot k ret).queue.queue k ≠ s.tag := by
  intro same
  have valid := congrArg SentMessageTag.valid same
  rw [completeSlot_queue_self, numbered.valid s member] at valid
  cases valid

/-- The request in the completed slot now has its one completion; any other request of that slot
left it before. -/
theorem Occupied.accounted_completeSlot (occupied : c.Occupied) (numbered : c.Numbered id s₀)
    {s : Sent} (member : s ∈ c.sent) (slot : s.slot = k) (tag : s.tag = c.queue.queue k)
    (ret : RetVal) {t : Sent} (among : t ∈ c.sent) : (c.completeSlot k ret).Accounted t := by
  by_cases same : t = s
  · subst same
    have none_ : c.completionsOf t.tag.call = [] := by
      rcases occupied.accounted t member with ⟨-, none_⟩ | ⟨notThere, -⟩
      · exact none_
      · exact (notThere (by rw [slot, tag])).elim
    refine Or.inr ⟨by rw [slot]; exact numbered.completeSlot_ne member k ret, ret, ?_⟩
    have done := c.completionsOf_completeSlot_self k ret
    rw [← tag, none_] at done
    exact done
  · have call : t.tag.call ≠ (c.queue.queue k).call := by
      rw [← tag]
      exact fun eq => same (numbered.sent_eq among member eq)
    unfold Accounted
    rw [completionsOf_completeSlot_of_ne c k ret call]
    by_cases here : t.slot = k
    · rcases occupied.accounted t among with ⟨there, -⟩ | ⟨-, completed⟩
      · rw [here] at there
        exact (call (congrArg SentMessageTag.call there).symm).elim
      · refine Or.inr ⟨?_, completed⟩
        rw [here]
        exact numbered.completeSlot_ne among k ret
    · rw [completeSlot_queue_of_ne c ret here]
      exact occupied.accounted t among

theorem Occupied.completeSlot (occupied : c.Occupied) (numbered : c.Numbered id s₀)
    (valid : (c.queue.queue k).valid = true) (ret : RetVal) :
    (c.completeSlot k ret).Occupied := by
  obtain ⟨s, member, slot, tag⟩ := occupied.slots k valid
  refine ⟨?_, fun t => occupied.accounted_completeSlot numbered member slot tag ret, ?_⟩
  · intro j validJ
    by_cases here : j = k
    · subst here
      rw [completeSlot_queue_self] at validJ
      cases validJ
    · rw [completeSlot_queue_of_ne c ret here] at validJ ⊢
      exact occupied.slots j validJ
  · intro n none_
    have ne : n ≠ (c.queue.queue k).call := by
      rw [← tag]
      exact (none_ s member).symm
    rw [completionsOf_completeSlot_of_ne c k ret ne]
    exact occupied.others n none_

theorem Outstanding.completeSlot (outstanding : c.Outstanding) (k : Slot) (ret : RetVal) :
    (c.completeSlot k ret).Outstanding := by
  refine ⟨outstanding.sent, outstanding.nodup, ?_⟩
  intro p among
  by_cases here : p.2 = k
  · rw [here, completeSlot_queue_self, ← here]
    exact outstanding.slot p among
  · rw [completeSlot_queue_of_ne c ret here]
    exact outstanding.slot p among

/-- An occupied slot is completed. -/
theorem Inv.completeSlot (inv : c.Inv id s₀) (valid : (c.queue.queue k).valid = true)
    (ret : RetVal) : (c.completeSlot k ret).Inv id s₀ := by
  obtain ⟨numbered, occupied, outstanding⟩ := inv
  exact ⟨⟨numbered.current, numbered.currentId, numbered.seq, numbered.sentId, numbered.slot,
    numbered.valid, numbered.call, numbered.nodup⟩, occupied.completeSlot numbered valid ret,
    outstanding.completeSlot k ret⟩

end CompleteSlot

theorem Inv.settle (inv : c.Inv id s₀) (v : Option (RetVal × UInt64)) :
    (c.settle v).Inv id s₀ := by
  rcases c.settle_cases v with same | ⟨ret, w, -, valid, done⟩
  · rwa [same]
  · rw [done]
    exact inv.completeSlot valid ret

theorem Inv.deliver (inv : c.Inv id s₀) (gcm : AesGcm) (d : Delivery) :
    (c.deliver gcm d).Inv id s₀ := by
  rcases c.deliver_cases gcm d with ⟨-, same⟩ | ⟨p, mem, -, ran⟩
  · rwa [same]
  · rw [ran]
    exact (inv.erase p mem).settle _

theorem Inv.call (inv : c.Inv id s₀) {gcm : AesGcm} {iv : Iv} {enc : EncEnv} {k : Call}
    {c' : Client} {ret : Int} (called : c.call gcm (.idle iv enc) k = some (c', ret)) :
    c'.Inv id s₀ := by
  rcases call_cases called with ⟨-, -, rfl⟩ | ⟨s, submits, -, free, outcome⟩
  · exact inv.returns (-1)
  · have op := Call.submission_op submits
    rcases outcome with ⟨-, -, rfl⟩ | ⟨ciphertext, -, -, rfl⟩
    · exact (inv.giveBack (s := s) (by omega) free).returns (-1)
    · exact (inv.enqueue (s := s) (by omega) free ciphertext).of_eq rfl rfl rfl rfl le_rfl

theorem Inv.sendDisconnect (inv : c.Inv id s₀) {gcm : AesGcm} {iv : Iv} {enc : EncEnv}
    {c' : Client} (called : c.sendDisconnectMessage gcm (.idle iv enc) = some c') :
    c'.Inv id s₀ := by
  obtain ⟨free, rfl | ⟨ciphertext, -, rfl⟩⟩ := sendDisconnect_cases called
  · exact (inv.giveBack (by decide) free).nextCall
  · exact inv.enqueue (by decide) free ciphertext

theorem inv_step (inv : c.Inv id s₀) (gcm : AesGcm) (a : Action) : (c.step gcm a).Inv id s₀ := by
  cases a with
  | call k iv enc =>
      simp only [step]
      cases called : c.call gcm (.idle iv enc) k with
      | none => exact inv
      | some r => exact inv.call called
  | poll d => exact inv.deliver gcm d
  | sendDisconnect iv enc =>
      simp only [step]
      cases called : c.sendDisconnectMessage gcm (.idle iv enc) with
      | none => exact inv
      | some c' => exact inv.sendDisconnect called

theorem inv_run (inv : c.Inv id s₀) (gcm : AesGcm) (acts : List Action) :
    (run (step gcm) c acts).Inv id s₀ :=
  run_invariant (I := fun c : Client => c.Inv id s₀) (fun _ a inv => inv_step inv gcm a) inv acts

end Preserved

end Client

end NetworkStack
