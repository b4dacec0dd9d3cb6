import NetworkStack.ClientInvariant

/-!
# Every request completes once

From the invariant of client runs: the callback of a call that returned 0 is
invoked at most once at any time, and once `disconnect` has returned it has been
invoked; the callback of a call that returned -1 never is. `Extends` is what a
run only adds to: the requests sent, numbered by the calls they belong to.
-/

namespace NetworkStack

open Machine

namespace Client

/-! ## What a run adds -/

/-- The requests sent after `c` belong to calls made after `c`. -/
structure Extends (c c' : Client) : Prop where
  calls : c.calls ≤ c'.calls
  sent : ∃ new, c'.sent = c.sent ++ new ∧ ∀ s ∈ new, c.calls ≤ s.tag.call

theorem Extends.of_eq {c c' : Client} (calls : c.calls ≤ c'.calls) (sent : c'.sent = c.sent) :
    c.Extends c' :=
  ⟨calls, [], by rw [sent, List.append_nil], by simp⟩

theorem Extends.refl (c : Client) : c.Extends c := .of_eq le_rfl rfl

theorem Extends.trans {a b c : Client} (first : a.Extends b) (second : b.Extends c) :
    a.Extends c := by
  obtain ⟨new, eq, ge⟩ := first.sent
  obtain ⟨new', eq', ge'⟩ := second.sent
  refine ⟨first.calls.trans second.calls, new ++ new', ?_, ?_⟩
  · rw [eq', eq, List.append_assoc]
  · intro s member
    rcases List.mem_append.mp member with old | young
    · exact ge s old
    · exact first.calls.trans (ge' s young)

theorem Extends.mem {c c' : Client} (grows : c.Extends c') {s : Sent} (member : s ∈ c.sent) :
    s ∈ c'.sent := by
  obtain ⟨new, eq, -⟩ := grows.sent
  rw [eq]
  exact List.mem_append_left new member

theorem settle_sent (c : Client) (v : Option (RetVal × UInt64)) :
    (c.settle v).sent = c.sent ∧ (c.settle v).calls = c.calls := by
  rcases c.settle_cases v with same | ⟨ret, w, -, -, done⟩
  · rw [same]
    exact ⟨rfl, rfl⟩
  · rw [done]
    exact ⟨rfl, rfl⟩

theorem deliver_sent (gcm : AesGcm) (c : Client) (d : Delivery) :
    (c.deliver gcm d).sent = c.sent ∧ (c.deliver gcm d).calls = c.calls := by
  rcases c.deliver_cases gcm d with ⟨-, same⟩ | ⟨p, mem, -, ran⟩
  · rw [same]
    exact ⟨rfl, rfl⟩
  · rw [ran]
    exact settle_sent _ _

theorem enqueue_extends (c : Client) (s : Submission) (ciphertext : Bytes) :
    c.Extends (c.enqueue s ciphertext).nextCall :=
  ⟨Nat.le_succ c.calls, [_], rfl, by
    intro t member
    rw [List.mem_singleton.mp member]
    exact le_rfl⟩

theorem step_extends (gcm : AesGcm) (c : Client) (a : Action) : c.Extends (c.step gcm a) := by
  rcases c.step_cases gcm a with
    ⟨d, rfl⟩ | ⟨-, c', calls, returned, eq, le, rfl | ⟨s, -, -, -, rfl | ⟨_, _, text, -, rfl⟩⟩⟩
  · obtain ⟨sent, calls⟩ := c.deliver_sent gcm d
    exact .of_eq calls.ge sent
  · rw [eq]
    exact .of_eq le rfl
  · rw [eq]
    exact .of_eq le rfl
  · rw [eq]
    exact ⟨le, (c.enqueue_extends s text).sent⟩

theorem run_extends (gcm : AesGcm) (c : Client) (acts : List Action) :
    c.Extends (run (step gcm) c acts) :=
  run_invariant (I := c.Extends) (fun s a grows => grows.trans (step_extends gcm s a))
    (.refl c) acts

/-! ## The sweep of `disconnect` -/

theorem complete_queue (c : Client) (q : PendingRequestQueue) (done : List Completion) :
    (c.complete q done).queue = q := rfl

theorem complete_extends (c : Client) (q : PendingRequestQueue) (done : List Completion) :
    c.Extends (c.complete q done) :=
  .of_eq le_rfl rfl

theorem complete_complete (c : Client) (q q' : PendingRequestQueue) (done done' : List Completion) :
    (c.complete q done).complete q' done' = c.complete q' (done ++ done') := by
  simp [complete, Bool.and_assoc]

/-- One iteration of `invalidate_all_requests`. -/
def sweepSlot (c : Client) (k : Slot) : Client :=
  if (c.queue.queue k).valid then c.completeSlot k .timeout else c

theorem complete_invalidateLoop_succ (c : Client) (n : Nat) (index : Slot) :
    c.complete (PendingRequestQueue.invalidateLoop (n + 1) index c.queue).1
        (PendingRequestQueue.invalidateLoop (n + 1) index c.queue).2 =
      (c.sweepSlot index).complete
        (PendingRequestQueue.invalidateLoop n (PendingRequestQueue.nextIndex index)
          (c.sweepSlot index).queue).1
        (PendingRequestQueue.invalidateLoop n (PendingRequestQueue.nextIndex index)
          (c.sweepSlot index).queue).2 := by
  unfold sweepSlot
  cases valid : (c.queue.queue index).valid with
  | true =>
      simp only [PendingRequestQueue.invalidateLoop, valid, if_true, completeSlot,
        complete_complete]
      rfl
  | false =>
      simp only [PendingRequestQueue.invalidateLoop, valid, Bool.false_eq_true, if_false]
      rfl

theorem sweepSlot_valid (c : Client) (k j : Slot) :
    ((c.sweepSlot k).queue.queue j).valid = true → (c.queue.queue j).valid = true ∧ j ≠ k := by
  unfold sweepSlot
  intro valid
  split at valid
  · by_cases here : j = k
    · rw [here, completeSlot_queue_self] at valid
      cases valid
    · rw [completeSlot_queue_of_ne c _ here] at valid
      exact ⟨valid, here⟩
  · rename_i free
    refine ⟨valid, ?_⟩
    rintro rfl
    exact free valid

theorem val_iterate_nextIndex (index : Slot) (i : Nat) :
    (PendingRequestQueue.nextIndex^[i] index).val = (index.val + i) % maxAcceptedResponses := by
  induction i with
  | zero => exact (Nat.mod_eq_of_lt index.isLt).symm
  | succ i ih =>
      rw [Function.iterate_succ_apply', PendingRequestQueue.nextIndex]
      dsimp only
      rw [ih, Nat.mod_add_mod, Nat.add_assoc]

/-- The loop keeps the invariant and leaves the slots it visited free. -/
theorem Inv.invalidateLoop {id : UInt8} {s₀ : Nat} (n : Nat) {c : Client} (inv : c.Inv id s₀)
    (index : Slot) :
    (c.complete (PendingRequestQueue.invalidateLoop n index c.queue).1
        (PendingRequestQueue.invalidateLoop n index c.queue).2).Inv id s₀ ∧
      ∀ k, ((PendingRequestQueue.invalidateLoop n index c.queue).1.queue k).valid = true →
        (c.queue.queue k).valid = true ∧ ∀ i < n, k ≠ PendingRequestQueue.nextIndex^[i] index := by
  induction n generalizing c index with
  | zero =>
      refine ⟨?_, fun k valid => ⟨valid, by simp⟩⟩
      have same : c.complete c.queue [] = c := by simp [complete]
      exact same.symm ▸ inv
  | succ n ih =>
      have swept : (c.sweepSlot index).Inv id s₀ := by
        unfold sweepSlot
        split
        · exact inv.completeSlot ‹_› .timeout
        · exact inv
      obtain ⟨kept, visited⟩ := ih swept (PendingRequestQueue.nextIndex index)
      have unfolded := c.complete_invalidateLoop_succ n index
      refine ⟨unfolded ▸ kept, ?_⟩
      intro k valid
      have queue := congrArg (fun x : Client => (x.queue.queue k).valid) unfolded
      obtain ⟨before, notVisited⟩ := visited k (queue.symm.trans valid)
      obtain ⟨start, notFirst⟩ := sweepSlot_valid c index k before
      refine ⟨start, ?_⟩
      intro i lt
      cases i with
      | zero => exact notFirst
      | succ i => exact notVisited i (by omega)

/-- After the sweep every slot is free. -/
theorem Inv.invalidateAllRequests {id : UInt8} {s₀ : Nat} {c : Client} (inv : c.Inv id s₀) :
    (c.complete c.queue.invalidateAllRequests.1 c.queue.invalidateAllRequests.2).Inv id s₀ ∧
      ∀ k, (c.queue.invalidateAllRequests.1.queue k).valid = false := by
  obtain ⟨kept, visited⟩ := inv.invalidateLoop maxAcceptedResponses
    (acceptedIndex c.queue.currentSeqOp)
  unfold PendingRequestQueue.invalidateAllRequests
  refine ⟨kept, ?_⟩
  intro k
  by_contra occupied
  rw [Bool.not_eq_false] at occupied
  obtain ⟨-, notVisited⟩ := visited k occupied
  have lt := k.isLt
  have start := (acceptedIndex c.queue.currentSeqOp).isLt
  refine notVisited
    ((k.val + maxAcceptedResponses - (acceptedIndex c.queue.currentSeqOp).val) %
      maxAcceptedResponses) (Nat.mod_lt _ (by decide)) (Fin.ext ?_)
  rw [val_iterate_nextIndex]
  unfold maxAcceptedResponses maxPendingRequests at *
  omega

/-- `disconnect` on a connected session keeps the invariant and leaves every slot free. -/
theorem Inv.disconnect {id : UInt8} {s₀ : Nat} {c final : Client} (inv : c.Inv id s₀)
    {gcm : AesGcm} {env : CallEnv} (disconnected : c.disconnect gcm env true = some final) :
    final.Inv id s₀ ∧ c.Extends final ∧ ∀ k, (final.queue.queue k).valid = false := by
  unfold Client.disconnect at disconnected
  rw [if_pos rfl] at disconnected
  obtain ⟨sent, messaged, rfl⟩ := Option.map_eq_some_iff.mp disconnected
  obtain ⟨⟨submitted, ret⟩, submits, rfl⟩ := Option.map_eq_some_iff.mp messaged
  obtain ⟨before, after, idle, submitsIdle, rfl⟩ := submit_unroll submits
  have called : (run (step gcm) c (polls before)).sendDisconnectMessage gcm
      (.idle env.iv env.enc) = some idle.nextCall := by
    unfold sendDisconnectMessage
    rw [submitsIdle]
    rfl
  have taken : run (step gcm) c
      (polls before ++ .sendDisconnect env.iv env.enc :: polls after) =
        (run (step gcm) idle (polls after)).nextCall := by
    rw [run_append, run_cons, ← run_polls_nextCall]
    simp only [step]
    rw [called]
    rfl
  rw [← taken]
  have swept := (inv_run inv gcm (polls before ++ .sendDisconnect env.iv env.enc ::
    polls after)).invalidateAllRequests
  have grows := run_extends gcm c (polls before ++ .sendDisconnect env.iv env.enc :: polls after)
  dsimp only
  refine ⟨swept.1, grows.trans (complete_extends ..), ?_⟩
  intro k
  rw [complete_queue]
  exact swept.2 k

/-! ## Calls -/

/-- The calls that returned 0, in order. -/
def accepted (c : Client) : List Nat := (c.returned.filter (·.2 = 0)).map Prod.fst

/-- A run without disconnect messages. -/
def Action.Ordinary : Action → Prop
  | .sendDisconnect _ _ => False
  | _ => True

theorem accepted_returns_failed (c : Client) : (c.returns (-1)).1.accepted = c.accepted := by
  change ((c.returned ++ [(c.calls, (-1 : Int))]).filter _).map _ = _
  rw [List.filter_append, List.map_append]
  exact List.append_nil _

theorem step_accepted (gcm : AesGcm) {c : Client} (same : c.sent.map (·.tag.call) = c.accepted)
    {a : Action} (ordinary : a.Ordinary) :
    (c.step gcm a).sent.map (·.tag.call) = (c.step gcm a).accepted := by
  cases a with
  | sendDisconnect iv enc => exact ordinary.elim
  | poll d =>
      have calls := (run_polls_calls gcm c [d]).2
      change (c.deliver gcm d).returned = c.returned at calls
      change (c.deliver gcm d).sent.map _ = (c.deliver gcm d).accepted
      rw [(c.deliver_sent gcm d).1, accepted, calls]
      exact same
  | call k iv enc =>
      rcases c.step_call_cases gcm k iv enc with eq | eq | ⟨s, -, -, -, eq | ⟨text, -, eq⟩⟩
      · rw [eq]
        exact same
      · rw [eq, accepted_returns_failed]
        exact same
      · rw [eq, accepted_returns_failed]
        exact same
      · rw [eq]
        change (c.sent ++ [_]).map _ =
          (List.filter _ (c.returned ++ [(c.calls, (0 : Int))])).map _
        rw [List.map_append, same, List.filter_append, List.map_append]
        rfl

/-- Without disconnect messages, the requests sent are the calls that returned 0. -/
theorem run_accepted (gcm : AesGcm) {c : Client} (start : c.sent.map (·.tag.call) = c.accepted)
    {acts : List Action} (ordinary : ∀ a ∈ acts, a.Ordinary) :
    (run (step gcm) c acts).sent.map (·.tag.call) = (run (step gcm) c acts).accepted := by
  have along : Along (step gcm) (fun _ a => a.Ordinary) c acts :=
    along_of_forall fun before a after eq => ordinary a (by rw [eq]; simp)
  exact run_invariant_of_along (I := fun c : Client => c.sent.map (·.tag.call) = c.accepted)
    (fun _ _ same isOrdinary => step_accepted gcm same isOrdinary) start along

/-- The callback of a call that returned 0 is invoked at most once, and not later than by
the sweep. -/
theorem completes_once {id : UInt8} {s₀ : Nat} {c : Client} (inv : c.Inv id s₀) {s : Sent}
    (member : s ∈ c.sent) :
    (c.completionsOf s.tag.call).length ≤ 1 ∧
      ((∀ k, (c.queue.queue k).valid = false) →
        ∃ ret, c.completionsOf s.tag.call = (s.tag.invalidate ret).2.toList) := by
  rcases inv.occupied.accounted s member with ⟨inSlot, none_⟩ | ⟨-, ret, once⟩
  · refine ⟨by simp [none_], fun free => ?_⟩
    have occupied := inv.numbered.valid s member
    rw [← inSlot, free] at occupied
    cases occupied
  · refine ⟨?_, fun _ => ⟨ret, once⟩⟩
    rw [once]
    cases (s.tag.invalidate ret).2 with
    | none => exact Nat.zero_le 1
    | some x => exact le_rfl

/-- A number that no request sent so far carries is not taken by a later call either, once
the counter is past it. -/
theorem never_completes {id : UInt8} {s₀ : Nat} {c c' : Client} {n : Nat} (inv : c'.Inv id s₀)
    (grows : c.Extends c') (past : n < c.calls) (unsent : ∀ s ∈ c.sent, s.tag.call ≠ n) :
    c'.completionsOf n = [] := by
  obtain ⟨new, eq, ge⟩ := grows.sent
  refine inv.occupied.others n ?_
  intro s member
  rw [eq] at member
  rcases List.mem_append.mp member with old | young
  · exact unsent s old
  · have := ge s young
    omega

/-- What becomes of a call `k` made in `c` that returned `ret` and left `c'`, at every later
point of the run and once `disconnect` has left `final`. -/
def Outcome (gcm : AesGcm) (c : Client) (k : Call) (c' : Client) (ret : Int)
    (after : List Action) (final : Client) : Prop :=
  (ret = 0 ∧
    (∀ later, later <+: after →
      ((run (step gcm) c' later).completionsOf c.calls).length ≤ 1) ∧
    ∃ r, final.completionsOf c.calls =
      (k.callback.map fun cb => ⟨c.calls, .user cb, r, k.userTag⟩).toList) ∨
  (ret = -1 ∧
    (∀ later, later <+: after → (run (step gcm) c' later).completionsOf c.calls = []) ∧
    final.completionsOf c.calls = [] ∧
    c'.queue.currentSeqOp = c.queue.currentSeqOp ∧
    (∀ j, (c'.queue.queue j).valid = (c.queue.queue j).valid) ∧
    ∀ j, j ≠ c.nextSlot → c'.queue.queue j = c.queue.queue j)

theorem Call.submission_callback {k : Call} {s : Submission} (submits : k.submission = some s) :
    s.callback = k.callback.map .user ∧ s.userTag = k.userTag := by
  rcases k with ⟨request, callback, userTag, loopIterations⟩
  cases request with
  | get key value valueLen =>
      obtain ⟨bytes, -, rfl⟩ := Option.map_eq_some_iff.mp submits
      exact ⟨rfl, rfl⟩
  | put key value =>
      obtain ⟨bytes, -, rest⟩ := Option.bind_eq_some_iff.mp submits
      obtain ⟨src, -, rfl⟩ := Option.map_eq_some_iff.mp rest
      exact ⟨rfl, rfl⟩
  | del key =>
      obtain ⟨bytes, -, rfl⟩ := Option.map_eq_some_iff.mp submits
      exact ⟨rfl, rfl⟩

/-- A call that returned -1 leaves the sequence number and the slots. -/
theorem failed_call_frame {gcm : AesGcm} {iv : Iv} {enc : EncEnv} {c c' : Client} {k : Call}
    (called : c.call gcm (.idle iv enc) k = some (c', -1)) :
    c'.sent = c.sent ∧ c'.calls = c.calls + 1 ∧
      c'.queue.currentSeqOp = c.queue.currentSeqOp ∧
      (∀ j, (c'.queue.queue j).valid = (c.queue.queue j).valid) ∧
      ∀ j, j ≠ c.nextSlot → c'.queue.queue j = c.queue.queue j := by
  rcases call_cases called with ⟨-, -, rfl⟩ | ⟨s, -, -, free, ⟨-, -, rfl⟩ | ⟨_, -, zero, -⟩⟩
  · exact ⟨rfl, rfl, rfl, fun _ => rfl, fun _ _ => rfl⟩
  · have others : ∀ j, j ≠ c.nextSlot → (c.giveBack s).queue.queue j = c.queue.queue j :=
      fun j ne => PendingRequestQueue.setTag_queue_of_ne _ _ ne
    refine ⟨rfl, rfl, rfl, ?_, others⟩
    intro j
    by_cases here : j = c.nextSlot
    · have own : ((c.giveBack s).queue.queue c.nextSlot).valid = false := by
        change ((c.queue.setTag c.nextSlot _).queue c.nextSlot).valid = false
        rw [PendingRequestQueue.setTag_queue_self]
      rw [here, free]
      exact own
    · exact congrArg SentMessageTag.valid (others j here)
  · cases zero

/-- A call that returned 0 sent one request, with its own callback and tag. -/
theorem accepted_call_sends {gcm : AesGcm} {iv : Iv} {enc : EncEnv} {c c' : Client} {k : Call}
    (called : c.call gcm (.idle iv enc) k = some (c', 0)) :
    ∃ s ∈ c'.sent, s.tag.call = c.calls ∧ s.tag.callback = k.callback.map .user ∧
      s.tag.userTag = k.userTag := by
  rcases call_cases called with
    ⟨-, minus, -⟩ | ⟨s, submits, -, -, ⟨-, minus, -⟩ | ⟨text, -, -, rfl⟩⟩
  · cases minus
  · cases minus
  · obtain ⟨callback, userTag⟩ := Call.submission_callback submits
    exact ⟨_, List.mem_append_right _ (List.mem_singleton_self _), rfl, callback, userTag⟩

/-- Every call completes as often as it should: once for a call that returned 0, by the end
of `disconnect`, and never for one that returned -1; and the calls that returned 0 carry the
sequence numbers from the initial one on in steps of two. -/
theorem calls_complete_exactly_once (gcm : AesGcm) (setup : Setup) {acts : List Action}
    (ordinary : ∀ a ∈ acts, a.Ordinary) {env : CallEnv} {final : Client}
    (disconnected : (run (step gcm) setup.client acts).disconnect gcm env true = some final) :
    (∀ before k iv enc after c' ret, acts = before ++ .call k iv enc :: after →
      (run (step gcm) setup.client before).call gcm (.idle iv enc) k = some (c', ret) →
      Outcome gcm (run (step gcm) setup.client before) k c' ret after final) ∧
    ∀ i n, (run (step gcm) setup.client acts).accepted[i]? = some n →
      ∃ s ∈ (run (step gcm) setup.client acts).sent, s.tag.call = n ∧
        seqOf s.tag.header.seqOp = (seqOf setup.random + 2 * i) % seqModulus := by
  have start := inv_client setup
  obtain ⟨finalInv, finalGrows, free⟩ := (inv_run start gcm acts).disconnect disconnected
  constructor
  · rintro before k iv enc after c' ret rfl called
    have stepped : (run (step gcm) setup.client before).step gcm (.call k iv enc) = c' := by
      simp only [step]
      rw [called]
      rfl
    have here := inv_run start gcm before
    rw [run_append, run_cons, stepped] at finalGrows
    have toFinal : c'.Extends final := (run_extends gcm c' after).trans finalGrows
    generalize run (step gcm) setup.client before = c at called here stepped ⊢
    have next : c'.Inv setup.id (seqOf setup.random) := here.call called
    have whole : ret = 0 ∨ ret = -1 := by
      rcases call_cases called with ⟨-, minus, -⟩ | ⟨s, -, -, -, ⟨-, minus, -⟩ | ⟨_, -, zero, -⟩⟩
      · exact Or.inr minus
      · exact Or.inr minus
      · exact Or.inl zero
    rcases whole with rfl | rfl
    · obtain ⟨s, member, call, callback, userTag⟩ := accepted_call_sends called
      refine Or.inl ⟨rfl, ?_, ?_⟩
      · intro later _
        rw [← call]
        exact (completes_once (inv_run next gcm later)
          ((run_extends gcm c' later).mem member)).1
      · obtain ⟨r, once⟩ := (completes_once finalInv (toFinal.mem member)).2 free
        refine ⟨r, ?_⟩
        rw [call] at once
        rw [once, SentMessageTag.invalidate, callback, call, userTag, Option.map_map]
        rfl
    · obtain ⟨sent, calls, seq, valid, others⟩ := failed_call_frame called
      have unsent : ∀ s ∈ c'.sent, s.tag.call ≠ c.calls := by
        intro s member
        rw [sent] at member
        exact (here.numbered.call s member).ne
      refine Or.inr ⟨rfl, ?_, ?_, seq, valid, others⟩
      · intro later _
        exact never_completes (inv_run next gcm later) (run_extends gcm c' later) (by omega) unsent
      · exact never_completes finalInv toFinal (by omega) unsent
  · intro i n get
    rw [← run_accepted gcm rfl ordinary, List.getElem?_map] at get
    obtain ⟨s, at_, call⟩ := Option.map_eq_some_iff.mp get
    exact ⟨s, List.mem_of_getElem? at_, call, (inv_run start gcm acts).numbered.seq i s at_⟩

end Client

/-! ## A concrete run -/

namespace Sample

/-- Client 7 with the initial sequence number `n`. -/
def setup (n : Nat) : Client.Setup where
  id := 7
  maxKeySize := 8
  maxValSize := 8
  random := UInt64.ofNat (n * 1024)
  uninit _ := ⟨⟨0, 0⟩, none, none, 0, none, false, 0⟩
  mem := .empty
  encKey := List.replicate 16 5
  sessionNr := 0

/-- A put of one byte under a one-byte key, with user callback 3. -/
def putCall (userTag : Nat) : Client.Call := ⟨.put (some [1]) (some [2]), some 3, userTag, 0⟩

def enc : EncEnv := .ok (.ofNat 1)

end Sample

/-- A put that is never answered completes once, in the sweep of `disconnect`. -/
theorem unanswered_put_completes_once :
    ∃ final r,
      (run (Client.step .checksum) (Sample.setup 10).client
        [.call (Sample.putCall 42) (.ofNat 1) Sample.enc]).disconnect .checksum
          (.idle (.ofNat 1) Sample.enc) true = some final ∧
      final.completionsOf 0 = [⟨0, .user 3, r, 42⟩] := by
  have returns : ((run (Client.step .checksum) (Sample.setup 10).client
      [.call (Sample.putCall 42) (.ofNat 1) Sample.enc]).disconnect .checksum
        (.idle (.ofNat 1) Sample.enc) true).isSome = true := by decide +kernel
  have called : ((Sample.setup 10).client.call .checksum (.idle (.ofNat 1) Sample.enc)
      (Sample.putCall 42)).map Prod.snd = some 0 := by decide +kernel
  obtain ⟨final, disconnected⟩ := Option.isSome_iff_exists.mp returns
  obtain ⟨⟨c', ret⟩, call, zero⟩ := Option.map_eq_some_iff.mp called
  cases zero
  have outcome := (Client.calls_complete_exactly_once .checksum (Sample.setup 10) (by simp
    [Client.Action.Ordinary]) disconnected).1 [] _ _ _ [] c' 0 rfl call
  rcases outcome with ⟨-, -, r, once⟩ | ⟨minus, -⟩
  · exact ⟨final, r, disconnected, once⟩
  · cases minus

end NetworkStack
