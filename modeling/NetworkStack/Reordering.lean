import NetworkStack.Network

/-!
# A network that reorders

Every request is delivered to the thread at most once and unmodified, in any
order. The client may have 1024 requests outstanding, while the thread accepts
only numbers near the one after the last request it handled. When it accepts all
of them is said in terms of the order of delivery (`NearPrevious`).
-/

namespace NetworkStack

open Machine

namespace System

variable {σ : Type} {gcm : AesGcm} {cfg : ServerConfig} {kv : KvFunctions σ}
  {setup : Client.Setup} {sys : System σ}

/-- The network hands over only requests the client sent, each at most once. -/
def Reorders (sys : System σ) : Action → Prop
  | .serve d => d.ciphertext ∈ sys.client.sent.map (·.ciphertext) ∧
      d.ciphertext ∉ sys.served.map Prod.fst
  | .client (.sendDisconnect _ _) => False
  | .client _ => True

instance (sys : System σ) : (a : Action) → Decidable (sys.Reorders a)
  | .serve _ => inferInstanceAs (Decidable (_ ∧ _))
  | .client (.sendDisconnect _ _) => isFalse id
  | .client (.call _ _ _) => isTrue True.intro
  | .client (.poll _) => isTrue True.intro

/-- No library call fails while the thread decrypts. -/
def Action.DecryptsOk : Action → Prop
  | .serve d => d.env.dec.Ok
  | .client _ => True

/-- The thread accepts what it is handed and invokes its KV function. It enqueues the response
to it, unless the result does not fit in a message or a library call fails on the response. -/
def AcceptsRequest (gcm : AesGcm) (cfg : ServerConfig) (kv : KvFunctions σ)
    (sys : System σ) : Action → Prop
  | .serve d => ∃ m call, d.message gcm cfg = some m ∧ m.kvCall = some call ∧
      (sys.server.thread.isSeqValid m.seqOp).2 = true ∧
      (sys.server.serve gcm cfg kv d).kvLog = sys.server.kvLog ++ [(m.seqOp, call)] ∧
      (d.env.enc.Ok →
        ciphertextSize ((kv.invoke sys.server.kv call).2.getD []).length ≤ cfg.maxMsgSize →
        ∃ out, sys.server.reply gcm cfg kv d = some out ∧
          openMessage gcm cfg.encKey out = some (m.response (kv.invoke sys.server.kv call).2))
  | .client _ => True

/-- The delivery hands over the `i`-th request, and the one before handed over the `j`-th. -/
def HandsAfter (sys : System σ) (d : Incoming) (i j : Nat) : Prop :=
  (sys.client.sent.map (·.ciphertext))[i]? = some d.ciphertext ∧
    (sys.client.sent.map (·.ciphertext))[j]? = (sys.served.map Prod.fst).getLast?

instance (sys : System σ) (d : Incoming) (i j : Nat) : Decidable (sys.HandsAfter d i j) :=
  inferInstanceAs (Decidable (_ ∧ _))

/-- A request is handed over at most `SEQ_THRESHOLD` positions away from the request after
the one handed over before it. -/
def NearPrevious (sys : System σ) : Action → Prop
  | .serve d => ∀ i < sys.client.sent.length, ∀ j < sys.client.sent.length,
      sys.HandsAfter d i j → ((i : Int) - ((j : Int) + 1)).natAbs ≤ seqThreshold
  | .client _ => True

instance (sys : System σ) : (a : Action) → Decidable (sys.NearPrevious a)
  | .serve d => inferInstanceAs (Decidable (∀ i < sys.client.sent.length,
      ∀ j < sys.client.sent.length, sys.HandsAfter d i j →
        ((i : Int) - ((j : Int) + 1)).natAbs ≤ seqThreshold))
  | .client _ => isTrue True.intro

/-- The number of a request handed over and the one the thread expects after the request handed
over before it, which is two above that request's, lie on the same side of the wrap of the 54
bits, and the latter is not 0. -/
def WithinPeriod (setup : Client.Setup) (sys : System σ) : Action → Prop
  | .serve d => ∀ i < sys.client.sent.length, ∀ j < sys.client.sent.length,
      sys.HandsAfter d i j →
        (seqOf setup.random + 2 * i) / seqModulus =
            (seqOf setup.random + 2 * (j + 1)) / seqModulus ∧
          (seqOf setup.random + 2 * (j + 1)) % seqModulus ≠ 0
  | .client _ => True

instance (setup : Client.Setup) (sys : System σ) : (a : Action) →
    Decidable (sys.WithinPeriod setup a)
  | .serve d => inferInstanceAs (Decidable (∀ i < sys.client.sent.length,
      ∀ j < sys.client.sent.length, sys.HandsAfter d i j →
        (seqOf setup.random + 2 * i) / seqModulus =
            (seqOf setup.random + 2 * (j + 1)) / seqModulus ∧
          (seqOf setup.random + 2 * (j + 1)) % seqModulus ≠ 0))
  | .client _ => isTrue True.intro

/-- The thread expects the request after the last one it was handed. -/
structure Follows (sys : System σ) : Prop where
  requests : ∀ r ∈ sys.client.sent, opOf r.tag.header.seqOp ≠ 3
  fresh : sys.served = [] → sys.server.thread.nextSeq = 0
  last : ∀ b, (sys.served.map Prod.fst).getLast? = some b →
    ∃ t ∈ sys.client.sent, t.ciphertext = b ∧ sys.server.thread.nextSeq = t.message.expected

/-- Requests with one ciphertext carry one message. -/
theorem Inv.message_eq_of_ciphertext (inv : sys.Inv gcm setup) {r t : Sent}
    (hr : r ∈ sys.client.sent) (ht : t ∈ sys.client.sent) (same : r.ciphertext = t.ciphertext) :
    r.message = t.message := by
  have opens := inv.opens hr
  rw [same, inv.opens ht] at opens
  exact (Option.some.inj opens).symm

section Handed

variable {d : Incoming} {r : Sent}

theorem handsAfter_of {i j : Nat} {r t : Sent} (atI : sys.client.sent[i]? = some r)
    (same : r.ciphertext = d.ciphertext) (atJ : sys.client.sent[j]? = some t)
    (last : (sys.served.map Prod.fst).getLast? = some t.ciphertext) : sys.HandsAfter d i j := by
  unfold HandsAfter
  rw [List.getElem?_map, List.getElem?_map, atI, atJ, last, ← same]
  exact ⟨rfl, rfl⟩

theorem handsAfter_inv {i j : Nat} (hands : sys.HandsAfter d i j)
    (iLt : i < sys.client.sent.length) (jLt : j < sys.client.sent.length) :
    sys.client.sent[i].ciphertext = d.ciphertext ∧
      (sys.served.map Prod.fst).getLast? = some sys.client.sent[j].ciphertext := by
  obtain ⟨atI, atJ⟩ := hands
  rw [List.getElem?_map, List.getElem?_eq_getElem iLt] at atI
  rw [List.getElem?_map, List.getElem?_eq_getElem jLt] at atJ
  exact ⟨Option.some.inj atI, atJ.symm⟩

/-- Within one period the distance of two numbers is twice that of their requests. -/
theorem distance_iff {start i j : Nat}
    (same : (start + 2 * i) / seqModulus = (start + 2 * (j + 1)) / seqModulus) :
    (((start + 2 * i) % seqModulus : Nat) - ((start + 2 * (j + 1)) % seqModulus : Nat) : Int).natAbs
        ≤ seqThreshold * 2 ↔
      ((i : Int) - ((j : Int) + 1)).natAbs ≤ seqThreshold := by
  have left := Nat.div_add_mod (start + 2 * i) seqModulus
  have right := Nat.div_add_mod (start + 2 * (j + 1)) seqModulus
  rw [same] at left
  unfold seqThreshold
  omega

/-- The thread accepts a request exactly when it is near the one handed over before. -/
theorem accepts_iff_near (inv : sys.Inv gcm setup) (follows : sys.Follows)
    (within : sys.WithinPeriod setup (.serve d)) (sent : r ∈ sys.client.sent)
    (same : r.ciphertext = d.ciphertext) :
    sys.server.thread.Accepts r.message.seqOp ↔ sys.NearPrevious (.serve d) := by
  have ownId : idOf r.message.seqOp = sys.server.thread.clientId.toNat := by
    rw [inv.clientId]
    exact inv.client.numbered.sentId r sent
  rw [ServerThread.Accepts, and_iff_right ownId]
  cases last : (sys.served.map Prod.fst).getLast? with
  | none =>
      have empty : sys.served = [] := by simpa using last
      refine iff_of_true (Or.inl (follows.fresh empty)) ?_
      intro i iLt j jLt hands
      cases last.symm.trans (handsAfter_inv hands iLt jLt).2
  | some b =>
      obtain ⟨t, sentT, rfl, expected⟩ := follows.last b last
      -- whichever positions have these ciphertexts, the thread compares their numbers
      have compares : ∀ (i : Nat) (r' : Sent) (j : Nat) (t' : Sent),
          sys.client.sent[i]? = some r' → r'.ciphertext = d.ciphertext →
          sys.client.sent[j]? = some t' → t'.ciphertext = t.ciphertext →
          (sys.server.thread.nextSeq = 0 ∨ ((seqOf r.message.seqOp : Int) -
            (seqOf sys.server.thread.nextSeq : Int)).natAbs ≤ seqThreshold * 2 ↔
              ((i : Int) - ((j : Int) + 1)).natAbs ≤ seqThreshold) := by
        intro i r' j t' atI same' atJ isLast
        obtain ⟨period, nonzero⟩ := within i (List.getElem?_eq_some_iff.mp atI).1 j
          (List.getElem?_eq_some_iff.mp atJ).1 (handsAfter_of atI same' atJ (isLast ▸ last))
        have number : seqOf r.message.seqOp = (seqOf setup.random + 2 * i) % seqModulus := by
          rw [inv.message_eq_of_ciphertext sent (List.mem_of_getElem? atI) (same.trans same'.symm)]
          exact inv.client.numbered.seq i r' atI
        have next : seqOf sys.server.thread.nextSeq =
            (seqOf setup.random + 2 * (j + 1)) % seqModulus := by
          rw [expected, Message.expected, seqOf_expected,
            inv.message_eq_of_ciphertext sentT (List.mem_of_getElem? atJ) isLast.symm]
          change (seqOf t'.tag.header.seqOp + 2) % seqModulus = _
          rw [inv.client.numbered.seq j t' atJ, Nat.mod_add_mod]
          rfl
        have fresh : sys.server.thread.nextSeq ≠ 0 := by
          intro zero
          rw [zero] at next
          exact nonzero next.symm
        rw [number, next, or_iff_right fresh]
        exact distance_iff period
      constructor
      · intro near i iLt j jLt hands
        obtain ⟨atI, atJ⟩ := handsAfter_inv hands iLt jLt
        refine (compares i _ j _ (List.getElem?_eq_getElem iLt) atI
          (List.getElem?_eq_getElem jLt) ?_).mp near
        exact Option.some.inj (atJ.symm.trans last)
      · intro near
        obtain ⟨i, atI⟩ := List.mem_iff_getElem?.mp sent
        obtain ⟨j, atJ⟩ := List.mem_iff_getElem?.mp sentT
        exact (compares i r j t atI same atJ rfl).mpr
          (near i (List.getElem?_eq_some_iff.mp atI).1 j (List.getElem?_eq_some_iff.mp atJ).1
            (handsAfter_of atI same atJ last))

/-- What an accepted request does. -/
theorem acceptsRequest_iff (key : cfg.encKey = setup.encKey) (inv : sys.Inv gcm setup)
    (follows : sys.Follows) (ok : d.env.dec.Ok) (sent : r ∈ sys.client.sent)
    (same : r.ciphertext = d.ciphertext) :
    sys.AcceptsRequest gcm cfg kv (.serve d) ↔ sys.server.thread.Accepts r.message.seqOp := by
  have brings := message_of_sent key inv ok sent same
  constructor
  · intro accepts
    rcases accepts with ⟨m, call, brings', -, valid, -, -⟩
    cases brings.symm.trans brings'
    exact (sys.server.thread.isSeqValid_iff _).mp valid
  · intro accepted
    obtain ⟨call, asks⟩ := Message.exists_kvCall (m := r.message) (follows.requests r sent)
    obtain ⟨handled, answers⟩ := handle_of_accepts kv asks accepted
    have valid := (sys.server.thread.isSeqValid_iff _).mpr accepted
    refine ⟨r.message, call, brings, asks, valid, ?_, ?_⟩
    · rw [serve_eq, brings, Option.elim_some, handled]
    · intro encOk fits
      have sends := (reqHandler_of_message kv brings sys.server).2.2 _ answers
      obtain ⟨out, sent'⟩ := sends.succeeds fits encOk
      exact ⟨out, sent', (sent' ▸ sends).opens⟩

end Handed

/-- Accepted deliveries keep the thread expecting the next request. -/
theorem follows_step (key : cfg.encKey = setup.encKey) (inv : sys.Inv gcm setup)
    (follows : sys.Follows) {a : Action} (ok : a.DecryptsOk) (reorders : sys.Reorders a)
    (accepts : sys.AcceptsRequest gcm cfg kv a) : (sys.step gcm cfg kv a).Follows := by
  cases a with
  | serve d =>
      obtain ⟨r, sent, same⟩ := List.mem_map.mp reorders.1
      have accepted := (acceptsRequest_iff key inv follows ok sent same).mp accepts
      have brings := message_of_sent key inv ok sent same
      obtain ⟨call, asks⟩ := Message.exists_kvCall (m := r.message) (follows.requests r sent)
      refine ⟨follows.requests, ?_, ?_⟩
      · intro empty
        change sys.served ++ [_] = [] at empty
        simp at empty
      · intro b isLast
        change ((sys.served ++ [_]).map Prod.fst).getLast? = some b at isLast
        rw [List.map_append, List.map_singleton, List.getLast?_concat] at isLast
        refine ⟨r, sent, same.trans (Option.some.inj isLast), ?_⟩
        change (sys.server.serve gcm cfg kv d).thread.nextSeq = _
        rw [serve_eq, brings, Option.elim_some, (handle_of_accepts kv asks accepted).1]
  | client a =>
      have grows := Client.step_extends gcm sys.client a
      refine ⟨?_, follows.fresh, ?_⟩
      · intro r member
        rcases sys.client.step_sends gcm a with
          ⟨same, -⟩ | ⟨k, iv, enc, s, text, -, submits, -, eq, -⟩ | ⟨iv, enc, text, rfl, -⟩
        · exact follows.requests r (same ▸ member)
        · have stepped : r ∈ (sys.client.step gcm a).sent := member
          rw [eq] at stepped
          rcases List.mem_append.mp stepped with old | new
          · exact follows.requests r old
          · have op := Client.Call.submission_op submits
            rw [List.mem_singleton.mp new]
            change opOf (setOp sys.client.queue.currentSeqOp s.op) ≠ 3
            rw [(setOp_fields sys.client.queue.currentSeqOp (by omega)).2.2]
            omega
        · exact reorders.elim
      · intro b isLast
        obtain ⟨t, sent, rest⟩ := follows.last b isLast
        exact ⟨t, grows.mem sent, rest⟩

/-- In every run in which each request is handed to the thread at most once, unmodified, in
any order, in which no library call fails while the thread decrypts, and in which the number of
each request and the one expected after the request handed over before it lie on the same side
of the wrap: the thread accepts and executes every one of them, and answers those it can answer,
exactly when each is at most `SEQ_THRESHOLD` positions away from the request after the one
handed over before it. -/
theorem requests_accepted_iff (gcm : AesGcm) (cfg : ServerConfig) (kv : KvFunctions σ)
    (setup : Client.Setup) (s : σ) (key : cfg.encKey = setup.encKey)
    (small : setup.maxKeySize < 2 ^ 64) {acts : List Action} (ok : ∀ a ∈ acts, a.DecryptsOk)
    (reorders : Along (step gcm cfg kv) Reorders (System.init setup s) acts)
    (within : Along (step gcm cfg kv) (WithinPeriod setup) (System.init setup s) acts) :
    Along (step gcm cfg kv) (AcceptsRequest gcm cfg kv) (System.init setup s) acts ↔
      Along (step gcm cfg kv) NearPrevious (System.init setup s) acts := by
  have start : (System.init setup s).Inv gcm setup ∧ (System.init setup s).Follows := by
    refine ⟨inv_init gcm setup s, ?_, fun _ => rfl, ?_⟩
    · intro r member
      cases member
    · intro b isLast
      cases isLast
  have decrypts : Along (step gcm cfg kv) (fun _ a => a.DecryptsOk) (System.init setup s) acts :=
    along_of_forall fun before a after eq => ok a (by rw [eq]; simp)
  have network := (reorders.and decrypts).and within
  refine network.congr (I := fun sys : System σ => sys.Inv gcm setup ∧ sys.Follows) ?_ ?_ start
  · intro sys a both met
    rcases both with ⟨inv, follows⟩
    rcases met with ⟨⟨hands, decryptsOk⟩, withinHere⟩
    cases a with
    | client a => exact Iff.rfl
    | serve d =>
        obtain ⟨r, sent, same⟩ := List.mem_map.mp hands.1
        rw [acceptsRequest_iff key inv follows decryptsOk sent same,
          accepts_iff_near inv follows withinHere sent same]
  · intro sys a both met accepts
    rcases both with ⟨inv, follows⟩
    rcases met with ⟨⟨hands, decryptsOk⟩, -⟩
    exact ⟨inv_step small inv a, follows_step key inv follows decryptsOk hands accepts⟩

end System

/-! ## Concrete runs -/

namespace Sample

/-- The `n`-th of a sequence of puts is called. -/
def callPut (n : Nat) : System.Action := .client (.call (putCall n) (.ofNat (n + 1)) enc)

/-- As many puts as asked for are called, and then some of them are handed over. -/
def callsThenServes (calls : Nat) (order : List Nat) : List System.Action :=
  play system
    ((List.range calls).map (fun n _ => callPut n) ++ order.map fun n sys => serveSent sys n)

theorem play_append (sys : System (List (Bytes × Bytes)))
    (first next : List (System (List (Bytes × Bytes)) → System.Action)) :
    play sys (first ++ next) =
      play sys first ++ play (run systemStep sys (play sys first)) next := by
  induction first generalizing sys with
  | nil => rfl
  | cons f rest ih => exact congrArg (f sys :: ·) (ih (systemStep sys (f sys)))

theorem callsThenServes_snoc (calls : Nat) (order : List Nat) (n : Nat) :
    callsThenServes calls (order ++ [n]) = callsThenServes calls order ++
      [serveSent (run systemStep system (callsThenServes calls order)) n] := by
  unfold callsThenServes
  rw [List.map_append, ← List.append_assoc, play_append]
  rfl

theorem decryptsOk_of_mem_play {sys : System (List (Bytes × Bytes))}
    {strategy : List (System (List (Bytes × Bytes)) → System.Action)}
    (ok : ∀ f ∈ strategy, ∀ sys, (f sys).DecryptsOk) :
    ∀ a ∈ play sys strategy, a.DecryptsOk := by
  induction strategy generalizing sys with
  | nil =>
      intro a member
      cases member
  | cons f rest ih =>
      intro a member
      rcases List.mem_cons.mp member with rfl | later
      · exact ok f List.mem_cons_self sys
      · exact ih (fun g among => ok g (List.mem_cons_of_mem f among)) a later

theorem decryptsOk_callsThenServes (calls : Nat) (order : List Nat) :
    ∀ a ∈ callsThenServes calls order, a.DecryptsOk := by
  refine decryptsOk_of_mem_play ?_
  intro f member sys
  rcases List.mem_append.mp member with called | served
  · obtain ⟨n, -, rfl⟩ := List.mem_map.mp called
    exact True.intro
  · obtain ⟨n, -, rfl⟩ := List.mem_map.mp served
    exact DecEnv.ok_ok

end Sample

/-- Two puts are handed over in the wrong order, and both are executed and answered. -/
theorem swapped_requests_accepted :
    Along Sample.systemStep (System.AcceptsRequest .checksum Sample.config .assoc) Sample.system
      (Sample.callsThenServes 2 [1, 0]) :=
  (System.requests_accepted_iff .checksum Sample.config .assoc (Sample.setup 10) []
    (by decide) (by decide) (Sample.decryptsOk_callsThenServes 2 [1, 0]) (by decide +kernel)
    (by decide +kernel)).mpr (by decide +kernel)

/-- Of 67 outstanding puts the first is handed over and then the last, which the thread
rejects. -/
theorem delayed_request_rejected :
    (∀ a ∈ Sample.callsThenServes 67 [0, 66], a.DecryptsOk) ∧
      Along Sample.systemStep System.Reorders Sample.system (Sample.callsThenServes 67 [0, 66]) ∧
      ¬ Along Sample.systemStep (System.AcceptsRequest .checksum Sample.config .assoc) Sample.system
        (Sample.callsThenServes 67 [0, 66]) := by
  refine ⟨Sample.decryptsOk_callsThenServes 67 [0, 66], by decide +kernel, ?_⟩
  have rejected : ((Sample.incoming (((run Sample.systemStep Sample.system
      (Sample.callsThenServes 67 [0])).client.sent.map (·.ciphertext)).getD 66 [])).message
        .checksum Sample.config).all (fun m => !((run Sample.systemStep Sample.system
          (Sample.callsThenServes 67 [0])).server.thread.isSeqValid m.seqOp).2) = true := by
    decide +kernel
  intro accepts
  rw [show [0, 66] = [0] ++ [66] from rfl, Sample.callsThenServes_snoc, along_snoc] at accepts
  obtain ⟨m, call, brings, -, valid, -⟩ := accepts.2
  rw [brings, Option.all_some, valid] at rejected
  cases rejected

end NetworkStack
