import NetworkStack.Process

/-!
# When clients do not interfere

The run of a process is compared with the run from which all operations of client
`b` were taken out, with other IVs. What client `b` can disturb is `enc_key` and the
`connected` flag of a thread that client `a` uses too; `Undisturbed` says that a step
does not. Then client `a` encrypts the same messages under the same keys, accepts the
same responses, and sends as many disconnect messages (`a_undisturbed`).

`Like` relates the two copies of a client: they differ in ciphertexts, and in the key
and the flag unless these are assumed to agree. Every operation keeps it. `Notes` says
what an operation does to the key and the flag.
-/

namespace NetworkStack

open Machine

theorem rel_map {α β : Type} {R : α → α → Prop} {S : β → β → Prop} {f g : α → β}
    {x y : Option α} (related : Option.Rel R x y) (keeps : ∀ a b, R a b → S (f a) (g b)) :
    Option.Rel S (x.map f) (y.map g) := by
  cases related with
  | none => exact .none
  | some both => exact .some (keeps _ _ both)

/-! ## The IV and the outcome of an encryption -/

theorem cipherUpdateLoop_ret_congr (report : Nat → Nat → Option Int) (ks ks' : Nat → UInt8)
    (pos pos' : Nat) (input : Bytes) (fuel call total : Nat) :
    (cipherUpdateLoop report ks pos input fuel call total).ret =
      (cipherUpdateLoop report ks' pos' input fuel call total).ret := by
  induction fuel generalizing call total with
  | zero => rfl
  | succ fuel ih =>
      unfold cipherUpdateLoop
      split
      · split
        · rfl
        · split
          · rfl
          · exact ih _ _
      · rfl

theorem encryptPart_ret_congr (update : Nat → Bool) (ks ks' : Nat → UInt8) (pos pos' : Nat)
    (src : Option Bytes) (len : Nat) :
    (encryptPart update ks pos src len).ret = (encryptPart update ks' pos' src len).ret := by
  cases src with
  | none => rfl
  | some bytes =>
      unfold encryptPart
      dsimp only
      split
      · exact cipherUpdateLoop_ret_congr ..
      · rfl

/-- A request without its ciphertext. -/
def Sent.content (s : Sent) : Slot × SentMessageTag × RdmaEncPayload :=
  (s.slot, s.tag, s.payload)

namespace Client

/-- The IV that `next_iv` is applied to, unless `RAND_bytes` fails. -/
def CallEnv.seeded (env : CallEnv) : Option Iv :=
  if env.iv.word = 0 then env.enc.rand else some env.iv

/-- Two calls that differ in the IV. If `RAND_bytes` is called and fails in one of them, the other
gets no IV either. -/
structure CallEnv.Same (env env' : CallEnv) : Prop where
  wait : env'.wait = env.wait
  loop : env'.loop = env.loop
  enc : env'.enc = { env.enc with rand := env'.enc.rand }
  iv : env'.seeded.isSome = env.seeded.isSome

/-- Whether an encryption succeeds does not depend on its IV. -/
theorem CallEnv.Same.encrypts {env env' : CallEnv} (same : env.Same env') (gcm : AesGcm)
    (encKey : Bytes) (header : RdmaMsgHeader) (payload : RdmaEncPayload) :
    (encryptMessage gcm encKey env'.enc env'.iv header payload).2.isSome =
      (encryptMessage gcm encKey env.enc env.iv header payload).2.isSome := by
  have body : ∀ iv iv' : Iv, (encryptBody gcm encKey env'.enc iv' header payload).isSome =
      (encryptBody gcm encKey env.enc iv header payload).isSome := by
    intro iv iv'
    rw [same.enc]
    unfold encryptBody
    dsimp only
    rw [encryptPart_ret_congr _ _ (gcm.keystream encKey iv.bytes) _ headerLen,
      encryptPart_ret_congr env.enc.valueUpdate _ (gcm.keystream encKey iv.bytes) _ (headerLen +
        (encryptPart env.enc.keyUpdate (gcm.keystream encKey iv.bytes) headerLen payload.key
          header.keyLen.toNat).out.length)]
    repeat' split
    all_goals rfl
  have ivs := same.iv
  unfold CallEnv.seeded at ivs
  unfold encryptMessage
  rw [congrArg EncEnv.prealloc same.enc, congrArg EncEnv.malloc same.enc,
    congrArg EncEnv.ctxNew same.enc]
  dsimp only
  split
  · rfl
  split
  · rfl
  cases seeded : if env.iv.word = 0 then env.enc.rand else some env.iv with
  | none =>
      rw [seeded, Option.isSome_none, Option.isSome_eq_false_iff, Option.isNone_iff_eq_none] at ivs
      rw [ivs]
  | some iv =>
      rw [seeded, Option.isSome_some] at ivs
      obtain ⟨iv', seeded'⟩ := Option.isSome_iff_exists.mp ivs
      rw [seeded']
      exact body _ _

/-! ## Copies of a client -/

/-- The second client is the first one with other ciphertexts in its history, and with another key
or another flag unless these are assumed to be equal. -/
def Like (key flag : Prop) (c c' : Client) : Prop :=
  ∃ sent encKey connected,
    c' = { c with sent := sent, encKey := encKey, connected := connected } ∧
    sent.map Sent.content = c.sent.map Sent.content ∧
    (key → encKey = c.encKey) ∧ (flag → connected = c.connected)

section Like

variable {key flag : Prop} {c c' : Client}

theorem Like.mono {key' flag' : Prop} (like : Like key flag c c') (keys : key' → key)
    (flags : flag' → flag) : Like key' flag' c c' := by
  obtain ⟨sent, encKey, connected, eq, contents, sameKey, sameFlag⟩ := like
  exact ⟨sent, encKey, connected, eq, contents, sameKey ∘ keys, sameFlag ∘ flags⟩

/-- After a `connect` the copies agree on the key. -/
theorem Like.connect (like : Like key flag c c') (encryptionKey : Bytes) (sessionNr : Int) :
    Like True flag (c.connect encryptionKey sessionNr) (c'.connect encryptionKey sessionNr) := by
  obtain ⟨sent, encKey, connected, rfl, contents, keys, flags⟩ := like
  refine ⟨sent, _, _, rfl, contents, fun _ => rfl, ?_⟩
  intro h
  dsimp only [Client.connect]
  rw [flags h]

theorem Like.complete (like : Like key flag c c') (q : PendingRequestQueue)
    (done : List Completion) : Like key flag (c.complete q done) (c'.complete q done) := by
  obtain ⟨sent, encKey, connected, rfl, contents, keys, flags⟩ := like
  refine ⟨sent, encKey, _, rfl, contents, keys, ?_⟩
  intro h
  dsimp only [Client.complete]
  rw [flags h]

theorem Like.queue (like : Like key flag c c') : c'.queue = c.queue := by
  obtain ⟨sent, encKey, connected, rfl, -⟩ := like
  rfl

theorem Like.contents (like : Like key flag c c') :
    c'.sent.map Sent.content = c.sent.map Sent.content := by
  obtain ⟨sent, encKey, connected, rfl, contents, -⟩ := like
  exact contents

theorem Like.sent_length (like : Like key flag c c') : c'.sent.length = c.sent.length := by
  simpa using congrArg List.length like.contents

theorem Like.encKey (like : Like key flag c c') (sameKey : key) : c'.encKey = c.encKey := by
  obtain ⟨sent, encKey, connected, rfl, -, keys, -⟩ := like
  exact keys sameKey

theorem Like.connected (like : Like key flag c c') (sameFlag : flag) :
    c'.connected = c.connected := by
  obtain ⟨sent, encKey, connected, rfl, -, -, flags⟩ := like
  exact flags sameFlag

theorem Like.messageArrived (like : Like key flag c c') (ret : RetVal) (w : UInt64) :
    Like key flag (c.messageArrived ret w) (c'.messageArrived ret w) := by
  unfold Client.messageArrived
  rw [like.queue]
  exact like.complete _ _

theorem Like.deliver (like : Like key flag c c') (sameKey : key) (gcm : AesGcm) (d : Delivery) :
    Like key flag (c.deliver gcm d) (c'.deliver gcm d) := by
  obtain ⟨sent, encKey, connected, rfl, contents, keys, flags⟩ := like
  obtain rfl := keys sameKey
  unfold Client.deliver
  dsimp only
  split
  · exact ⟨sent, _, connected, rfl, contents, keys, flags⟩
  · rename_i p found
    have ran : ∀ mem : Mem, Like key flag { c with pending := c.pending.erase p, mem := mem }
        { c with
          pending := c.pending.erase p
          mem := mem
          sent := sent
          connected := connected } :=
      fun mem => ⟨sent, _, connected, rfl, contents, keys, flags⟩
    unfold Client.decryptContFunc
    dsimp only
    split
    · exact (ran _).messageArrived ..
    split
    · exact ran _
    split
    · exact (ran _).messageArrived ..
    · apply Like.messageArrived
      unfold Client.storeValueLen
      split
      · exact ran _
      · exact ran _

theorem Like.runEventLoop (like : Like key flag c c') (sameKey : key) (gcm : AesGcm)
    (batches : List (List Delivery)) :
    Like key flag (batches.foldl (runEventLoopOnce gcm) c)
      (batches.foldl (runEventLoopOnce gcm) c') := by
  have once : ∀ (ds : List Delivery) {c c' : Client}, Like key flag c c' →
      Like key flag (c.runEventLoopOnce gcm ds) (c'.runEventLoopOnce gcm ds) := by
    intro ds
    induction ds with
    | nil => exact id
    | cons d ds ih => exact fun like => ih (like.deliver sameKey gcm d)
  induction batches generalizing c c' with
  | nil => exact like
  | cons ds batches ih => exact ih (once ds like)

theorem Like.waitForSlot (like : Like key flag c c') (sameKey : key) (gcm : AesGcm) (index : Slot)
    (wait : List (List Delivery)) :
    Option.Rel (Like key flag) (Client.waitForSlot gcm index wait c)
      (Client.waitForSlot gcm index wait c') := by
  induction wait generalizing c c' with
  | nil =>
      unfold Client.waitForSlot
      rw [like.queue]
      split
      · exact .none
      · exact .some like
  | cons batch wait ih =>
      unfold Client.waitForSlot
      rw [like.queue]
      split
      · exact ih (like.runEventLoop sameKey gcm [batch])
      · exact .some like

theorem Like.giveBack (like : Like key flag c c') (s : Submission) :
    Like key flag (c.giveBack s) (c'.giveBack s) := by
  obtain ⟨sent, encKey, connected, rfl, contents, keys, flags⟩ := like
  exact ⟨sent, encKey, connected, rfl, contents, keys, flags⟩

theorem Like.enqueue (like : Like key flag c c') (s : Submission) (ciphertext ciphertext' : Bytes) :
    Like key flag (c.enqueue s ciphertext) (c'.enqueue s ciphertext') := by
  obtain ⟨sent, encKey, connected, rfl, contents, keys, flags⟩ := like
  refine ⟨_, encKey, connected, rfl, ?_, keys, flags⟩
  dsimp only [Client.enqueue]
  rw [List.map_append, List.map_append, contents]
  rfl

/-- What a submission leaves differs in the ciphertext. -/
theorem Like.submit (like : Like key flag c c') (sameKey : key) (gcm : AesGcm)
    {env env' : CallEnv} (same : env.Same env') (s : Submission) (loopIterations : Nat) :
    Option.Rel (fun r r' => Like key flag r.1 r'.1 ∧ r'.2 = r.2)
      (c.submit gcm env s loopIterations) (c'.submit gcm env' s loopIterations) := by
  have slot : c'.nextSlot = c.nextSlot := by rw [nextSlot, like.queue, nextSlot]
  rw [submit_eq, submit_eq, slot, same.wait, same.loop]
  apply rel_map (like.waitForSlot sameKey gcm c.nextSlot env.wait)
  intro c₁ c₂ ready
  have tag : c₂.newTag s = c₁.newTag s := by
    obtain ⟨sent, encKey, connected, rfl, -⟩ := ready
    rfl
  have encrypts := same.encrypts gcm c₁.encKey (c₁.newTag s).header s.payload
  rw [tag, ready.encKey sameKey]
  cases first : (encryptMessage gcm c₁.encKey env.enc env.iv (c₁.newTag s).header s.payload).2 with
  | none =>
      rw [first, Option.isSome_none, Option.isSome_eq_false_iff,
        Option.isNone_iff_eq_none] at encrypts
      rw [encrypts]
      exact ⟨ready.giveBack s, rfl⟩
  | some ciphertext =>
      rw [first, Option.isSome_some] at encrypts
      obtain ⟨ciphertext', second⟩ := Option.isSome_iff_exists.mp encrypts
      rw [second]
      dsimp only
      exact ⟨(ready.enqueue s ciphertext ciphertext').runEventLoop sameKey gcm _, rfl⟩

theorem Like.nextCall (like : Like key flag c c') : Like key flag c.nextCall c'.nextCall := by
  obtain ⟨sent, encKey, connected, rfl, contents, keys, flags⟩ := like
  exact ⟨sent, encKey, connected, rfl, contents, keys, flags⟩

theorem Like.returns (like : Like key flag c c') (ret : Int) :
    Like key flag (c.returns ret).1 (c'.returns ret).1 := by
  obtain ⟨sent, encKey, connected, rfl, contents, keys, flags⟩ := like
  exact ⟨sent, encKey, connected, rfl, contents, keys, flags⟩

theorem Like.call (like : Like key flag c c') (sameKey : key) (gcm : AesGcm)
    {env env' : CallEnv} (same : env.Same env') (k : Call) :
    Option.Rel (Like key flag) ((c.call gcm env k).map Prod.fst)
      ((c'.call gcm env' k).map Prod.fst) := by
  rw [call_eq, call_eq]
  cases k.submission with
  | none => exact .some (like.returns (-1))
  | some s =>
      dsimp only
      have admits : c'.Admits s ↔ c.Admits s := by
        obtain ⟨sent, encKey, connected, rfl, -⟩ := like
        exact Iff.rfl
      rw [if_congr admits rfl rfl]
      split
      · rw [Option.map_map, Option.map_map]
        apply rel_map (like.submit sameKey gcm same s k.loopIterations)
        intro r r' related
        dsimp only [Function.comp_apply]
        rw [related.2]
        exact related.1.returns _
      · exact .none

theorem Like.sendDisconnectMessage (like : Like key flag c c') (sameKey : key) (gcm : AesGcm)
    {env env' : CallEnv} (same : env.Same env') :
    Option.Rel (Like key flag) (c.sendDisconnectMessage gcm env)
      (c'.sendDisconnectMessage gcm env') := by
  apply rel_map (like.submit sameKey gcm same disconnectSubmission 5)
  intro r r' related
  exact related.1.nextCall

/-- The loop of `prepare_disconnect` reads the flag, so the copies have to agree on it. -/
theorem Like.prepareDisconnectLoop (like : Like key flag c c') (sameKey : key) (sameFlag : flag)
    (gcm : AesGcm) {env env' : Nat → CallEnv} (same : ∀ i, (env i).Same (env' i)) (n i : Nat) :
    Option.Rel (Like key flag) (Client.prepareDisconnectLoop gcm env n i c)
      (Client.prepareDisconnectLoop gcm env' n i c') := by
  induction n generalizing i c c' with
  | zero => exact .some like
  | succ n ih =>
      unfold Client.prepareDisconnectLoop
      rw [like.connected sameFlag]
      split
      · have issued := like.sendDisconnectMessage sameKey gcm (same i)
        generalize c.sendDisconnectMessage gcm (env i) = left at issued ⊢
        generalize c'.sendDisconnectMessage gcm (env' i) = right at issued ⊢
        cases issued with
        | none => exact .none
        | some related => exact ih related (i + 1)
      · exact .some like

theorem Like.disconnect (like : Like key flag c c') (sameKey : key) (gcm : AesGcm)
    {env env' : CallEnv} (same : env.Same env') (isConnected : Bool) :
    Option.Rel (Like key flag) (c.disconnect gcm env isConnected)
      (c'.disconnect gcm env' isConnected) := by
  unfold Client.disconnect
  split
  · apply rel_map (like.sendDisconnectMessage sameKey gcm same)
    intro c₁ c₂ related
    dsimp only
    rw [related.queue]
    exact related.complete _ _
  · exact .some like

theorem Like.getD {x y : Option Client} (results : Option.Rel (Like key flag) x y)
    (like : Like key flag c c') : Like key flag (x.getD c) (y.getD c') := by
  cases results with
  | none => exact like
  | some related => exact related

end Like

/-- The same operation with other IVs. -/
inductive Op.Same : Op → Op → Prop
  | connect (encryptionKey : Bytes) (sessionNr : Int) (wait : List (List Delivery)) :
      Op.Same (.connect encryptionKey sessionNr wait) (.connect encryptionKey sessionNr wait)
  | call (k : Call) {env env' : CallEnv} (same : env.Same env') :
      Op.Same (.call k env) (.call k env')
  | runEventLoop (batches : List (List Delivery)) :
      Op.Same (.runEventLoop batches) (.runEventLoop batches)
  | prepareDisconnect {env env' : Nat → CallEnv} (same : ∀ i, (env i).Same (env' i)) :
      Op.Same (.prepareDisconnect env) (.prepareDisconnect env')
  | disconnect {env env' : CallEnv} (same : env.Same env') (isConnected : Bool) :
      Op.Same (.disconnect env isConnected) (.disconnect env' isConnected)

theorem Op.Same.kind {op op' : Op} (same : op.Same op') :
    op'.connects = op.connects ∧ op'.prepares = op.prepares := by
  cases same <;> exact ⟨rfl, rfl⟩

/-- A `connect` with a session has no IV to differ in. -/
theorem Op.Same.of_connects {op op' : Op} (same : op.Same op') (connects : op.connects = true) :
    op' = op ∧ ∃ encryptionKey sessionNr wait, op = .connect encryptionKey sessionNr wait ∧
      ¬ sessionNr < 0 := by
  cases same with
  | connect encryptionKey sessionNr wait =>
      refine ⟨rfl, encryptionKey, sessionNr, wait, rfl, ?_⟩
      simpa [Op.connects] using connects
  | call k same => cases connects
  | runEventLoop batches => cases connects
  | prepareDisconnect same => cases connects
  | disconnect same isConnected => cases connects

/-- Copies of a client stay so under the same operations. -/
theorem Like.exec {key flag : Prop} {c c' : Client} (like : Like key flag c c') (sameKey : key)
    {op op' : Op} (same : op.Same op') (sameFlag : ∀ env, op = .prepareDisconnect env → flag)
    (gcm : AesGcm) : Like key flag (c.exec gcm op) (c'.exec gcm op') := by
  cases same with
  | connect encryptionKey sessionNr wait =>
      have connect := like.connect encryptionKey sessionNr
      unfold Client.exec
      dsimp only
      split
      · exact connect.mono (fun _ => trivial) id
      · obtain ⟨sent, encKey, connected, eq, contents, keys, -⟩ :=
          connect.runEventLoop trivial gcm wait
        rw [eq]
        exact ⟨sent, encKey, true, rfl, contents, fun _ => keys trivial, fun _ => rfl⟩
  | call k same => exact .getD (like.call sameKey gcm same k) like
  | runEventLoop batches => exact like.runEventLoop sameKey gcm batches
  | prepareDisconnect same =>
      exact .getD (like.prepareDisconnectLoop sameKey (sameFlag _ rfl) gcm same _ _) like
  | disconnect same isConnected =>
      have sessionNr : c'.sessionNr = c.sessionNr := by
        obtain ⟨sent, encKey, connected, rfl, -⟩ := like
        rfl
      unfold Client.exec
      dsimp only
      rw [sessionNr]
      exact .getD (like.disconnect sameKey gcm same _) like

/-! ## The key and the flag -/

/-- What happens between two states of a client that has not connected in between: the key stays,
and the flag is cleared by disconnect callbacks and by nothing else. -/
structure Notes (c c' : Client) : Prop where
  encKey : c'.encKey = c.encKey
  invoked : ∃ done, c'.completions = c.completions ++ done ∧
    c'.connected = (c.connected && done.all fun x => x.callback ≠ .disconnect)

section Notes

variable {gcm : AesGcm} {c c' c'' : Client}

theorem Notes.refl (c : Client) : Notes c c := ⟨rfl, [], by simp, by simp⟩

theorem Notes.trans (first : Notes c c') (second : Notes c' c'') : Notes c c'' := by
  obtain ⟨done, completions, connected⟩ := first.invoked
  obtain ⟨more, completions', connected'⟩ := second.invoked
  refine ⟨second.encKey.trans first.encKey, done ++ more, ?_, ?_⟩
  · rw [completions', completions, List.append_assoc]
  · rw [connected', connected, List.all_append, Bool.and_assoc]

theorem notes_complete (c : Client) (q : PendingRequestQueue) (done : List Completion) :
    Notes c (c.complete q done) := ⟨rfl, done, rfl, rfl⟩

/-- A change of anything else. -/
theorem Notes.of_eq (key : c'.encKey = c.encKey) (completions : c'.completions = c.completions)
    (connected : c'.connected = c.connected) : Notes c c' :=
  ⟨key, [], by simp [completions], by simp [connected]⟩

theorem notes_deliver (gcm : AesGcm) (c : Client) (d : Delivery) : Notes c (c.deliver gcm d) := by
  rcases c.deliver_cases gcm d with ⟨-, same⟩ | ⟨p, mem, -, ran⟩
  · rw [same]
    exact Notes.refl c
  · have before : Notes c { c with pending := c.pending.erase p, mem := mem } :=
      Notes.of_eq rfl rfl rfl
    rw [ran]
    rcases settle_cases { c with pending := c.pending.erase p, mem := mem }
      (verdict gcm c.encKey (c.queue.queue p.2) c.mem d) with same | ⟨ret, w, -, -, done⟩
    · rw [same]
      exact before
    · rw [done]
      exact before.trans (notes_complete _ _ _)

theorem notes_polls (gcm : AesGcm) (c : Client) (ds : List Delivery) :
    Notes c (run (step gcm) c (polls ds)) := by
  rw [run_polls]
  induction ds generalizing c with
  | nil => exact Notes.refl c
  | cons d ds ih => exact (notes_deliver gcm c d).trans (ih _)

theorem notes_runEventLoop (gcm : AesGcm) (c : Client) (batches : List (List Delivery)) :
    Notes c (batches.foldl (runEventLoopOnce gcm) c) := by
  rw [foldl_runEventLoopOnce]
  exact notes_polls gcm c _

theorem Notes.submit {env : CallEnv} {s : Submission} {loopIterations : Nat} {ret : Int}
    (submitted : c.submit gcm env s loopIterations = some (c', ret)) : Notes c c' := by
  rw [submit_eq] at submitted
  obtain ⟨ready, waited, result⟩ := Option.map_eq_some_iff.mp submitted
  obtain ⟨ds, eq, -⟩ := waitForSlot_unroll waited
  have before : Notes c ready := by
    rw [eq]
    exact notes_polls gcm c ds
  split at result
  · cases result
    exact before.trans (Notes.of_eq rfl rfl rfl)
  · rename_i ciphertext encrypts
    rw [← (Prod.mk.inj result).1]
    have sent : Notes ready (ready.enqueue s ciphertext) := Notes.of_eq rfl rfl rfl
    exact before.trans (sent.trans (notes_runEventLoop gcm _ _))

theorem Notes.call {env : CallEnv} {k : Call}
    (called : (c.call gcm env k).map Prod.fst = some c') : Notes c c' := by
  obtain ⟨⟨c₁, ret⟩, returned, rfl⟩ := Option.map_eq_some_iff.mp called
  rw [call_eq] at returned
  cases submits : k.submission with
  | none =>
      rw [submits] at returned
      cases returned
      exact Notes.of_eq rfl rfl rfl
  | some s =>
      rw [submits] at returned
      dsimp only at returned
      split at returned
      · obtain ⟨⟨c₂, ret'⟩, submitted, result⟩ := Option.map_eq_some_iff.mp returned
        cases result
        exact (Notes.submit submitted).trans (Notes.of_eq rfl rfl rfl)
      · cases returned

theorem Notes.sendDisconnectMessage {env : CallEnv}
    (issued : c.sendDisconnectMessage gcm env = some c') : Notes c c' := by
  obtain ⟨⟨c₁, ret⟩, submitted, rfl⟩ := Option.map_eq_some_iff.mp issued
  exact (Notes.submit submitted).trans (Notes.of_eq rfl rfl rfl)

theorem Notes.prepareDisconnectLoop {env : Nat → CallEnv} {n i : Nat}
    (prepared : Client.prepareDisconnectLoop gcm env n i c = some c') : Notes c c' := by
  induction n generalizing i c with
  | zero =>
      cases prepared
      exact Notes.refl _
  | succ n ih =>
      unfold Client.prepareDisconnectLoop at prepared
      split at prepared
      · obtain ⟨c₁, issued, rest⟩ := Option.bind_eq_some_iff.mp prepared
        exact (Notes.sendDisconnectMessage issued).trans (ih rest)
      · cases prepared
        exact Notes.refl _

/-- Every operation but `connect`. -/
theorem notes_exec (gcm : AesGcm) (c : Client) {op : Op}
    (other : ∀ encryptionKey sessionNr wait, op ≠ .connect encryptionKey sessionNr wait) :
    Notes c (c.exec gcm op) := by
  have returned : ∀ {x : Option Client}, (∀ c', x = some c' → Notes c c') →
      Notes c (x.getD c) := by
    intro x noted
    cases x with
    | none => exact Notes.refl c
    | some c' => exact noted c' rfl
  cases op with
  | connect encryptionKey sessionNr wait => exact (other _ _ _ rfl).elim
  | call k env =>
      exact returned fun c' called => Notes.call called
  | runEventLoop batches => exact notes_runEventLoop gcm c batches
  | prepareDisconnect env => exact returned fun c' prepared => Notes.prepareDisconnectLoop prepared
  | disconnect env isConnected =>
      apply returned
      intro c' disconnected
      unfold Client.disconnect at disconnected
      split at disconnected
      · obtain ⟨c₁, issued, rfl⟩ := Option.map_eq_some_iff.mp disconnected
        exact (Notes.sendDisconnectMessage issued).trans (notes_complete _ _ _)
      · cases disconnected
        exact Notes.refl c

/-- `connect` sets the key; the flag it sets if there is a session. -/
theorem exec_connect (gcm : AesGcm) (c : Client) (encryptionKey : Bytes) (sessionNr : Int)
    (wait : List (List Delivery)) :
    (c.exec gcm (.connect encryptionKey sessionNr wait)).encKey = encryptionKey ∧
      (c.exec gcm (.connect encryptionKey sessionNr wait)).connected =
        if sessionNr < 0 then c.connected else true := by
  unfold exec
  dsimp only
  split
  · rename_i failed
    exact ⟨rfl, if_pos failed⟩
  · exact ⟨(notes_runEventLoop gcm (c.connect encryptionKey sessionNr) wait).encKey, rfl⟩

/-- Whatever the clients are, after the same `connect` they agree on key and flag. -/
theorem Op.Same.exec_connects {op op' : Op} (same : op.Same op') (connects : op.connects = true)
    (gcm : AesGcm) (c c' : Client) :
    (c'.exec gcm op').encKey = (c.exec gcm op).encKey ∧
      (c'.exec gcm op').connected = (c.exec gcm op).connected := by
  obtain ⟨eq, encryptionKey, sessionNr, wait, op, session⟩ := same.of_connects connects
  rw [eq, op, (exec_connect ..).1, (exec_connect ..).1, (exec_connect ..).2, (exec_connect ..).2,
    if_neg session, if_neg session]
  exact ⟨rfl, rfl⟩

/-- The operation leaves the flag of its thread as it is: no `connect` sets it, and it is clear
already or no disconnect callback is invoked. -/
def KeepsFlag (gcm : AesGcm) (c : Client) : Op → Prop
  | .connect _ sessionNr _ => sessionNr < 0 ∨ c.connected = true
  | op => c.connected = false ∨
      ∀ x ∈ (c.exec gcm op).completions.drop c.completions.length, x.callback ≠ .disconnect

theorem Notes.keepsFlag (notes : Notes c c')
    (keeps : c.connected = false ∨
      ∀ x ∈ c'.completions.drop c.completions.length, x.callback ≠ .disconnect) :
    c'.connected = c.connected := by
  obtain ⟨done, completions, connected⟩ := notes.invoked
  rw [completions, List.drop_left] at keeps
  rw [connected]
  rcases keeps with clear | silent
  · rw [clear, Bool.false_and]
  · have all : (done.all fun x => x.callback ≠ .disconnect) = true := by
      rw [List.all_eq_true]
      intro x member
      exact decide_eq_true (silent x member)
    rw [all, Bool.and_true]

theorem KeepsFlag.exec {op : Op} (keeps : c.KeepsFlag gcm op) :
    (c.exec gcm op).connected = c.connected := by
  cases op with
  | connect encryptionKey sessionNr wait =>
      rw [(exec_connect gcm c encryptionKey sessionNr wait).2]
      rcases keeps with failed | already
      · rw [if_pos failed]
      · rw [already, ite_self]
  | call k env => exact (notes_exec gcm c (by simp)).keepsFlag keeps
  | runEventLoop batches => exact (notes_exec gcm c (by simp)).keepsFlag keeps
  | prepareDisconnect env => exact (notes_exec gcm c (by simp)).keepsFlag keeps
  | disconnect env isConnected => exact (notes_exec gcm c (by simp)).keepsFlag keeps

/-- The flag is set after an operation if it was before, or if the operation is a `connect`. -/
theorem connected_of_exec {op : Op} (connected : (c.exec gcm op).connected = true) :
    c.connected = true ∨ op.connects = true := by
  by_cases connects : op.connects = true
  · exact Or.inr connects
  refine Or.inl ?_
  have noted : ∀ {c' : Client}, Notes c c' → c'.connected = true → c.connected = true := by
    intro c' notes set
    obtain ⟨done, -, eq⟩ := notes.invoked
    rw [eq, Bool.and_eq_true] at set
    exact set.1
  cases op with
  | connect encryptionKey sessionNr wait =>
      have failed : sessionNr < 0 := by simpa [Op.connects] using connects
      rwa [(exec_connect gcm c encryptionKey sessionNr wait).2, if_pos failed] at connected
  | call k env => exact noted (notes_exec gcm c (by simp)) connected
  | runEventLoop batches => exact noted (notes_exec gcm c (by simp)) connected
  | prepareDisconnect env => exact noted (notes_exec gcm c (by simp)) connected
  | disconnect env isConnected => exact noted (notes_exec gcm c (by simp)) connected

end Notes

/-! ## Before the first session -/

/-- No session, and no continuation to run. -/
structure Idle (c : Client) : Prop where
  sessionNr : c.sessionNr < 0
  pending : c.pending = []

/-- What an operation does to an idle client whose flag is clear: the key is not used. -/
def idleExec (c : Client) : Op → Client
  | .connect encryptionKey sessionNr _ => c.connect encryptionKey sessionNr
  | .call k _ => if k.submission.isNone then (c.returns (-1)).1 else c
  | _ => c

theorem runEventLoop_of_no_pending (gcm : AesGcm) {c : Client} (pending : c.pending = [])
    (batches : List (List Delivery)) : batches.foldl (runEventLoopOnce gcm) c = c := by
  have once : ∀ ds : List Delivery, ds.foldl (deliver gcm) c = c := by
    intro ds
    induction ds with
    | nil => rfl
    | cons d ds ih =>
        have nothing : c.deliver gcm d = c := by
          unfold deliver
          rw [pending]
          rfl
        rw [List.foldl_cons, nothing, ih]
  induction batches with
  | nil => rfl
  | cons ds batches ih => rw [List.foldl_cons, runEventLoopOnce, once, ih]

theorem prepareDisconnectLoop_of_clear (gcm : AesGcm) (env : Nat → CallEnv) {c : Client}
    (clear : c.connected = false) (n i : Nat) : prepareDisconnectLoop gcm env n i c = some c := by
  cases n with
  | zero => rfl
  | succ n =>
      unfold prepareDisconnectLoop
      rw [if_neg (by rw [clear]; exact Bool.false_ne_true)]

theorem Idle.exec {c : Client} (idle : c.Idle) {op : Op} (gcm : AesGcm)
    (clear : op.prepares = true → c.connected = false) : c.exec gcm op = c.idleExec op := by
  cases op with
  | connect encryptionKey sessionNr wait =>
      unfold Client.exec idleExec
      dsimp only
      split
      · rfl
      · rename_i session
        have pending : (c.connect encryptionKey sessionNr).pending = [] := idle.pending
        rw [runEventLoop_of_no_pending gcm pending]
        simp only [connect, if_neg session]
  | call k env =>
      unfold Client.exec idleExec
      dsimp only
      rw [call_eq]
      cases k.submission with
      | none => rfl
      | some s =>
          have refused : ¬ c.Admits s := fun admits => absurd admits.1 (by
            have := idle.sessionNr
            omega)
          dsimp only
          rw [if_neg refused]
          rfl
  | runEventLoop batches => exact runEventLoop_of_no_pending gcm idle.pending batches
  | prepareDisconnect env =>
      unfold Client.exec idleExec prepareDisconnect
      dsimp only
      rw [prepareDisconnectLoop_of_clear gcm env (clear rfl), Option.getD_some]
  | disconnect env isConnected =>
      have none : ¬ 0 ≤ c.sessionNr := by
        have := idle.sessionNr
        omega
      unfold Client.exec idleExec Client.disconnect
      simp [none]

/-- Idle clients stay copies of each other, whatever their keys are. -/
theorem Like.idleExec {key flag : Prop} {c c' : Client} (like : Like key flag c c') {op op' : Op}
    (same : op.Same op') : Like key flag (c.idleExec op) (c'.idleExec op') := by
  cases same with
  | connect encryptionKey sessionNr wait =>
      exact (like.connect encryptionKey sessionNr).mono (fun _ => trivial) id
  | call k same =>
      unfold Client.idleExec
      dsimp only
      split
      · exact like.returns (-1)
      · exact like
  | runEventLoop batches => exact like
  | prepareDisconnect same => exact like
  | disconnect same isConnected => exact like

/-- Nothing is sent, and without a session the client stays idle. -/
theorem Idle.idleExec {c : Client} (idle : c.Idle) (op : Op) :
    (c.idleExec op).sent = c.sent ∧ (op.connects = false → (c.idleExec op).Idle) := by
  cases op with
  | connect encryptionKey sessionNr wait =>
      refine ⟨rfl, ?_⟩
      intro none
      have failed : sessionNr < 0 := by simpa [Op.connects] using none
      exact ⟨failed, idle.pending⟩
  | call k env =>
      unfold Client.idleExec
      dsimp only
      split
      · exact ⟨rfl, fun _ => ⟨idle.sessionNr, idle.pending⟩⟩
      · exact ⟨rfl, fun _ => idle⟩
  | runEventLoop batches => exact ⟨rfl, fun _ => idle⟩
  | prepareDisconnect env => exact ⟨rfl, fun _ => idle⟩
  | disconnect env isConnected => exact ⟨rfl, fun _ => idle⟩

end Client

/-! ## Two processes -/

/-- The same step with other IVs. -/
structure Step.Same (s s' : Step) : Prop where
  who : s'.who = s.who
  thread : s'.thread = s.thread
  op : s.op.Same s'.op

namespace Process

/-- The condition on a step. Client `a` prepares to disconnect on a thread on which it has
connected, or that nobody has. Once `a` has connected, `b` connects with the key that `enc_key`
holds, and leaves the flags of the threads on which `a` has connected. -/
def Undisturbed (gcm : AesGcm) (p : Process) (s : Step) : Prop :=
  match s.who with
  | .a => s.op.prepares = true → s.thread ∈ (p.party .a).threads ∨ p.connected s.thread = false
  | .b =>
      (∀ encryptionKey sessionNr wait, s.op = .connect encryptionKey sessionNr wait →
        (p.party .a).threads = [] ∨ encryptionKey = p.encKey) ∧
      (s.thread ∈ (p.party .a).threads → (p.load .b s.thread).KeepsFlag gcm s.op)

/-- The two processes agree on client `a`. They may differ in `enc_key` while `a` has never
connected, and in the flags of threads on which it has not. -/
structure Alike (p q : Process) : Prop where
  client : Client.Like False False (p.party .a).client (q.party .a).client
  messages : (q.party .a).messages = (p.party .a).messages
  disconnects : (q.party .a).disconnects = (p.party .a).disconnects
  threads : (q.party .a).threads = (p.party .a).threads
  key : (p.party .a).threads ≠ [] → q.encKey = p.encKey
  flags : ∀ t ∈ (p.party .a).threads, q.connected t = p.connected t
  own : ∀ t, q.connected t = true → t ∈ (p.party .a).threads
  idle : (p.party .a).threads = [] → (p.party .a).client.Idle

section Alike

variable {gcm : AesGcm} {p q : Process}

theorem Alike.load (alike : Alike p q) (t : Nat) :
    Client.Like (q.encKey = p.encKey) (q.connected t = p.connected t) (p.load .a t)
      (q.load .a t) := by
  obtain ⟨sent, encKey, connected, eq, contents, -⟩ := alike.client
  refine ⟨sent, q.encKey, q.connected t, ?_, contents, id, id⟩
  unfold Process.load
  rw [eq]

theorem step_party_self (gcm : AesGcm) (p : Process) {s : Step} {who : Who} (eq : s.who = who) :
    (p.step gcm s).party who =
      (p.party who).record s.thread s.op ((p.load who s.thread).exec gcm s.op) := by
  subst eq
  exact Function.update_self ..

theorem step_party_other (gcm : AesGcm) (p : Process) {s : Step} {who : Who} (ne : who ≠ s.who) :
    (p.step gcm s).party who = p.party who :=
  Function.update_of_ne ne ..

/-- A step of client `b` changes nothing that client `a` depends on. -/
theorem Alike.stutters (alike : Alike p q) {s : Step} (undisturbed : p.Undisturbed gcm s)
    (other : s.who = .b) : Alike (p.step gcm s) q := by
  unfold Undisturbed at undisturbed
  rw [other] at undisturbed
  rcases undisturbed with ⟨keeps, flag⟩
  have party : (p.step gcm s).party .a = p.party .a := by
    apply step_party_other
    rw [other]
    nofun
  have key : (p.party .a).threads ≠ [] → (p.step gcm s).encKey = p.encKey := by
    intro connected
    change ((p.load s.who s.thread).exec gcm s.op).encKey = p.encKey
    by_cases connects : ∃ encryptionKey sessionNr wait,
        s.op = .connect encryptionKey sessionNr wait
    · obtain ⟨encryptionKey, sessionNr, wait, eq⟩ := connects
      rw [eq, (Client.exec_connect ..).1]
      exact (keeps _ _ _ eq).resolve_left connected
    · exact (Client.notes_exec gcm _ fun encryptionKey sessionNr wait eq =>
        connects ⟨encryptionKey, sessionNr, wait, eq⟩).encKey
  have flags : ∀ t ∈ (p.party .a).threads, (p.step gcm s).connected t = p.connected t := by
    intro t member
    change Function.update p.connected s.thread _ t = p.connected t
    by_cases here : t = s.thread
    · subst here
      rw [Function.update_self, other]
      exact (flag member).exec
    · rw [Function.update_of_ne here]
  constructor
  · rw [party]
    exact alike.client
  · rw [party]
    exact alike.messages
  · rw [party]
    exact alike.disconnects
  · rw [party]
    exact alike.threads
  · rw [party]
    intro connected
    rw [key connected]
    exact alike.key connected
  · rw [party]
    intro t member
    rw [flags t member]
    exact alike.flags t member
  · rw [party]
    exact alike.own
  · rw [party]
    exact alike.idle

theorem mem_record_threads {party : Party} {thread t : Nat} {op : Client.Op} {c : Client} :
    t ∈ (party.record thread op c).threads ↔
      op.connects = true ∧ t = thread ∨ t ∈ party.threads := by
  unfold Party.record
  dsimp only
  split
  · rename_i connects
    simp [connects]
  · rename_i other
    simp [other]

/-- Messages with the same content are recorded in the same way. -/
theorem record_messages {sent sent' : List Sent} (contents : sent'.map Sent.content =
    sent.map Sent.content) (n : Nat) (key : Bytes) :
    (sent'.drop n).map (fun s => (⟨s.tag.header, s.payload, key⟩ : Plaintext)) =
      (sent.drop n).map fun s => ⟨s.tag.header, s.payload, key⟩ := by
  have through : ∀ l : List Sent, l.map (fun s => (⟨s.tag.header, s.payload, key⟩ : Plaintext)) =
      (l.map Sent.content).map fun x => ⟨x.2.1.header, x.2.2, key⟩ := by
    intro l
    rw [List.map_map]
    rfl
  have drops : (sent'.drop n).map Sent.content = (sent.drop n).map Sent.content := by
    rw [List.map_drop, List.map_drop, contents]
  rw [through, drops, ← through]

/-- What a step of client `a` has to come to in the two processes, for them to stay alike. -/
structure Outcome (p : Process) (t : Nat) (connects : Bool) (c c' : Client) : Prop where
  client : Client.Like False False c c'
  key : connects = true ∨ (p.party .a).threads ≠ [] → c'.encKey = c.encKey
  sends : c'.encKey = c.encKey ∨ c.sent.length = (p.party .a).client.sent.length
  flag : connects = true ∨ t ∈ (p.party .a).threads → c'.connected = c.connected
  own : c'.connected = true → connects = true ∨ t ∈ (p.party .a).threads
  idle : connects = false → (p.party .a).threads = [] → c.Idle

section Outcome

variable {t : Nat} {op op' : Client.Op} {c c' : Client}

/-- The histories of client `a` stay equal. -/
theorem Alike.record (alike : Alike p q) (same : op.Same op')
    (outcome : p.Outcome t op.connects c c') :
    ((q.party .a).record t op' c').messages = ((p.party .a).record t op c).messages ∧
      ((q.party .a).record t op' c').disconnects = ((p.party .a).record t op c).disconnects ∧
      ((q.party .a).record t op' c').threads = ((p.party .a).record t op c).threads := by
  obtain ⟨connects, prepares⟩ := same.kind
  have before := alike.client.sent_length
  have after := outcome.client.sent_length
  refine ⟨?_, ?_, ?_⟩
  · unfold Party.record
    dsimp only
    rw [alike.messages, before]
    congr 1
    rcases outcome.sends with key | none
    · rw [key]
      exact record_messages outcome.client.contents _ _
    · rw [List.drop_eq_nil_of_le (Nat.le_of_eq none),
        List.drop_eq_nil_of_le (Nat.le_of_eq (after.trans none))]
      rfl
  · unfold Party.record
    dsimp only
    rw [prepares, alike.disconnects, List.length_drop, List.length_drop, before, after]
  · unfold Party.record
    dsimp only
    rw [connects, alike.threads]

/-- The processes agree on the flags of the threads on which client `a` has connected. -/
theorem Alike.flags_update (alike : Alike p q) (outcome : p.Outcome t op.connects c c') :
    ∀ u ∈ ((p.party .a).record t op c).threads,
      Function.update q.connected t c'.connected u =
        Function.update p.connected t c.connected u := by
  intro u member
  rw [mem_record_threads] at member
  by_cases here : u = t
  · subst here
    rw [Function.update_self, Function.update_self]
    exact outcome.flag (member.imp And.left id)
  · rw [Function.update_of_ne here, Function.update_of_ne here]
    exact alike.flags u (member.resolve_left fun both => here both.2)

/-- In the process without client `b` nobody else sets a flag. -/
theorem Alike.own_update (alike : Alike p q) (outcome : p.Outcome t op.connects c c') {u : Nat}
    (set : Function.update q.connected t c'.connected u = true) :
    u ∈ ((p.party .a).record t op c).threads := by
  rw [mem_record_threads]
  by_cases here : u = t
  · subst here
    rw [Function.update_self] at set
    exact (outcome.own set).imp (fun connects => ⟨connects, rfl⟩) id
  · rw [Function.update_of_ne here] at set
    exact Or.inr (alike.own u set)

/-- A thread is on record only if client `a` has connected. -/
theorem connected_of_record (some : ((p.party .a).record t op c).threads ≠ []) :
    op.connects = true ∨ (p.party .a).threads ≠ [] := by
  obtain ⟨u, member⟩ := List.exists_mem_of_ne_nil _ some
  rw [mem_record_threads] at member
  rcases member with ⟨connects, -⟩ | member
  · exact Or.inl connects
  · exact Or.inr (List.ne_nil_of_mem member)

theorem Outcome.idle_of_record (outcome : p.Outcome t op.connects c c')
    (none : ((p.party .a).record t op c).threads = []) : c.Idle := by
  unfold Party.record at none
  dsimp only at none
  split at none
  · cases none
  · rename_i other
    exact outcome.idle (by simpa using other) none

end Outcome

theorem Alike.of_outcome (alike : Alike p q) {s s' : Step} (same : s.Same s') (who : s.who = .a)
    (outcome : p.Outcome s.thread s.op.connects ((p.load .a s.thread).exec gcm s.op)
      ((q.load .a s.thread).exec gcm s'.op)) :
    Alike (p.step gcm s) (q.step gcm s') := by
  have left := step_party_self gcm p who
  have right := step_party_self gcm q (same.who.trans who)
  rw [same.thread] at right
  obtain ⟨messages, disconnects, threads⟩ := alike.record same.op outcome
  -- The rest of a step, for client `a` in both processes.
  have keys : (p.step gcm s).encKey = ((p.load .a s.thread).exec gcm s.op).encKey ∧
      (q.step gcm s').encKey = ((q.load .a s.thread).exec gcm s'.op).encKey := by
    unfold step
    rw [same.who, who, same.thread]
    exact ⟨rfl, rfl⟩
  have flags : (p.step gcm s).connected = Function.update p.connected s.thread
        ((p.load .a s.thread).exec gcm s.op).connected ∧
      (q.step gcm s').connected = Function.update q.connected s.thread
        ((q.load .a s.thread).exec gcm s'.op).connected := by
    unfold step
    rw [same.who, who, same.thread]
    exact ⟨rfl, rfl⟩
  constructor
  · rw [left, right]
    exact outcome.client
  · rw [left, right]
    exact messages
  · rw [left, right]
    exact disconnects
  · rw [left, right]
    exact threads
  · rw [left, keys.1, keys.2]
    exact fun some => outcome.key (connected_of_record some)
  · rw [left, flags.1, flags.2]
    exact alike.flags_update outcome
  · rw [left, flags.2]
    exact fun u set => alike.own_update outcome set
  · rw [left]
    exact outcome.idle_of_record

/-- Where client `a` reads the flag, the processes agree on it. -/
theorem Alike.flag_of_prepares (alike : Alike p q) {s : Step} (undisturbed : p.Undisturbed gcm s)
    (who : s.who = .a) (prepares : s.op.prepares = true) :
    q.connected s.thread = p.connected s.thread := by
  unfold Undisturbed at undisturbed
  rw [who] at undisturbed
  by_cases member : s.thread ∈ (p.party .a).threads
  · exact alike.flags _ member
  · have clear := (undisturbed prepares).resolve_left member
    have clear' : q.connected s.thread = false := by
      by_contra set
      exact member (alike.own _ (by simpa using set))
    rw [clear, clear']

theorem Alike.own_exec (alike : Alike p q) {s s' : Step} (same : s.Same s')
    (set : ((q.load .a s.thread).exec gcm s'.op).connected = true) :
    s.op.connects = true ∨ s.thread ∈ (p.party .a).threads := by
  rcases Client.connected_of_exec set with was | connects
  · exact Or.inr (alike.own _ was)
  · rw [same.op.kind.1] at connects
    exact Or.inl connects

/-- A step of client `a` once it has connected. -/
theorem Alike.outcome_of_connected (alike : Alike p q) {s s' : Step}
    (undisturbed : p.Undisturbed gcm s) (same : s.Same s') (who : s.who = .a)
    (connected : (p.party .a).threads ≠ []) :
    p.Outcome s.thread s.op.connects ((p.load .a s.thread).exec gcm s.op)
      ((q.load .a s.thread).exec gcm s'.op) := by
  have key := alike.key connected
  have like := (alike.load s.thread).exec key same.op
    (fun env eq => alike.flag_of_prepares undisturbed who (by rw [eq]; rfl)) gcm
  constructor
  · exact like.mono False.elim False.elim
  · exact fun _ => like.encKey key
  · exact Or.inl (like.encKey key)
  · rintro (connects | member)
    · exact (same.op.exec_connects connects gcm _ _).2
    · exact like.connected (alike.flags _ member)
  · exact alike.own_exec same
  · exact fun _ none => absurd none connected

/-- A step of client `a` before it has connected: the key is not used. -/
theorem Alike.outcome_of_idle (alike : Alike p q) {s s' : Step}
    (undisturbed : p.Undisturbed gcm s) (same : s.Same s') (who : s.who = .a)
    (none : (p.party .a).threads = []) :
    p.Outcome s.thread s.op.connects ((p.load .a s.thread).exec gcm s.op)
      ((q.load .a s.thread).exec gcm s'.op) := by
  have own : ((q.load .a s.thread).exec gcm s'.op).connected = true →
      s.op.connects = true ∨ s.thread ∈ (p.party .a).threads := alike.own_exec same
  have connecting := fun connects => same.op.exec_connects connects gcm (p.load .a s.thread)
    (q.load .a s.thread)
  have load := alike.load s.thread
  have idle : (p.load .a s.thread).Idle :=
    ⟨(alike.idle none).sessionNr, (alike.idle none).pending⟩
  have idle' : (q.load .a s.thread).Idle := by
    obtain ⟨sent, encKey, connected, eq, -⟩ := load
    rw [eq]
    exact ⟨idle.sessionNr, idle.pending⟩
  have clear' : q.connected s.thread = false := by
    by_contra set
    have member := alike.own s.thread (by simpa using set)
    rw [none] at member
    cases member
  have clear : s.op.prepares = true → p.connected s.thread = false := by
    intro prepares
    rw [← alike.flag_of_prepares undisturbed who prepares, clear']
  rw [idle.exec gcm clear, idle'.exec gcm fun _ => clear'] at *
  obtain ⟨sends, stays⟩ := idle.idleExec s.op
  constructor
  · exact (load.idleExec same.op).mono False.elim False.elim
  · rintro (connects | connected)
    · exact (connecting connects).1
    · exact absurd none connected
  · exact Or.inr (congrArg List.length sends)
  · rintro (connects | member)
    · exact (connecting connects).2
    · rw [none] at member
      cases member
  · exact own
  · exact fun other _ => stays other

/-- A step of client `a` keeps the two processes alike. -/
theorem Alike.moves (alike : Alike p q) {s s' : Step} (undisturbed : p.Undisturbed gcm s)
    (same : s.Same s') (who : s.who = .a) : Alike (p.step gcm s) (q.step gcm s') := by
  apply alike.of_outcome same who
  by_cases none : (p.party .a).threads = []
  · exact alike.outcome_of_idle undisturbed same who none
  · exact alike.outcome_of_connected undisturbed same who none

/-- The response is accepted in both processes or in neither. -/
theorem Alike.accepts_iff (alike : Alike p q) (n : Nat) (k : Slot) (d : Delivery) :
    q.Accepts gcm .a n k d ↔ p.Accepts gcm .a n k d := by
  obtain ⟨sent, encKey, connected, eq, -⟩ := alike.client
  unfold Accepts
  rw [eq]
  refine and_congr_right ?_
  intro pending
  have some : (p.party .a).threads ≠ [] := by
    intro none
    rw [(alike.idle none).pending] at pending
    cases pending
  rw [alike.key some]
  exact Iff.rfl

theorem alike_start (a b : Client.Setup) : Alike (start a b) (start a b) where
  client := ⟨_, _, _, rfl, rfl, fun _ => rfl, fun _ => rfl⟩
  messages := rfl
  disconnects := rfl
  threads := rfl
  key _ := rfl
  flags _ _ := rfl
  own t set := by cases set
  idle _ := ⟨Int.negSucc_lt_zero 0, rfl⟩

end Alike

/-- In every run whose steps leave client `a` undisturbed, it encrypts the same messages under the
same keys, sends as many messages in each `prepare_disconnect`, and accepts the same responses as
in the run without the operations of client `b`, whatever the IVs are. -/
theorem a_undisturbed (gcm : AesGcm) (a b : Client.Setup) {steps others : List Step}
    (undisturbed : Along (step gcm) (Undisturbed gcm) (start a b) steps)
    (same : List.Forall₂ Step.Same (steps.filter fun s => !decide (s.who = .b)) others) :
    let p := run (step gcm) (start a b) steps
    let q := run (step gcm) (start a b) others
    (q.party .a).messages = (p.party .a).messages ∧
      (q.party .a).disconnects = (p.party .a).disconnects ∧
      ∀ n k d, q.Accepts gcm .a n k d ↔ p.Accepts gcm .a n k d := by
  have alike : Alike (run (step gcm) (start a b) steps) (run (step gcm) (start a b) others) := by
    refine run_unwinding ?_ ?_ (alike_start a b) undisturbed same
    · intro p q s alike undisturbed other
      exact alike.stutters undisturbed (of_decide_eq_true other)
    · intro p q s s' alike undisturbed mine same
      have who : s.who = .a := by
        have ne := of_decide_eq_false mine
        cases h : s.who with
        | a => rfl
        | b => exact absurd h ne
      exact alike.moves undisturbed same who
  exact ⟨alike.messages, alike.disconnects, fun n k d => alike.accepts_iff n k d⟩

end Process

/-! ## Two clients with two keys -/

namespace Sample

/-- Client `a` connects on thread 0 with a key of fives. -/
def connectA : Step := ⟨.a, 0, .connect (List.replicate 16 5) 0 []⟩

/-- Client `b` connects on thread 1 with a key of sixes. -/
def connectB : Step := ⟨.b, 1, .connect (List.replicate 16 6) 1 []⟩

/-- Client `b` has an ID of its own. -/
def setupB : Client.Setup := { setup 20 with id := 8 }

def putA : Step := ⟨.a, 0, .call (putCall 42) (.idle (.ofNat 1) enc)⟩

theorem connectA_same : connectA.Same connectA := ⟨rfl, rfl, .connect ..⟩

theorem putA_same : putA.Same putA := ⟨rfl, rfl, .call _ ⟨rfl, rfl, rfl, rfl⟩⟩

end Sample

/-- Client `b` connects before client `a` does. -/
theorem earlier_connect_undisturbed :
    let steps := [Sample.connectB, Sample.connectA, Sample.putA]
    let p := run (Process.step .checksum) (.start (Sample.setup 10) Sample.setupB) steps
    let q := run (Process.step .checksum) (.start (Sample.setup 10) Sample.setupB)
      [Sample.connectA, Sample.putA]
    (q.party .a).messages = (p.party .a).messages ∧
      (p.party .a).messages.map Plaintext.key = [List.replicate 16 5] := by
  have undisturbed : Along (Process.step .checksum) (Process.Undisturbed .checksum)
      (.start (Sample.setup 10) Sample.setupB)
      [Sample.connectB, Sample.connectA, Sample.putA] := by
    refine ⟨⟨fun _ _ _ _ => Or.inl rfl, ?_⟩, ?_, ?_, trivial⟩
    · intro member
      cases member
    · intro prepares
      cases prepares
    · intro prepares
      cases prepares
  have same : List.Forall₂ Step.Same ([Sample.connectB, Sample.connectA, Sample.putA].filter
      fun s => !decide (s.who = .b)) [Sample.connectA, Sample.putA] :=
    .cons Sample.connectA_same (.cons Sample.putA_same .nil)
  refine ⟨(Process.a_undisturbed .checksum _ _ undisturbed same).1, ?_⟩
  decide +kernel

/-- Client `b` connects after client `a` did: the next message of `a` is encrypted with the key of
`b`. -/
theorem later_connect_changes_key :
    let steps := [Sample.connectA, Sample.connectB, Sample.putA]
    let p := run (Process.step .checksum) (.start (Sample.setup 10) Sample.setupB) steps
    let q := run (Process.step .checksum) (.start (Sample.setup 10) Sample.setupB)
      [Sample.connectA, Sample.putA]
    List.Forall₂ Step.Same (steps.filter fun s => !decide (s.who = .b))
        [Sample.connectA, Sample.putA] ∧
      (p.party .a).messages.map Plaintext.key = [List.replicate 16 6] ∧
      (q.party .a).messages.map Plaintext.key = [List.replicate 16 5] ∧
      (q.party .a).messages ≠ (p.party .a).messages := by
  intro steps p q
  have left : (p.party .a).messages.map Plaintext.key = [List.replicate 16 6] := by decide +kernel
  have right : (q.party .a).messages.map Plaintext.key = [List.replicate 16 5] := by decide +kernel
  refine ⟨.cons Sample.connectA_same (.cons Sample.putA_same .nil), left, right, ?_⟩
  intro same
  rw [same, left] at right
  cases right

end NetworkStack
