import NetworkStack.OneSided.MapRefinement

/-!
# A store that several endpoints share

The server and its clients on one store, each with `infos` of its own: the keys
and the offsets are the same, but each endpoint counts the sequence numbers of
its own puts only (`rdma_put` increments, `server_put` does not). Their calls
interleave in any order and no library call fails. A block always carries the
value of the latest put to its entry, whoever made it, with the sequence number
of that endpoint; so a get never returns an older value, and it is refused
exactly when the reader's sequence number differs from the one of the latest
writer.
-/

namespace NetworkStack.OneSided

open ByteStream FlatMemory Machine

/-! ## Calls of several endpoints -/

/-- The store and the endpoints, whose field `store` stands for it while they act. -/
structure SharedStore : Type where
  store : Memory
  parties : Nat → Instance

/-- The endpoint with the store as it is now. -/
def SharedStore.party (s : SharedStore) (p : Nat) : Instance :=
  { s.parties p with endpoint := { (s.parties p).endpoint with store := s.store } }

/-- A call of the endpoint `p`. -/
def SharedStore.invoke (gcm : AesGcm) (role : Nat → Role) (n : Nat) (s : SharedStore)
    (c : Nat × Call) : SharedStore × Answer :=
  let r := (s.party c.1).invoke gcm (role c.1) n c.2
  (⟨r.1.endpoint.store, Function.update s.parties c.1 r.1⟩, r.2)

/-- The sequence number that the next put is encrypted with. -/
def Role.advance : Role → UInt64 → UInt64
  | .client, seq => seq + 1
  | .server, seq => seq

/-! ## What the calls are answered -/

/-- The call puts a value into the entry `j`. -/
def Call.isPutTo (j : Nat) : Call → Bool
  | .put k _ _ _ => k = j
  | .get _ _ _ _ => false

/-- The sequence number that the endpoint `p` has for an entry after the calls. -/
def seqAfter (role : Nat → Role) (first : Nat → Nat → UInt64) (calls : List (Nat × Call))
    (p j : Nat) : UInt64 :=
  match role p with
  | .client => first p j + UInt64.ofNat (calls.countP fun c => c.1 = p && c.2.isPutTo j)
  | .server => first p j

/-- The endpoint that put the latest value into an entry, and the value. -/
def latestWrite (n : Nat) (calls : List (Nat × Call)) (j : Nat) : Option (Nat × Bytes) :=
  (calls.filterMap fun c => (c.2.putTo n j).map fun value => (c.1, value)).getLast?

/-- The sequence number and the value in the block of an entry after the calls: those of the
latest put, or those it was set up with. -/
def heldAfter (role : Nat → Role) (first : Nat → Nat → UInt64) (setUp : Nat → UInt64 × Bytes)
    (n : Nat) (calls : List (Nat × Call)) (j : Nat) : UInt64 × Bytes :=
  match latestWrite n calls j with
  | none => setUp j
  | some (q, value) => (seqAfter role first calls q j, value)

/-- The answer that the endpoint `p` gets. -/
def sharedAnswer (held : Nat → UInt64 × Bytes) (seq : Nat → UInt64) : Call → Answer
  | .put _ _ _ _ => .put 0
  | .get j _ _ _ => .get (if (held j).1 = seq j then some (held j).2 else none)

section Histories

variable (role : Nat → Role) (first : Nat → Nat → UInt64) (setUp : Nat → UInt64 × Bytes) (n : Nat)
  (calls : List (Nat × Call))

theorem seqAfter_nil (p j : Nat) : seqAfter role first [] p j = first p j := by
  unfold seqAfter
  cases role p with
  | client => exact UInt64.add_zero _
  | server => rfl

/-- A put to an entry advances the sequence number of its endpoint. -/
theorem seqAfter_put (p j : Nat) (t : TransferEnv) (e : EncryptEnv) (newValue : Memory) :
    seqAfter role first (calls ++ [(p, .put j t e newValue)]) p j =
      (role p).advance (seqAfter role first calls p j) := by
  unfold seqAfter
  cases role p with
  | server => rfl
  | client =>
      dsimp only [Role.advance]
      rw [List.countP_append, List.countP_singleton, if_pos (by simp [Call.isPutTo]),
        UInt64.ofNat_add, ← UInt64.add_assoc]
      rfl

/-- No other sequence number changes. -/
theorem seqAfter_snoc {c : Nat × Call} {p j : Nat}
    (other : (decide (c.1 = p) && c.2.isPutTo j) = false) :
    seqAfter role first (calls ++ [c]) p j = seqAfter role first calls p j := by
  unfold seqAfter
  rw [List.countP_append, List.countP_singleton, if_neg (by rw [other]; exact Bool.false_ne_true),
    Nat.add_zero]

theorem seqAfter_put_eq (p j : Nat) (t : TransferEnv) (e : EncryptEnv) (newValue : Memory) :
    seqAfter role first (calls ++ [(p, .put j t e newValue)]) =
      Function.update (seqAfter role first calls) p
        (Function.update (seqAfter role first calls p) j
          ((role p).advance (seqAfter role first calls p j))) := by
  funext q k
  by_cases same : q = p
  · subst same
    rw [Function.update_self]
    by_cases sameEntry : k = j
    · subst sameEntry
      rw [Function.update_self, seqAfter_put]
    · rw [Function.update_of_ne sameEntry, seqAfter_snoc]
      simp [Call.isPutTo, Ne.symm sameEntry]
  · rw [Function.update_of_ne same, seqAfter_snoc]
    simp [Ne.symm same]

/-- A call that puts nothing into an entry leaves what its block holds. -/
theorem heldAfter_snoc {c : Nat × Call} {k : Nat} (other : c.2.isPutTo k = false) :
    heldAfter role first setUp n (calls ++ [c]) k = heldAfter role first setUp n calls k := by
  have nothing : c.2.putTo n k = none := by
    cases call : c.2 with
    | put j t e newValue =>
        rw [call] at other
        exact if_neg (of_decide_eq_false other)
    | get j t e buffer => rfl
  have latest : latestWrite n (calls ++ [c]) k = latestWrite n calls k := by
    simp [latestWrite, nothing]
  have kept : ∀ q, seqAfter role first (calls ++ [c]) q k = seqAfter role first calls q k :=
    fun q => seqAfter_snoc role first calls (by rw [other, Bool.and_false])
  unfold heldAfter
  rw [latest]
  simp only [kept]

theorem heldAfter_put (p j : Nat) (t : TransferEnv) (e : EncryptEnv) (newValue : Memory) :
    heldAfter role first setUp n (calls ++ [(p, .put j t e newValue)]) =
      Function.update (heldAfter role first setUp n calls) j
        ((role p).advance (seqAfter role first calls p j), read newValue 0 n) := by
  funext k
  by_cases same : k = j
  · subst same
    have latest : latestWrite n (calls ++ [(p, .put k t e newValue)]) k =
        some (p, read newValue 0 n) := by
      simp [latestWrite, Call.putTo]
    unfold heldAfter
    rw [latest, Function.update_self]
    dsimp only
    rw [seqAfter_put]
  · rw [Function.update_of_ne same, heldAfter_snoc]
    exact decide_eq_false (Ne.symm same)

end Histories

/-! ## The invariant -/

/-- The block of each entry opens to a sequence number and a value. -/
def Layout.Holds (l : Layout) (gcm : AesGcm) (infos : Nat → LocalKeyInfo) (store : Memory)
    (held : Nat → UInt64 × Bytes) : Prop :=
  ∀ j, j < l.num →
    openBlock gcm l.encKey (infos j).aad (read store (j * l.size) l.size) = some (held j)

/-- The endpoints have the keys and the offsets of the store and the sequence numbers `seq`, and
the blocks open to what the entries hold. -/
structure Layout.Shares (l : Layout) (gcm : AesGcm) (infos : Nat → LocalKeyInfo) (s : SharedStore)
    (seq : Nat → Nat → UInt64) (held : Nat → UInt64 × Bytes) : Prop where
  region : ∀ p, (s.parties p).endpoint.ep.memoryRegion = true
  configures : ∀ p, l.Configures (s.parties p).endpoint.ep
  places : l.Places infos
  knows : ∀ p j, j < l.num → (s.parties p).infos j = { infos j with sequenceNumber := seq p j }
  holds : l.Holds gcm infos s.store held
  lengths : ∀ j, j < l.num → (held j).2.length = l.n

section Steps

variable {gcm : AesGcm} {l : Layout}

/-- The sequence number after a put that succeeds. -/
theorem Role.put_advances {role : Role} {t : TransferEnv} {e : EncryptEnv} {s : Endpoint}
    {info : LocalKeyInfo} {newValue : Memory} (ok : (role.put gcm t e s info newValue).2.2 = 0) :
    (role.put gcm t e s info newValue).2.1 =
      { info with sequenceNumber := role.advance info.sequenceNumber } := by
  cases role with
  | server => rfl
  | client =>
      unfold Role.put Endpoint.rdmaPut at ok ⊢
      dsimp only at ok ⊢
      split at ok
      · cases ok
      · rename_i written
        rw [if_neg written]
        rfl

/-- A block that opens to another sequence number is refused. -/
theorem Endpoint.decrypted_of_other {ep : EndpointData} {encKey ciphertext : Bytes}
    {info : LocalKeyInfo} (e : DecryptEnv) (buffer : Option Nat) (mem : Mem)
    (key : ep.encKey = some encKey) {seq : UInt64} {value : Bytes}
    (opens : openBlock gcm encKey info.aad ciphertext = some (seq, value))
    (other : seq ≠ info.sequenceNumber) :
    (Endpoint.decrypted gcm ep e ciphertext info (callerPtr buffer) mem).1 = .null := by
  unfold Endpoint.decrypted
  dsimp only
  rcases decryptKeyValueData_ret gcm ep e ciphertext info ⟨0, callerPtr buffer⟩ mem with
    done | failed
  · obtain ⟨v, opens', -⟩ := decryptKeyValueData_ok key rfl done
    rw [opens] at opens'
    exact (other (Prod.mk.inj (Option.some.inj opens')).1).elim
  · rw [if_pos (by omega)]

/-- A get of a block that opens to another sequence number returns NULL. -/
theorem Role.get_refused {role : Role} {t : TransferEnv} (e : DecryptEnv) {s : Endpoint}
    {info : LocalKeyInfo} (buffer : Option Nat) (mem : Mem) (region : s.ep.memoryRegion = true)
    (c : l.Configures s.ep) (transfer : role = .client → t.Succeeds .read) {seq : UInt64}
    {value : Bytes} (opens : openBlock gcm l.encKey info.aad (s.blockAt info) = some (seq, value))
    (other : seq ≠ info.sequenceNumber) :
    (role.get gcm t e s info (callerPtr buffer) mem).state.ep = s.ep ∧
      (role.get gcm t e s info (callerPtr buffer) mem).state.store = s.store ∧
      (role.get gcm t e s info (callerPtr buffer) mem).value = .null := by
  have null := Endpoint.decrypted_of_other e buffer mem c.encKey opens other
  cases role with
  | server =>
      rw [Role.get, Endpoint.serverGet_eq region]
      exact ⟨rfl, rfl, null⟩
  | client =>
      obtain ⟨posted, completes⟩ := transfer rfl
      rw [Role.get, Endpoint.rdmaGet_eq region posted completes]
      exact ⟨rfl, rfl, null⟩

variable {infos : Nat → LocalKeyInfo} {s : SharedStore} {seq : Nat → Nat → UInt64}
  {held : Nat → UInt64 × Bytes}

/-- A sealed block that is written to an entry is what the entry holds. -/
theorem Layout.Holds.write {store : Memory} (holds : l.Holds gcm infos store held) {j : Nat}
    (inStore : j < l.num) {iv : Bytes} (ivLength : iv.length = ivSize) (new : UInt64)
    {value : Bytes} (length : value.length = l.n) :
    l.Holds gcm infos
      (FlatMemory.write store (j * l.size) (sealBlock gcm l.encKey (infos j).aad iv new value))
      (Function.update held j (new, value)) := by
  have stores : l.Stores gcm (fun k => { infos k with sequenceNumber := (held k).1 }) store
      fun k => (held k).2 := holds
  intro k kInStore
  have here := stores.write inStore ivLength new length k kInStore
  by_cases same : k = j
  · subst same
    rw [Function.update_self, Function.update_self] at here
    rw [Function.update_self]
    exact here
  · rw [Function.update_of_ne same, Function.update_of_ne same] at here
    rw [Function.update_of_ne same]
    exact here

/-- An endpoint acts on the store: the others are as before. -/
theorem Layout.Shares.acts (shares : l.Shares gcm infos s seq held) {p : Nat} {party : Instance}
    {seq' : Nat → UInt64} {held' : Nat → UInt64 × Bytes}
    (ep : party.endpoint.ep = (s.parties p).endpoint.ep)
    (knows : ∀ j, j < l.num → party.infos j = { infos j with sequenceNumber := seq' j })
    (holds : l.Holds gcm infos party.endpoint.store held')
    (lengths : ∀ j, j < l.num → (held' j).2.length = l.n) :
    l.Shares gcm infos ⟨party.endpoint.store, Function.update s.parties p party⟩
      (Function.update seq p seq') held' := by
  have each : ∀ q, (Function.update s.parties p party q).endpoint.ep =
      (s.parties q).endpoint.ep := by
    intro q
    by_cases same : q = p
    · subst same
      rw [Function.update_self, ep]
    · rw [Function.update_of_ne same]
  refine ⟨?_, ?_, shares.places, ?_, holds, lengths⟩
  · intro q
    rw [each]
    exact shares.region q
  · intro q
    rw [each]
    exact shares.configures q
  · intro q j inStore
    by_cases same : q = p
    · subst same
      dsimp only
      rw [Function.update_self, Function.update_self]
      exact knows j inStore
    · dsimp only
      rw [Function.update_of_ne same, Function.update_of_ne same]
      exact shares.knows q j inStore

/-- A put takes effect for all endpoints, under the sequence number of the one that makes it. -/
theorem Layout.Shares.put (shares : l.Shares gcm infos s seq held) {role : Nat → Role} {p j : Nat}
    {t : TransferEnv} {e : EncryptEnv} {newValue : Memory}
    (ok : Call.Ok (role p) l.num (.put j t e newValue)) :
    l.Shares gcm infos (s.invoke gcm role l.n (p, .put j t e newValue)).1
        (Function.update seq p (Function.update (seq p) j ((role p).advance (seq p j))))
        (Function.update held j ((role p).advance (seq p j), read newValue 0 l.n)) ∧
      (s.invoke gcm role l.n (p, .put j t e newValue)).2 = .put 0 := by
  obtain ⟨inStore, env, transfer⟩ := ok
  obtain ⟨size, offset⟩ := shares.places j inStore
  have known : (s.party p).infos j = { infos j with sequenceNumber := seq p j } :=
    shares.knows p j inStore
  obtain ⟨iv, new, ep, store, rest⟩ := Role.put_ok gcm (s := (s.party p).endpoint)
    newValue (shares.configures p)
    (show ((s.party p).infos j).key.length ≤ int32Max by rw [known]; exact size) env transfer
  have isNew : new = (role p).advance (seq p j) := by
    have advanced := Role.put_advances (congrArg Prod.snd rest)
    rw [rest, known] at advanced
    exact congrArg LocalKeyInfo.sequenceNumber advanced
  subst isNew
  refine ⟨shares.acts ep ?_ ?_ ?_, congrArg (fun r : LocalKeyInfo × Int => Answer.put r.2) rest⟩
  · intro k kInStore
    unfold Instance.invoke
    dsimp only
    by_cases same : k = j
    · subst same
      rw [Function.update_self, Function.update_self, rest, known]
    · rw [Function.update_of_ne same, Function.update_of_ne same]
      exact shares.knows p k kInStore
  · unfold Instance.invoke
    dsimp only
    rw [store, known]
    dsimp only
    rw [offset]
    exact shares.holds.write inStore iv.length_bytes _ (length_read ..)
  · intro k kInStore
    by_cases same : k = j
    · subst same
      rw [Function.update_self]
      exact length_read ..
    · rw [Function.update_of_ne same]
      exact shares.lengths k kInStore

/-- A get returns what the entry holds if the sequence numbers agree, and NULL otherwise. -/
theorem Layout.Shares.get (shares : l.Shares gcm infos s seq held) {role : Nat → Role} {p j : Nat}
    {t : TransferEnv} {e : DecryptEnv} {buffer : Option Nat}
    (ok : Call.Ok (role p) l.num (.get j t e buffer)) :
    l.Shares gcm infos (s.invoke gcm role l.n (p, .get j t e buffer)).1 seq held ∧
      (s.invoke gcm role l.n (p, .get j t e buffer)).2 =
        .get (if (held j).1 = seq p j then some (held j).2 else none) := by
  obtain ⟨inStore, env, allocates, transfer⟩ := ok
  obtain ⟨size, offset⟩ := shares.places j inStore
  have known : (s.party p).infos j = { infos j with sequenceNumber := seq p j } :=
    shares.knows p j inStore
  have opens : openBlock gcm l.encKey ((s.party p).infos j).aad
      ((s.party p).endpoint.blockAt ((s.party p).infos j)) = some ((held j).1, (held j).2) := by
    have size : (s.party p).endpoint.ep.blockSize.toNat = l.size :=
      (shares.configures p).toNat_blockSize
    rw [known, Endpoint.blockAt, size]
    dsimp only
    rw [offset]
    exact shares.holds j inStore
  have same : ((s.party p).infos j).sequenceNumber = seq p j := by rw [known]
  have reads : ∀ {party : Instance}, party.endpoint.ep = (s.parties p).endpoint.ep →
      party.endpoint.store = s.store → party.infos = (s.parties p).infos →
      l.Shares gcm infos ⟨party.endpoint.store, Function.update s.parties p party⟩ seq held := by
    intro party ep store isInfos
    have knows : ∀ j, j < l.num →
        party.infos j = { infos j with sequenceNumber := seq p j } := by
      rw [isInfos]
      exact shares.knows p
    have acted := shares.acts ep knows (by rw [store]; exact shares.holds) shares.lengths
    rwa [Function.update_eq_self] at acted
  by_cases agree : (held j).1 = seq p j
  · rw [if_pos agree]
    rw [agree, ← same] at opens
    obtain ⟨ep, store, notNull, readBack⟩ := Role.get_ok (s := (s.party p).endpoint) (s.party p).mem
      (shares.region p) (shares.configures p) (by rw [known]; exact size) env allocates transfer
      (shares.lengths j inStore) opens
    refine ⟨reads ep store rfl, ?_⟩
    unfold SharedStore.invoke Instance.invoke
    dsimp only
    rw [if_neg notNull, readBack]
  · rw [if_neg agree]
    obtain ⟨ep, store, null⟩ := Role.get_refused e buffer (s := (s.party p).endpoint)
      (s.party p).mem (shares.region p) (shares.configures p) transfer opens
      (by rw [same]; exact agree)
    refine ⟨reads ep store rfl, ?_⟩
    unfold SharedStore.invoke Instance.invoke
    dsimp only
    rw [if_pos null]

/-- The calls of a run: the sequence numbers and the blocks are those that its puts leave. -/
theorem Layout.Shares.execute {role : Nat → Role} {first : Nat → Nat → UInt64}
    {setUp : Nat → UInt64 × Bytes} (start : l.Shares gcm infos s first setUp)
    {calls : List (Nat × Call)} (ok : ∀ c ∈ calls, c.2.Ok (role c.1) l.num) :
    l.Shares gcm infos (Machine.execute (SharedStore.invoke gcm role l.n) s calls).1
      (seqAfter role first calls) (heldAfter role first setUp l.n calls) := by
  induction calls using List.reverseRecOn with
  | nil =>
      have none_ : seqAfter role first [] = first :=
        funext fun p => funext fun j => seqAfter_nil role first p j
      rw [none_]
      exact start
  | append_singleton calls c ih =>
      have before := ih fun d member => ok d (List.mem_append_left _ member)
      have here := ok c (List.mem_append_right _ (List.mem_singleton_self c))
      rw [execute_snoc]
      obtain ⟨p, call⟩ := c
      cases call with
      | put j t e newValue =>
          rw [heldAfter_put, seqAfter_put_eq]
          exact (before.put here).1
      | get j t e buffer =>
          have held : heldAfter role first setUp l.n (calls ++ [(p, .get j t e buffer)]) =
              heldAfter role first setUp l.n calls :=
            funext fun k => heldAfter_snoc role first setUp l.n calls rfl
          have seq : seqAfter role first (calls ++ [(p, .get j t e buffer)]) =
              seqAfter role first calls :=
            funext fun q => funext fun k => seqAfter_snoc role first calls (Bool.and_false _)
          rw [held, seq]
          exact (before.get here).1

/-- One call is answered by what the entry holds. -/
theorem Layout.Shares.answer (shares : l.Shares gcm infos s seq held) {role : Nat → Role}
    {c : Nat × Call} (ok : c.2.Ok (role c.1) l.num) :
    (s.invoke gcm role l.n c).2 = sharedAnswer held (seq c.1) c.2 := by
  obtain ⟨p, call⟩ := c
  cases call with
  | put j t e newValue => exact (shares.put ok).2
  | get j t e buffer => exact (shares.get ok).2

end Steps

/-- Any number of endpoints that know the keys and offsets of a store that was set up, and
each its own sequence numbers: in every interleaving of their calls all puts succeed, and a get
returns the value of the latest put to its entry by any of them if the reader's sequence number
is the one of that writer, and NULL otherwise. -/
theorem shared_calls_answered (gcm : AesGcm) (encKey : Bytes) (ep : EndpointData)
    (env : Nat → EncryptEnv) (dest : Destination) (plain : Memory) (numValues valueSize : UInt64)
    (infos : Nat → LocalKeyInfo) (nonempty : 1 ≤ valueSize.toNat)
    (fits : valueSize.toNat ≤ int32Max)
    (keys : ∀ i, i < numValues.toNat → (infos i).key.length ≤ int32Max)
    (offsets : ∀ i, i < numValues.toNat →
      (infos i).valueOffset.toNat = i * (minValueSize + valueSize.toNat))
    (store : Memory)
    (setup : (setupKvStore gcm ep env (some encKey) 16 dest plain numValues valueSize infos).2 =
      some store)
    (role : Nat → Role) (parties : Nat → Instance)
    (begun : ∀ p, ∃ ep' localBuf, (role p).begin ep' localBuf store (some encKey) 16 valueSize =
      some (parties p).endpoint)
    (first : Nat → Nat → UInt64)
    (knows : ∀ p j, j < numValues.toNat →
      (parties p).infos j = { infos j with sequenceNumber := first p j })
    (calls : List (Nat × Call)) (ok : ∀ c ∈ calls, c.2.Ok (role c.1) numValues.toNat)
    (i : Nat) (c : Nat × Call) (at_ : calls[i]? = some c) :
    (execute (SharedStore.invoke gcm role valueSize.toNat) ⟨store, parties⟩ calls).2[i]? =
      some (sharedAnswer
        (heldAfter role first
          (fun j => ((infos j).sequenceNumber, read plain (j * valueSize.toNat) valueSize.toNat))
          valueSize.toNat (calls.take i))
        (seqAfter role first (calls.take i) c.1) c.2) := by
  let l : Layout := ⟨encKey, valueSize, numValues.toNat, nonempty, fits⟩
  have places : l.Places infos := fun j inStore => ⟨keys j inStore, offsets j inStore⟩
  have stored : l.Stores gcm infos store (latestPut l.n plain []) :=
    stores_of_setup rfl places setup
  have start : l.Shares gcm infos ⟨store, parties⟩ first
      fun j => ((infos j).sequenceNumber, read plain (j * l.n) l.n) := by
    refine ⟨?_, ?_, places, knows, stored, fun _ _ => length_read ..⟩
    · intro p
      obtain ⟨ep', localBuf, isBegun⟩ := begun p
      exact (Role.begin_ok (l := l) isBegun).1
    · intro p
      obtain ⟨ep', localBuf, isBegun⟩ := begun p
      exact (Role.begin_ok (l := l) isBegun).2.1
  have upTo : ∀ d ∈ calls.take i, d.2.Ok (role d.1) l.num :=
    fun d member => ok d (List.mem_of_mem_take member)
  rw [getElem?_execute _ _ at_]
  exact congrArg some ((start.execute upTo).answer (ok c (List.mem_of_getElem? at_)))

namespace Sample

/-- A client, and otherwise the server. -/
def sharedRole : Nat → Role
  | 0 => .client
  | _ + 1 => .server

def hostedServer : Endpoint :=
  (Role.server.begin endpointData (fun _ => 0) setUp (some encKey) 16 4).getD
    ⟨endpointData, fun _ => 0, fun _ => 0⟩

def sharedParties : Nat → Instance
  | 0 => ⟨connected, infos, .empty⟩
  | _ + 1 => ⟨hostedServer, infos, .empty⟩

/-- The client writes to entry 1, and the server and the client read it. -/
def sharedCalls : List (Nat × Call) :=
  [(0, .put 1 (.ok .write) (.ok (.ofNat 3)) (fun _ => 9)), (1, .get 1 (.ok .read) .ok none),
    (0, .get 1 (.ok .read) .ok (some 100))]

theorem sharedCalls_ok : ∀ c ∈ sharedCalls, c.2.Ok (sharedRole c.1) 2 := by
  intro c member
  simp only [sharedCalls, List.mem_cons, List.not_mem_nil, or_false] at member
  rcases member with rfl | rfl | rfl
  · exact ⟨by decide, EncryptEnv.ok_ok _, fun _ => ⟨rfl, by decide⟩⟩
  · exact ⟨by decide, DecryptEnv.ok_ok, fun _ => rfl, fun _ => ⟨rfl, by decide⟩⟩
  · exact ⟨by decide, DecryptEnv.ok_ok, fun _ => rfl, fun _ => ⟨rfl, by decide⟩⟩

theorem sharedParties_begun (p : Nat) : ∃ ep' localBuf,
    (sharedRole p).begin ep' localBuf setUp (some encKey) 16 4 = some (sharedParties p).endpoint := by
  cases p with
  | zero => exact ⟨endpointData, fun _ => 0, rfl⟩
  | succ p => exact ⟨endpointData, fun _ => 0, rfl⟩

theorem sharedParties_infos (p j : Nat) :
    (sharedParties p).infos j = { infos j with sequenceNumber := UInt64.ofNat j } := by
  cases p <;> rfl

end Sample

/-- The server cannot read what the client wrote. -/
theorem hosted_get_refused :
    (execute (SharedStore.invoke .checksum Sample.sharedRole 4)
      ⟨Sample.setUp, Sample.sharedParties⟩ Sample.sharedCalls).2[1]? = some (.get none) :=
  shared_calls_answered .checksum Sample.encKey Sample.endpointData
    (fun i => .ok (.ofNat (i + 1))) (.fresh (some fun _ => 0)) Sample.plain 2 4 Sample.infos
    (by decide) (by decide) (by decide) (by decide) Sample.setUp rfl Sample.sharedRole
    Sample.sharedParties Sample.sharedParties_begun (fun _ j => UInt64.ofNat j)
    (fun p j _ => Sample.sharedParties_infos p j) Sample.sharedCalls Sample.sharedCalls_ok 1
    (1, .get 1 (.ok .read) .ok none) rfl

end NetworkStack.OneSided
