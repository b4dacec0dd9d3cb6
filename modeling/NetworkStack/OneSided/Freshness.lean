import NetworkStack.OneSided.Binding

/-!
# Rollback of one entry

The run of one endpoint on one key, with an adversary that puts any block the
endpoint ever made for the key back into the store. A get that succeeds opens a
block with the current sequence number, so it returns the latest value as long
as that number was used for no other value. `rdma_put` takes the number back
when its write fails, although the block it made under the number exists and
may even have reached the store, and `server_put` does not advance it at all;
where no put does either, the numbers of the history are consecutive.
-/

namespace NetworkStack.OneSided

open FlatMemory Machine

/-! ## Runs on one key -/

/-- One endpoint and one key, with the blocks made for the key so far and the value of the
latest successful put. -/
structure KeyState : Type where
  endpoint : Endpoint
  info : LocalKeyInfo
  log : List Encryption
  latest : Bytes

/-- What a put adds to the history. -/
def Role.encrypted (gcm : AesGcm) (e : EncryptEnv) (ep : EndpointData) (info : LocalKeyInfo)
    (newValue : Memory) : Role → List Encryption
  | .client => encryptions gcm ep e info.next newValue
  | .server => encryptions gcm ep e info newValue

namespace KeyState

/-- The endpoint puts a value; the adversary restores a block of the history. -/
inductive Action : Type
  | put (t : TransferEnv) (e : EncryptEnv) (newValue : Memory)
  | restore (i : Nat)

def step (gcm : AesGcm) (role : Role) (s : KeyState) : Action → KeyState
  | .put t e newValue =>
      let r := role.put gcm t e s.endpoint s.info newValue
      { endpoint := r.1
        info := r.2.1
        log := s.log ++ role.encrypted gcm e s.endpoint.ep s.info newValue
        latest := if r.2.2 < 0 then s.latest else s.endpoint.ep.valueAt newValue }
  | .restore i =>
      match s.log[i]? with
      | none => s
      | some x => { s with endpoint := { s.endpoint with
          store := write s.endpoint.store s.info.valueOffset.toNat (x.block gcm) } }

/-- The key right after its entry was set up with a value. -/
def start (gcm : AesGcm) (endpoint : Endpoint) (encKey : Bytes) (iv : BlockIv)
    (info : LocalKeyInfo) (value : Bytes) : KeyState :=
  let x : Encryption := ⟨encKey, iv, info, value⟩
  { endpoint := { endpoint with
      store := write endpoint.store info.valueOffset.toNat (x.block gcm) }
    info := info
    log := [x]
    latest := value }

/-- The number of puts of a run. -/
def puts (acts : List Action) : Nat :=
  acts.countP fun
    | .put _ _ _ => true
    | .restore _ => false

/-- A put of the client loses no block: if its encryption gets through, its write is posted
and reported as successful. A put of the server makes no block. An encryption gets through if no
OpenSSL call fails and the sizes are accepted. -/
def LosesNoBlock (ep : EndpointData) (info : LocalKeyInfo) : Role → Action → Prop
  | .client, .put t e _ => e.Ok → ep.Accepts info → t.Succeeds .write
  | .server, .put _ e _ => ¬ (e.Ok ∧ ep.Accepts info)
  | _, .restore _ => True

/-- The bytes that a get decrypts. -/
def fetched (role : Role) (t : TransferEnv) (s : KeyState) : Option Bytes :=
  match role with
  | .client => (s.endpoint.rdmaReadFromServer t s.info.valueOffset).2
  | .server => (s.endpoint.serverRead s.info.valueOffset).2

/-- With an AEAD that is ideal on what it decrypts, every get that does not return NULL
returns the value of the latest successful put. -/
def ReturnsLatest (gcm : AesGcm) (role : Role) (encKey : Bytes) (s : KeyState) : Prop :=
  ∀ (t : TransferEnv) (e : DecryptEnv) (buffer : Option Nat) (mem : Mem),
    (∀ ciphertext, fetched role t s = some ciphertext →
      Authentic gcm s.log encKey s.info.aad ciphertext) →
    (role.get gcm t e s.endpoint s.info (callerPtr buffer) mem).value ≠ .null →
    (role.get gcm t e s.endpoint s.info (callerPtr buffer) mem).mem.read
      (role.get gcm t e s.endpoint s.info (callerPtr buffer) mem).value s.latest.length = s.latest

/-- No two values are encrypted under one sequence number. -/
def UsesNumbersOnce (s : KeyState) : Prop :=
  ∀ x ∈ s.log, ∀ y ∈ s.log,
    x.info.sequenceNumber = y.info.sequenceNumber → x.value = y.value

/-! ## The invariant -/

/-- The history is numbered consecutively from `first` and ends with the block of the
current number and the latest value. -/
structure Numbered (first : UInt64) (s : KeyState) : Prop where
  numbers : ∀ (i : Nat) (x : Encryption), s.log[i]? = some x →
    x.info.sequenceNumber = first + UInt64.ofNat i
  last : s.log.getLast?.map (fun x => (x.info.sequenceNumber, x.value)) =
    some (s.info.sequenceNumber, s.latest)

section Steps

variable {gcm : AesGcm} {role : Role} {encKey : Bytes} {first : UInt64} {s : KeyState}

/-- The number of the current `info` follows from the length of the history. -/
theorem Numbered.sequenceNumber (n : Numbered first s) :
    ∃ k, s.log.length = k + 1 ∧ s.info.sequenceNumber = first + UInt64.ofNat k := by
  obtain ⟨x, last, pair⟩ := Option.map_eq_some_iff.mp n.last
  rw [List.getLast?_eq_getElem?] at last
  have lt := (List.getElem?_eq_some_iff.mp last).1
  refine ⟨s.log.length - 1, by omega, ?_⟩
  rw [← n.numbers _ _ last]
  exact (Prod.mk.inj pair).1.symm

/-- A block made under the next number keeps the history numbered. -/
theorem Numbered.snoc (n : Numbered first s) {x : Encryption}
    (number : x.info.sequenceNumber = s.info.sequenceNumber + 1) {t : KeyState}
    (log : t.log = s.log ++ [x]) (info : t.info.sequenceNumber = s.info.sequenceNumber + 1)
    (latest : t.latest = x.value) : Numbered first t := by
  obtain ⟨k, length, current⟩ := n.sequenceNumber
  refine ⟨?_, ?_⟩
  · intro i y at_
    rw [log] at at_
    rcases getElem?_snoc at_ with old | ⟨rfl, rfl⟩
    · exact n.numbers i y old
    · rw [number, current, length, UInt64.add_assoc, UInt64.ofNat_add]
      rfl
  · rw [log, List.getLast?_append, List.getLast?_singleton, Option.some_or, Option.map_some,
      number, info, latest]

/-- A step that loses no block keeps the history numbered. -/
theorem Numbered.step (n : Numbered first s) (key : s.endpoint.ep.encKey = some encKey)
    {a : Action} (clean : LosesNoBlock s.endpoint.ep s.info role a) :
    Numbered first (step gcm role s a) := by
  cases a with
  | restore i =>
      unfold KeyState.step
      dsimp only
      split
      · exact n
      · exact ⟨n.numbers, n.last⟩
  | put t e newValue =>
      cases role with
      | client =>
          rcases encryptions_cases gcm key e s.info.next newValue with
            ⟨failed, nothing⟩ | ⟨x, encrypted, -, one, -, info, value, -⟩
          · unfold KeyState.step
            simp only [Role.put, Endpoint.rdmaPut_of_failed t failed, Role.encrypted, nothing,
              List.append_nil, Int.reduceNeg, Int.reduceLT, if_true]
            exact ⟨n.numbers, n.last⟩
          · obtain ⟨env, accepts⟩ := (encryptKeyValueData_succeeds_iff key).mp encrypted
            obtain ⟨posted, completes⟩ := clean env accepts
            apply n.snoc (x := x)
            · rw [info]
              rfl
            · simp only [KeyState.step, Role.encrypted, one]
            · simp only [KeyState.step, Role.put, Endpoint.rdmaPut_of_encrypted t encrypted,
                posted, completes, Bool.and_self, if_true]
              rfl
            · simp only [KeyState.step, Role.put, Endpoint.rdmaPut_of_encrypted t encrypted,
                posted, completes, Bool.and_self, if_true, Int.lt_irrefl, if_false, value]
      | server =>
          rcases encryptions_cases gcm key e s.info newValue with
            ⟨failed, nothing⟩ | ⟨x, encrypted, -⟩
          · unfold KeyState.step
            simp only [Role.put, Endpoint.serverPut_eq, Role.encrypted, nothing, List.append_nil,
              if_pos failed]
            exact ⟨n.numbers, n.last⟩
          · exact (clean ((encryptKeyValueData_succeeds_iff key).mp encrypted)).elim

theorem ep_step (s : KeyState) (a : Action) : (step gcm role s a).endpoint.ep = s.endpoint.ep := by
  cases a with
  | put t e newValue => exact role.ep_put ..
  | restore i =>
      unfold step
      dsimp only
      split <;> rfl

/-- The key and the offset of the entry stay, and with them whether the sizes are accepted. -/
theorem accepts_step (s : KeyState) (a : Action) :
    (step gcm role s a).endpoint.ep.Accepts (step gcm role s a).info ↔
      s.endpoint.ep.Accepts s.info := by
  have same : ∀ n, s.endpoint.ep.Accepts { s.info with sequenceNumber := n } ↔
      s.endpoint.ep.Accepts s.info := fun _ => Iff.rfl
  rw [ep_step]
  cases a with
  | restore i =>
      unfold step
      dsimp only
      split <;> rfl
  | put t e newValue =>
      cases role with
      | server => exact Iff.rfl
      | client =>
          change s.endpoint.ep.Accepts (s.endpoint.rdmaPut gcm t e s.info newValue).2.1 ↔ _
          unfold Endpoint.rdmaPut
          dsimp only
          split <;> exact same _

/-- A put makes at most one block. -/
theorem length_log_run (gcm : AesGcm) (role : Role) (s : KeyState) (acts : List Action) :
    (run (step gcm role) s acts).log.length ≤ s.log.length + puts acts := by
  induction acts using List.reverseRecOn with
  | nil => exact Nat.le_refl _
  | append_singleton acts a ih =>
      rw [run_snoc]
      cases a with
      | put t e newValue =>
          have one : (role.encrypted gcm e (run (step gcm role) s acts).endpoint.ep
              (run (step gcm role) s acts).info newValue).length ≤ 1 := by
            cases role with
            | client => exact length_encryptions_le ..
            | server => exact length_encryptions_le ..
          have count : puts (acts ++ [.put t e newValue]) = puts acts + 1 := by
            simp [puts]
          simp only [step, List.length_append, count]
          omega
      | restore i =>
          have count : puts (acts ++ [.restore i]) = puts acts := by
            simp [puts]
          have same : (step gcm role (run (step gcm role) s acts) (.restore i)).log =
              (run (step gcm role) s acts).log := by
            unfold step
            dsimp only
            split <;> rfl
          rw [same, count]
          exact ih

/-- Consecutive numbers are used once, as long as they do not wrap. -/
theorem Numbered.usesNumbersOnce (n : Numbered first s) (few : s.log.length ≤ 2 ^ 64) :
    s.UsesNumbersOnce := by
  intro x xMember y yMember same
  obtain ⟨i, iLt, iAt⟩ := List.getElem_of_mem xMember
  obtain ⟨j, jLt, jAt⟩ := List.getElem_of_mem yMember
  have iAt' := List.getElem?_eq_some_iff.mpr ⟨iLt, iAt⟩
  have jAt' := List.getElem?_eq_some_iff.mpr ⟨jLt, jAt⟩
  rw [n.numbers i x iAt', n.numbers j y jAt'] at same
  have offsets := congrArg UInt64.toNat (UInt64.add_right_inj first |>.mp same)
  rw [UInt64.toNat_ofNat', UInt64.toNat_ofNat', Nat.mod_eq_of_lt (by omega),
    Nat.mod_eq_of_lt (by omega)] at offsets
  subst offsets
  rw [← iAt, ← jAt]

/-- Where every number was used for one value, a get that succeeds returns the latest one. -/
theorem Numbered.returnsLatest (n : Numbered first s) (once : s.UsesNumbersOnce)
    (key : s.endpoint.ep.encKey = some encKey) : s.ReturnsLatest gcm role encKey := by
  intro t e buffer mem ideal returned
  obtain ⟨y, last, pair⟩ := Option.map_eq_some_iff.mp n.last
  obtain ⟨current, latest⟩ := Prod.mk.inj pair
  have opened : ∃ ciphertext v, fetched role t s = some ciphertext ∧
      openBlock gcm encKey s.info.aad ciphertext = some (s.info.sequenceNumber, v) ∧
      (role.get gcm t e s.endpoint s.info (callerPtr buffer) mem).mem.read
        (role.get gcm t e s.endpoint s.info (callerPtr buffer) mem).value v.length = v := by
    cases role with
    | client => exact Endpoint.onesidedGet_value key returned
    | server => exact Endpoint.onesidedGet_value key returned
  obtain ⟨ciphertext, v, bytes, opens, readBack⟩ := opened
  obtain ⟨x, member, -, -, number, value⟩ := openBlock_of_authentic (ideal ciphertext bytes) opens
  have same := once x member y (List.mem_of_getLast? last) (number.trans current.symm)
  rw [value, latest] at same
  rw [← same]
  exact readBack

end Steps

/-- In every run in which no put loses a block, with fewer than 2^64 puts, no two values are
encrypted under one number, and every get that succeeds returns the value of the latest
successful put. -/
theorem returns_latest_of_loses_no_block (gcm : AesGcm) (role : Role) (endpoint : Endpoint)
    (encKey : Bytes) (key : endpoint.ep.encKey = some encKey) (iv : BlockIv)
    (info : LocalKeyInfo) (value : Bytes) (acts : List Action)
    (clean : ∀ a ∈ acts, LosesNoBlock endpoint.ep info role a) (few : puts acts < 2 ^ 64) :
    (run (step gcm role) (start gcm endpoint encKey iv info value) acts).ReturnsLatest gcm role
        encKey ∧
      (run (step gcm role) (start gcm endpoint encKey iv info value) acts).UsesNumbersOnce := by
  have numbered : Numbered info.sequenceNumber (start gcm endpoint encKey iv info value) := by
    refine ⟨?_, rfl⟩
    intro i x at_
    cases i with
    | zero =>
        cases at_
        exact (UInt64.add_zero _).symm
    | succ i => cases at_
  have along : Along (step gcm role) (fun _ a => LosesNoBlock endpoint.ep info role a)
      (start gcm endpoint encKey iv info value) acts := by
    apply along_of_forall
    intro before a after split
    rw [split] at clean
    exact clean a (List.mem_append_right _ List.mem_cons_self)
  have keeps : ∀ s a, Numbered info.sequenceNumber s ∧ s.endpoint.ep.encKey = some encKey ∧
      (s.endpoint.ep.Accepts s.info ↔ endpoint.ep.Accepts info) →
      LosesNoBlock endpoint.ep info role a → Numbered info.sequenceNumber (step gcm role s a) ∧
        (step gcm role s a).endpoint.ep.encKey = some encKey ∧
        ((step gcm role s a).endpoint.ep.Accepts (step gcm role s a).info ↔
          endpoint.ep.Accepts info) := by
    intro s a inv clean
    rcases inv with ⟨n, sameKey, accepts⟩
    refine ⟨n.step sameKey ?_, ?_, (accepts_step s a).trans accepts⟩
    · cases a with
      | restore i => cases role <;> exact True.intro
      | put t e newValue =>
          cases role with
          | client => exact fun env taken => clean env (accepts.mp taken)
          | server => exact fun through => clean ⟨through.1, accepts.mp through.2⟩
    · rw [ep_step]
      exact sameKey
  obtain ⟨n, sameKey, -⟩ := run_invariant_of_along keeps ⟨numbered, key, Iff.rfl⟩ along
  have length := length_log_run gcm role (start gcm endpoint encKey iv info value) acts
  have one : (start gcm endpoint encKey iv info value).log.length = 1 := rfl
  have once := n.usesNumbersOnce (by omega)
  exact ⟨n.returnsLatest once sameKey, once⟩

end KeyState

namespace Sample

/-- A client that is connected to a store with values of four bytes. -/
def client : Endpoint := ⟨⟨true, 40, 40, some encKey, 16⟩, fun _ => 0, fun _ => 0⟩

def keyState : KeyState := .start .checksum client encKey (.ofNat 1) (infos 0) [1, 2, 3, 4]

/-- A write whose completion is not obtained, and that did not reach the store. -/
def lostWrite : TransferEnv := ⟨true, false, false, .write, 0, false, none⟩

/-- The client's first put fails in its write, its second one succeeds, and the adversary
stores the block of the first. -/
def reused : List KeyState.Action :=
  [.put lostWrite (.ok (.ofNat 2)) (fun _ => 5), .put (.ok .write) (.ok (.ofNat 3)) (fun _ => 6),
    .restore 1]

/-- Two puts that succeed, and the block of the first one is restored. -/
def restored : List KeyState.Action :=
  [.put (.ok .write) (.ok (.ofNat 2)) (fun _ => 5), .put (.ok .write) (.ok (.ofNat 3)) (fun _ => 6),
    .restore 1]

end Sample

/-- The get returns the value of the put that was reported as failed. -/
theorem reused_number_returns_failed_put :
    KeyState.puts Sample.reused < 2 ^ 64 ∧
      ¬ (run (KeyState.step .checksum .client) Sample.keyState Sample.reused).ReturnsLatest
        .checksum .client Sample.encKey := by
  refine ⟨by decide, ?_⟩
  intro returns
  have wrong := returns (.ok .read) .ok none .empty (by decide +kernel) (by decide +kernel)
  revert wrong
  decide +kernel

/-- The second put is what the client reads, and the restored block is refused. -/
theorem restored_block_not_returned :
    (run (KeyState.step .checksum .client) Sample.keyState Sample.restored).ReturnsLatest
        .checksum .client Sample.encKey ∧
      (run (KeyState.step .checksum .client) Sample.keyState Sample.restored).UsesNumbersOnce := by
  refine KeyState.returns_latest_of_loses_no_block .checksum .client Sample.client Sample.encKey
    rfl (.ofNat 1) (Sample.infos 0) [1, 2, 3, 4] Sample.restored ?_ (by decide)
  intro a member
  simp only [Sample.restored, List.mem_cons, List.not_mem_nil, or_false] at member
  rcases member with rfl | rfl | rfl
  · exact fun _ _ => ⟨rfl, by decide⟩
  · exact fun _ _ => ⟨rfl, by decide⟩
  · exact True.intro

end NetworkStack.OneSided
