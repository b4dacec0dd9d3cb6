import NetworkStack.CodecSpec
import Mathlib.Data.List.Range
import Mathlib.Data.List.Nodup

/-!
# The IVs of a run

The global IV over any sequence of `encrypt_message` calls. Its first word is a
counter and, when it is 0, the sign that `RAND_bytes` has to be called; `next_iv`
is applied before the IV is used. So a seed whose word is `r` gives the words
`r + 1, …, 2^64 - 1, 0`, in this order, and the message with word 0 is the last
one before the next call of `RAND_bytes`.
-/

namespace NetworkStack

open ByteStream

/-! ## Calls -/

/-- One call of `encrypt_message`, with the outcomes of what it calls. -/
structure EncCall : Type where
  encKey : Bytes
  env : EncEnv
  header : RdmaMsgHeader
  payload : RdmaEncPayload

/-- The global IV after the call, and the ciphertext unless it returned -1. -/
def EncCall.exec (gcm : AesGcm) (iv : Iv) (c : EncCall) : Iv × Option Bytes :=
  encryptMessage gcm c.encKey c.env iv c.header c.payload

/-- The buffer and the context are there, so that the IV is looked at. -/
def EncEnv.reachesIv (e : EncEnv) : Bool := (e.prealloc || e.malloc) && e.ctxNew

/-- The call asks `RAND_bytes` for an IV. -/
def EncCall.callsRand (iv : Iv) (c : EncCall) : Bool := c.env.reachesIv && iv.word == 0

/-- The call gets an IV for its message; it may still fail after that. -/
def EncCall.hasIv (iv : Iv) (c : EncCall) : Bool :=
  c.env.reachesIv && (iv.word != 0 || c.env.rand.isSome)

/-- The IV after a run. -/
def leftIv (gcm : AesGcm) (iv : Iv) (calls : List EncCall) : Iv :=
  calls.foldl (fun iv c => (c.exec gcm iv).1) iv

/-- The messages of a run that got an IV: that IV, and the ciphertext unless the call failed
after the IV step. -/
def messages (gcm : AesGcm) : Iv → List EncCall → List (Iv × Option Bytes)
  | _, [] => []
  | iv, c :: calls =>
      if c.hasIv iv then c.exec gcm iv :: messages gcm (c.exec gcm iv).1 calls
      else messages gcm (c.exec gcm iv).1 calls

/-- `RAND_bytes` is not called in a run. -/
def Quiet (gcm : AesGcm) : Iv → List EncCall → Prop
  | _, [] => True
  | iv, c :: calls => c.callsRand iv = false ∧ Quiet gcm (c.exec gcm iv).1 calls

/-! ## One call -/

section Call

variable {gcm : AesGcm} {iv : Iv} {c : EncCall}

/-- `encrypt_message` with its exits before the IV step collected. -/
theorem EncCall.exec_eq (gcm : AesGcm) (iv : Iv) (c : EncCall) :
    c.exec gcm iv =
      if c.env.reachesIv = true then
        match if iv.word = 0 then c.env.rand else some iv with
        | none => (iv, none)
        | some seeded =>
            (seeded.nextIv, encryptBody gcm c.encKey c.env seeded.nextIv c.header c.payload)
      else (iv, none) := by
  unfold EncCall.exec encryptMessage EncEnv.reachesIv
  cases c.env.prealloc <;> cases c.env.malloc <;> cases c.env.ctxNew <;> rfl

/-- A call without an IV fails and leaves the IV as it is. -/
theorem EncCall.exec_of_not_hasIv (no : c.hasIv iv = false) : c.exec gcm iv = (iv, none) := by
  rw [EncCall.exec_eq]
  split
  · rename_i reaches
    have unseeded : (if iv.word = 0 then c.env.rand else some iv) = none := by
      simp only [EncCall.hasIv, reaches, Bool.true_and, Bool.or_eq_false_iff, bne_eq_false_iff_eq,
        Option.isSome_eq_false_iff, Option.isNone_iff_eq_none] at no
      rw [if_pos no.1, no.2]
    rw [unseeded]
  · rfl

/-- A call with an IV uses the one after the seed. -/
theorem EncCall.exec_of_hasIv (yes : c.hasIv iv = true) {seeded : Iv}
    (source : (if iv.word = 0 then c.env.rand else some iv) = some seeded) :
    (c.exec gcm iv).1 = seeded.nextIv := by
  have reaches := (Bool.and_eq_true_iff.mp yes).1
  rw [EncCall.exec_eq, if_pos reaches, source]

theorem encryptBody_take {encKey : Bytes} {e : EncEnv} {header : RdmaMsgHeader}
    {payload : RdmaEncPayload} {ciphertext : Bytes}
    (written : encryptBody gcm encKey e iv header payload = some ciphertext) :
    ciphertext.take ivLen = iv.bytes := by
  unfold encryptBody at written
  dsimp only at written
  iterate 7
    split at written
    · cases written
  obtain rfl := Option.some.inj written
  exact List.take_left' iv.length_bytes

/-- A ciphertext starts with the IV that the call leaves. -/
theorem EncCall.take_ciphertext {ciphertext : Bytes}
    (written : (c.exec gcm iv).2 = some ciphertext) :
    ciphertext.take ivLen = (c.exec gcm iv).1.bytes := by
  rw [EncCall.exec_eq] at written ⊢
  split at written
  · rename_i reaches
    rw [if_pos reaches]
    split at written
    · cases written
    · exact encryptBody_take written
  · cases written

end Call

/-! ## The counter -/

/-- The IV after `n` applications of `next_iv`. -/
def Iv.advance (iv : Iv) (n : Nat) : Iv := { iv with word := iv.word + UInt64.ofNat n }

theorem Iv.nextIv_advance (iv : Iv) (n : Nat) : (iv.advance n).nextIv = iv.advance (n + 1) := by
  simp only [Iv.advance, Iv.nextIv, UInt64.ofNat_add, UInt64.add_assoc]
  rfl

theorem Iv.advance_one (iv : Iv) : iv.advance 1 = iv.nextIv := rfl

theorem Iv.toNat_advance (iv : Iv) (n : Nat) :
    (iv.advance n).word.toNat = (iv.word.toNat + n) % 2 ^ 64 := by
  rw [Iv.advance, UInt64.toNat_add, UInt64.toNat_ofNat', Nat.add_mod_mod]

/-- Up to the end of a seeding, the counter is 0 exactly there. -/
theorem Iv.advance_word_eq_zero_iff {iv : Iv} {n : Nat} (positive : 0 < n)
    (within : iv.word.toNat + n ≤ 2 ^ 64) :
    (iv.advance n).word = 0 ↔ iv.word.toNat + n = 2 ^ 64 := by
  rw [← UInt64.toNat_inj, iv.toNat_advance, UInt64.toNat_zero]
  omega

theorem Iv.bytes_inj {iv used : Iv} (same : iv.bytes = used.bytes) :
    iv.word = used.word ∧ iv.rest = used.rest := by
  rcases List.append_inj same (by rw [length_toLE, length_toLE]) with ⟨words, rests⟩
  have read := congrArg ofLE words
  have lt := iv.word.toNat_lt
  have lt' := used.word.toNat_lt
  rw [ofLE_toLE, ofLE_toLE, Nat.mod_eq_of_lt (by omega), Nat.mod_eq_of_lt (by omega)] at read
  exact ⟨UInt64.toNat_inj.mp read, rests⟩

/-- The IVs of one seeding are distinct. -/
theorem Iv.nodup_advance (iv : Iv) {k : Nat} (within : k ≤ 2 ^ 64) :
    ((List.range k).map fun i => (iv.advance (i + 1)).bytes).Nodup := by
  apply List.Nodup.map_on _ List.nodup_range
  intro i inRange j inRange' same
  have words := congrArg UInt64.toNat (Iv.bytes_inj same).1
  rw [iv.toNat_advance, iv.toNat_advance] at words
  have lt := List.mem_range.mp inRange
  have lt' := List.mem_range.mp inRange'
  omega

/-- The IVs of a seeding from the `n`th on. -/
theorem Iv.cons_advances (iv : Iv) (n k : Nat) :
    iv.advance (n + 1) :: (List.range k).map (fun i => iv.advance (n + 1 + i + 1)) =
      (List.range (k + 1)).map fun i => iv.advance (n + i + 1) := by
  rw [List.range_succ_eq_map, List.map_cons, List.map_map]
  congr 1
  apply List.map_congr_left
  intro i _
  rw [Function.comp_apply, Nat.succ_eq_add_one, Nat.add_right_comm n 1 i, Nat.add_assoc n i 1]

/-! ## Runs between two seedings -/

section Run

variable {gcm : AesGcm}

/-- A run without `RAND_bytes`, from the `n`th IV of a seeding on: each message has the next
IV, and the counter gets to 0 at the end at most. -/
theorem messages_of_quiet {seed : Iv} {n : Nat} (calls : List EncCall) (positive : 0 < n)
    (within : seed.word.toNat + n ≤ 2 ^ 64) (quiet : Quiet gcm (seed.advance n) calls) :
    let sent := messages gcm (seed.advance n) calls
    sent.map Prod.fst = (List.range sent.length).map (fun i => seed.advance (n + i + 1)) ∧
      leftIv gcm (seed.advance n) calls = seed.advance (n + sent.length) ∧
      seed.word.toNat + (n + sent.length) ≤ 2 ^ 64 := by
  induction calls generalizing n with
  | nil => exact ⟨rfl, rfl, within⟩
  | cons c calls ih =>
      rcases quiet with ⟨noRand, quiet⟩
      dsimp only
      by_cases reaches : c.env.reachesIv = true
      · -- the counter is not 0, so it is within the seeding also after this message
        have nonzero : (seed.advance n).word ≠ 0 := by
          simpa [EncCall.callsRand, reaches] using noRand
        have below := mt (Iv.advance_word_eq_zero_iff positive within).mpr nonzero
        have yes : c.hasIv (seed.advance n) = true := by simp [EncCall.hasIv, reaches, nonzero]
        have left : (c.exec gcm (seed.advance n)).1 = seed.advance (n + 1) := by
          rw [EncCall.exec_of_hasIv yes (if_neg nonzero), Iv.nextIv_advance]
        rw [left] at quiet
        rcases ih (n := n + 1) (by omega) (by omega) quiet with ⟨ivs, final, bound⟩
        have sent : messages gcm (seed.advance n) (c :: calls) =
            c.exec gcm (seed.advance n) :: messages gcm (seed.advance (n + 1)) calls := by
          rw [messages, if_pos yes, left]
        have run : leftIv gcm (seed.advance n) (c :: calls) =
            leftIv gcm (seed.advance (n + 1)) calls := by
          rw [leftIv, List.foldl_cons, left, leftIv]
        rw [sent, run, List.length_cons]
        refine ⟨?_, ?_, ?_⟩
        · rw [List.map_cons, left, ivs]
          exact seed.cons_advances n _
        · rw [final]
          exact congrArg seed.advance (by omega)
        · omega
      · have no : c.hasIv (seed.advance n) = false := by simp [EncCall.hasIv, reaches]
        have stays : c.exec gcm (seed.advance n) = (seed.advance n, none) :=
          EncCall.exec_of_not_hasIv no
        rw [stays] at quiet
        have sent : messages gcm (seed.advance n) (c :: calls) =
            messages gcm (seed.advance n) calls := by
          rw [messages, if_neg (by simp [no]), stays]
        have run : leftIv gcm (seed.advance n) (c :: calls) =
            leftIv gcm (seed.advance n) calls := by
          rw [leftIv, List.foldl_cons, stays, leftIv]
        rw [sent, run]
        exact ih positive within quiet

/-- Each message of a run carries the IV it was encrypted with. -/
theorem take_of_mem_messages (calls : List EncCall) (iv : Iv) :
    ∀ m ∈ messages gcm iv calls, ∀ ciphertext, m.2 = some ciphertext →
      ciphertext.take ivLen = m.1.bytes := by
  induction calls generalizing iv with
  | nil =>
      intro m none
      cases none
  | cons c calls ih =>
      intro m member ciphertext written
      unfold messages at member
      split at member
      · rcases List.mem_cons.mp member with rfl | later
        · exact EncCall.take_ciphertext written
        · exact ih _ m later ciphertext written
      · exact ih _ m member ciphertext written

theorem leftIv_append (iv : Iv) (first second : List EncCall) :
    leftIv gcm iv (first ++ second) = leftIv gcm (leftIv gcm iv first) second :=
  List.foldl_append

end Run

/-- From a seeding whose word is `r` on, in any run of calls: the messages up to the next call of
`RAND_bytes` have distinct IVs that keep the last bytes of the seed, and that call comes after
exactly `2^64 - r` of them. -/
theorem ivs_distinct_between_seedings (gcm : AesGcm) (start : Iv) (before : List EncCall)
    {c : EncCall} {seed : Iv} (asks : c.callsRand (leftIv gcm start before) = true)
    (seeds : c.env.rand = some seed) (calls : List EncCall)
    (quiet : Quiet gcm (c.exec gcm (leftIv gcm start before)).1 calls) :
    let sent := messages gcm (leftIv gcm start before) (c :: calls)
    sent.length ≤ 2 ^ 64 - seed.word.toNat ∧
      sent.map Prod.fst = (List.range sent.length).map (fun i => seed.advance (i + 1)) ∧
      (sent.map fun m => m.1.bytes).Nodup ∧
      (∀ m ∈ sent, m.1.rest = seed.rest ∧
        ∀ ciphertext, m.2 = some ciphertext → ciphertext.take ivLen = m.1.bytes) ∧
      ∀ next : EncCall, next.callsRand (leftIv gcm start (before ++ c :: calls)) = true ↔
        next.env.reachesIv = true ∧ sent.length = 2 ^ 64 - seed.word.toNat := by
  intro sent
  obtain ⟨reaches, zero⟩ : c.env.reachesIv = true ∧ (leftIv gcm start before).word = 0 := by
    simpa [EncCall.callsRand] using asks
  have yes : c.hasIv (leftIv gcm start before) = true := by
    simp [EncCall.hasIv, reaches, seeds]
  have first : (c.exec gcm (leftIv gcm start before)).1 = seed.advance 1 := by
    rw [EncCall.exec_of_hasIv yes (by rw [if_pos zero, seeds]), Iv.advance_one]
  have lt := seed.word.toNat_lt
  rw [first] at quiet
  rcases messages_of_quiet calls Nat.one_pos (by omega) quiet with ⟨ivs, final, bound⟩
  have sentEq : sent = c.exec gcm (leftIv gcm start before) ::
      messages gcm (seed.advance 1) calls := by
    simp only [sent, messages, if_pos yes, first]
  have size : sent.length = 1 + (messages gcm (seed.advance 1) calls).length := by
    rw [sentEq, List.length_cons, Nat.add_comm]
  have all : sent.map Prod.fst = (List.range sent.length).map (fun i => seed.advance (i + 1)) := by
    have advances := seed.cons_advances 0 (messages gcm (seed.advance 1) calls).length
    simp only [Nat.zero_add] at advances
    rw [size, Nat.add_comm 1, ← advances, sentEq, List.map_cons, first, ivs]
  have left : leftIv gcm start (before ++ c :: calls) = seed.advance sent.length := by
    rw [leftIv_append, leftIv, List.foldl_cons, first, size]
    exact final
  rw [← size] at bound
  refine ⟨by omega, all, ?_, ?_, ?_⟩
  · have bytes := congrArg (List.map Iv.bytes) all
    rw [List.map_map, List.map_map] at bytes
    exact (congrArg List.Nodup bytes).mpr (seed.nodup_advance (by omega))
  · intro m member
    refine ⟨?_, take_of_mem_messages _ _ m member⟩
    have inIvs := List.mem_map_of_mem (f := Prod.fst) member
    rw [all] at inIvs
    obtain ⟨i, -, iv⟩ := List.mem_map.mp inIvs
    rw [← iv]
    rfl
  · intro next
    rw [left, EncCall.callsRand, Bool.and_eq_true, beq_iff_eq,
      Iv.advance_word_eq_zero_iff (by omega) bound]
    constructor
    · rintro ⟨reached, count⟩
      exact ⟨reached, by omega⟩
    · rintro ⟨reached, count⟩
      exact ⟨reached, by omega⟩

/-- A seed next to the end: the words are `2^64 - 1` and 0, and a third call asks
`RAND_bytes` again. -/
theorem ivs_distinct_near_wrap :
    let seed := Iv.ofNat (2 ^ 64 - 2)
    let call : EncCall := ⟨[9, 4], EncEnv.ok seed, ⟨40, 1⟩, ⟨some [7], none, 0⟩⟩
    let sent := messages .checksum (Iv.ofNat 0) [call, call]
    sent.map (fun m => m.1.word.toNat) = [2 ^ 64 - 1, 0] ∧
      (sent.map fun m => m.1.bytes).Nodup ∧
      call.callsRand (leftIv .checksum (Iv.ofNat 0) [call, call]) = true := by
  intro seed call sent
  have asks : call.callsRand (leftIv .checksum (Iv.ofNat 0) []) = true := by decide +kernel
  have seeds : call.env.rand = some seed := rfl
  have quiet : Quiet .checksum (call.exec .checksum (leftIv .checksum (Iv.ofNat 0) [])).1
      [call] := ⟨by decide +kernel, trivial⟩
  obtain ⟨-, -, distinct, -, exhausted⟩ :=
    ivs_distinct_between_seedings .checksum (Iv.ofNat 0) [] asks seeds [call] quiet
  refine ⟨?_, distinct, (exhausted call).mpr ⟨rfl, ?_⟩⟩
  · decide +kernel
  · decide +kernel

end NetworkStack
