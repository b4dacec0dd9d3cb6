import NetworkStack.CodecSpec
import NetworkStack.Lib.FlatMemory
import NetworkStack.Lib.Loop
import NetworkStack.Lib.Run

/-!
# `cipher_update` in chunks

The loop of `cipher_update` with the types of the source: sizes are 64-bit words,
the length that `EVP_CipherUpdate` is asked for and the one it reports are 32-bit
integers, and each turn moves the two pointers and the counter by what was
reported. `EVP_CipherUpdate` is a parameter, so that it may process any part of
what it is given, or nothing; whether the loop ends depends on it.

`StreamCipher` is what the loop relies on: a byte-wise stream, of which each call
transforms the next bytes. `cipherUpdate_oneShot` says that the chunks then make
up the transform of the whole input, and `cipherUpdate_codec` that the codec's
`cipherUpdate` is this loop.
-/

namespace NetworkStack

open ByteStream FlatMemory Machine

namespace Chunked

/-! ## The loop -/

/-- What one `EVP_CipherUpdate` leaves: whether it returned 1, the context, `*outl` and the
output. -/
structure EvpCall (κ : Type) : Type where
  ok : Bool
  ctx : κ
  processed : Int32
  out : Memory

/-- `EVP_CipherUpdate(ctx, out, outl, in, inl)`; a buffer is a memory and an address in it. -/
abbrev EvpCipherUpdate (κ : Type) : Type :=
  κ → Memory → Nat → Memory → Nat → Int32 → EvpCall κ

/-- The arguments and the outcome of a call. -/
structure Call : Type where
  outAt : Nat
  inAt : Nat
  toProcess : Int32
  ok : Bool
  processed : Int32

/-- The variables of the loop, and the calls it has made. -/
structure State (κ : Type) : Type where
  ctx : κ
  total : UInt64
  outAt : Nat
  inAt : Nat
  out : Memory
  calls : List Call

/-- `static_cast<int>` of a size -/
def toInt (size : UInt64) : Int32 := Int32.ofNat size.toNat

/-- `static_cast<size_t>` of an `int` -/
def toSize (n : Int32) : UInt64 := UInt64.ofInt n.toInt

/-- `to_process` -/
def toProcess (inSize total : UInt64) : Int32 :=
  toInt (min (UInt64.ofNat int32Max) (inSize - total))

/-- One turn of the loop, or what is returned. -/
def turn {κ : Type} (update : EvpCipherUpdate κ) (input : Memory) (inSize : UInt64)
    (s : State κ) : State κ ⊕ (Int × State κ) :=
  if s.total < inSize then
    let inl := toProcess inSize s.total
    let call := update s.ctx s.out s.outAt input s.inAt inl
    let s := { s with
      ctx := call.ctx
      out := call.out
      calls := s.calls ++ [⟨s.outAt, s.inAt, inl, call.ok, call.processed⟩] }
    if !call.ok then .inr (-1, s)
    else if call.processed < 0 then .inr (-1, s)
    else .inl { s with
      total := s.total + toSize call.processed
      outAt := s.outAt + (toSize call.processed).toNat
      inAt := s.inAt + (toSize call.processed).toNat }
  else if s.total ≠ inSize then .inr (-1, s)
  else .inr (0, s)

/-- `cipher_update`: the value returned and what is left, if it returns within `fuel` turns. -/
def cipherUpdate {κ : Type} (update : EvpCipherUpdate κ) (ctx : κ) (input : Memory) (inAt : Nat)
    (inSize : UInt64) (out : Memory) (outAt fuel : Nat) : Option (Int × State κ) :=
  Loop.exec (turn update input inSize) fuel ⟨ctx, 0, outAt, inAt, out, []⟩

/-! ## Lengths -/

theorem toNat_toSize {n : Int32} {m : Nat} (eq : n.toInt = m) : (toSize n).toNat = m := by
  have lt := n.toInt_lt
  have same : ((m : Int) % 2 ^ 64).toNat = m := by omega
  rw [toSize, UInt64.ofInt, eq, same, UInt64.toNat_ofNat', Nat.mod_eq_of_lt (by omega)]

theorem toNat_min (a b : UInt64) : (min a b).toNat = min a.toNat b.toNat := by
  change (if a ≤ b then a else b).toNat = _
  split
  · rename_i le
    exact (Nat.min_eq_left (UInt64.le_iff_toNat_le.mp le)).symm
  · rename_i gt
    rw [UInt64.le_iff_toNat_le] at gt
    exact (Nat.min_eq_right (by omega)).symm

/-- What a call is asked for is what is left, up to the largest `int`. -/
theorem toInt_toProcess {inSize total : UInt64} (le : total ≤ inSize) :
    (toProcess inSize total).toInt =
      ((min int32Max (inSize.toNat - total.toNat) : Nat) : Int) := by
  have least : (min (UInt64.ofNat int32Max) (inSize - total)).toNat =
      min int32Max (inSize.toNat - total.toNat) := by
    rw [toNat_min, UInt64.toNat_sub_of_le _ _ le]
    rfl
  rw [toProcess, toInt, Int32.toInt_ofNat_of_lt, least]
  rw [least]
  exact Nat.lt_of_le_of_lt (Nat.min_le_left _ _) (by decide)

/-- Something is asked for as long as something is left. -/
theorem one_le_toProcess {inSize total : UInt64} (more : total < inSize) :
    1 ≤ (toProcess inSize total).toInt := by
  have left : total.toNat < inSize.toNat := UInt64.lt_iff_toNat_lt.mp more
  have largest : 1 ≤ int32Max := by decide
  rw [toInt_toProcess (UInt64.le_of_lt more)]
  omega

/-- The counter does not wrap. -/
theorem toNat_add_ofNat {inSize total : UInt64} {n : Nat}
    (room : n ≤ inSize.toNat - total.toNat) :
    (total + UInt64.ofNat n).toNat = total.toNat + n := by
  have lt := inSize.toNat_lt
  have lt' := total.toNat_lt
  have small : n < 2 ^ 64 := by omega
  rw [UInt64.toNat_add, UInt64.toNat_ofNat', Nat.mod_eq_of_lt small]
  exact Nat.mod_eq_of_lt (by omega)

/-! ## Streams -/

section Stream

variable {κ σ : Type}

/-- The bytes of a buffer, transformed one after the other: the state of the stream afterwards,
and the result. -/
def transform (byte : σ → UInt8 → σ × UInt8) (start : σ) (input : Memory) (inAt n : Nat) :
    σ × List UInt8 :=
  execute byte start (read input inAt n)

/-- A call has transformed the next `n` bytes of the stream and reported that. -/
structure EvpCall.Transforms (call : EvpCall κ) (state : κ → σ) (byte : σ → UInt8 → σ × UInt8)
    (ctx : κ) (out : Memory) (outAt : Nat) (input : Memory) (inAt n : Nat) : Prop where
  reported : call.processed.toInt = n
  advances : state call.ctx = (transform byte (state ctx) input inAt n).1
  writes : call.out = write out outAt (transform byte (state ctx) input inAt n).2

/-- `EVP_CipherUpdate` is a byte-wise stream: a call that succeeds transforms a non-empty part of
what it is asked for, and one that fails leaves the output alone. -/
structure StreamCipher (update : EvpCipherUpdate κ) (state : κ → σ)
    (byte : σ → UInt8 → σ × UInt8) : Prop where
  succeeds : ∀ ctx out outAt input inAt inl, 1 ≤ inl.toInt →
    (update ctx out outAt input inAt inl).ok = true →
    ∃ n : Nat, 1 ≤ n ∧ n ≤ inl.toInt ∧
      (update ctx out outAt input inAt inl).Transforms state byte ctx out outAt input inAt n
  fails : ∀ ctx out outAt input inAt inl, (update ctx out outAt input inAt inl).ok = false →
    (update ctx out outAt input inAt inl).out = out

variable (byte : σ → UInt8 → σ × UInt8) (start : σ) (input : Memory) (inAt : Nat)

@[simp] theorem length_transform (n : Nat) : (transform byte start input inAt n).2.length = n := by
  rw [transform, length_execute, length_read]

/-- Two parts of a buffer are transformed as one. -/
theorem transform_add (k n : Nat) :
    transform byte start input inAt (k + n) =
      ((transform byte (transform byte start input inAt k).1 input (inAt + k) n).1,
        (transform byte start input inAt k).2 ++
          (transform byte (transform byte start input inAt k).1 input (inAt + k) n).2) := by
  rw [transform, read_add, execute_append]
  rfl

end Stream

section Keystream

/-- The next byte of a keystream -/
def xorByte (ks : Nat → UInt8) (p : Nat) (b : UInt8) : Nat × UInt8 := (p + 1, b ^^^ ks p)

theorem execute_xorByte (ks : Nat → UInt8) (p : Nat) (bs : List UInt8) :
    execute (xorByte ks) p bs = (p + bs.length, xorStream ks p bs) := by
  induction bs using List.reverseRecOn with
  | nil => rfl
  | append_singleton bs b ih =>
      rw [execute_snoc, ih, xorStream_append, List.length_append]
      rfl

/-- An `EVP_CipherUpdate` over a keystream that processes what `report` says. The context is the
number of calls and the position in the keystream. -/
def reportUpdate (report : Nat → Nat → Option Int) (ks : Nat → UInt8) :
    EvpCipherUpdate (Nat × Nat) :=
  fun ctx out outAt input inAt inl =>
    match report ctx.1 inl.toInt.toNat with
    | none => ⟨false, ctx, 0, out⟩
    | some p => ⟨true, (ctx.1 + 1, ctx.2 + p.toNat), Int32.ofInt p,
        write out outAt (xorStream ks ctx.2 (read input inAt p.toNat))⟩

variable {report : Nat → Nat → Option Int}

theorem reportUpdate_transforms (streams : Streams report) (ks : Nat → UInt8) {p : Int}
    {ctx : Nat × Nat} {inl : Int32} (positive : 1 ≤ inl.toInt)
    (told : report ctx.1 inl.toInt.toNat = some p) (out : Memory) (outAt : Nat) (input : Memory)
    (inAt : Nat) :
    1 ≤ p.toNat ∧ p.toNat ≤ inl.toInt ∧
      (reportUpdate report ks ctx out outAt input inAt inl).Transforms Prod.snd (xorByte ks) ctx
        out outAt input inAt p.toNat := by
  rcases streams _ _ _ (by omega) told with ⟨one, atMost⟩
  have small := inl.toInt_lt
  refine ⟨by omega, by omega, ?_, ?_, ?_⟩
  · simp only [reportUpdate, told]
    rw [Int32.toInt_ofInt_of_le (by omega) (by omega)]
    omega
  · simp only [reportUpdate, told, transform, execute_xorByte, length_read]
  · simp only [reportUpdate, told, transform, execute_xorByte]

theorem streamCipher_reportUpdate (streams : Streams report) (ks : Nat → UInt8) :
    StreamCipher (reportUpdate report ks) Prod.snd (xorByte ks) := by
  constructor
  · intro ctx out outAt input inAt inl positive ok
    cases told : report ctx.1 inl.toInt.toNat with
    | none =>
        simp only [reportUpdate, told] at ok
        cases ok
    | some p =>
        exact ⟨p.toNat, reportUpdate_transforms streams ks positive told out outAt input inAt⟩
  · intro ctx out outAt input inAt inl failed
    cases told : report ctx.1 inl.toInt.toNat with
    | none => simp only [reportUpdate, told]
    | some p =>
        simp only [reportUpdate, told] at failed
        cases failed

end Keystream

/-! ## What a turn does -/

/-- The first `n` bytes of two buffers, in order. -/
def positions (inAt outAt n : Nat) : List (Nat × Nat) :=
  (List.range n).map fun i => (inAt + i, outAt + i)

/-- The bytes of the input that a call has processed, each with its place in the output. -/
def Call.bytes (call : Call) : List (Nat × Nat) :=
  positions call.inAt call.outAt call.processed.toInt.toNat

theorem positions_add (inAt outAt k n : Nat) :
    positions inAt outAt (k + n) =
      positions inAt outAt k ++ positions (inAt + k) (outAt + k) n := by
  simp only [positions, List.range_add, List.map_append, List.map_map]
  congr 1
  apply List.map_congr_left
  intro i _
  simp only [Function.comp_apply, Nat.add_assoc]

section Loop

variable {κ σ : Type} {update : EvpCipherUpdate κ} {state : κ → σ}
  {byte : σ → UInt8 → σ × UInt8}

/-- The call that is made in a state of the loop. -/
def State.next (s : State κ) (update : EvpCipherUpdate κ) (input : Memory) (inSize : UInt64) :
    EvpCall κ :=
  update s.ctx s.out s.outAt input s.inAt (toProcess inSize s.total)

/-- The state with that call recorded. -/
def State.made (s : State κ) (update : EvpCipherUpdate κ) (input : Memory) (inSize : UInt64) :
    State κ :=
  let call := s.next update input inSize
  { s with
    ctx := call.ctx
    out := call.out
    calls := s.calls ++
      [⟨s.outAt, s.inAt, toProcess inSize s.total, call.ok, call.processed⟩] }

theorem mem_calls_made {input : Memory} {inSize : UInt64} {s : State κ} {call : Call}
    (member : call ∈ (s.made update input inSize).calls) :
    call ∈ s.calls ∨ call = ⟨s.outAt, s.inAt, toProcess inSize s.total,
      (s.next update input inSize).ok, (s.next update input inSize).processed⟩ := by
  rcases List.mem_append.mp member with old | new
  · exact Or.inl old
  · exact Or.inr (List.mem_singleton.mp new)

theorem turn_of_lt {input : Memory} {inSize : UInt64} {s : State κ} (more : s.total < inSize) :
    turn update input inSize s =
      if !(s.next update input inSize).ok then .inr (-1, s.made update input inSize)
      else if (s.next update input inSize).processed < 0 then
        .inr (-1, s.made update input inSize)
      else
        let moved := toSize (s.next update input inSize).processed
        .inl { s.made update input inSize with
          total := s.total + moved
          outAt := s.outAt + moved.toNat
          inAt := s.inAt + moved.toNat } := by
  rw [turn, if_pos more]
  rfl

/-- The state after a call that has processed `n` bytes. -/
def State.moved (s : State κ) (update : EvpCipherUpdate κ) (input : Memory) (inSize : UInt64)
    (n : Nat) : State κ :=
  { s.made update input inSize with
    total := s.total + UInt64.ofNat n
    outAt := s.outAt + n
    inAt := s.inAt + n }

/-- Everything a turn can do: a failing call is returned, a successful one moves everything by
the length it reports, and with nothing left to process the loop ends. -/
theorem turn_cases (stream : StreamCipher update state byte) (input : Memory) {inSize : UInt64}
    {s : State κ} (le : s.total ≤ inSize) :
    (s.total < inSize ∧ (s.next update input inSize).ok = false ∧
        (s.next update input inSize).out = s.out ∧
        turn update input inSize s = .inr (-1, s.made update input inSize)) ∨
      (∃ n : Nat, s.total < inSize ∧ 1 ≤ n ∧ n ≤ inSize.toNat - s.total.toNat ∧
        (s.next update input inSize).ok = true ∧
        (s.next update input inSize).Transforms state byte s.ctx s.out s.outAt input s.inAt n ∧
        turn update input inSize s = .inl (s.moved update input inSize n)) ∨
      (s.total = inSize ∧ turn update input inSize s = .inr (0, s)) := by
  by_cases more : s.total < inSize
  · cases ok : (s.next update input inSize).ok with
    | false =>
        refine Or.inl ⟨more, rfl, stream.fails _ _ _ _ _ _ ok, ?_⟩
        rw [turn_of_lt more, ok]
        rfl
    | true =>
        have asked := toInt_toProcess le
        have positive := one_le_toProcess more
        rcases stream.succeeds _ _ _ _ _ _ positive ok with ⟨n, one, atMost, transforms⟩
        change (s.next update input inSize).Transforms state byte s.ctx s.out s.outAt input s.inAt
          n at transforms
        refine Or.inr (Or.inl ⟨n, more, one, by omega, rfl, transforms, ?_⟩)
        have size := toNat_toSize transforms.reported
        have same : toSize (s.next update input inSize).processed = UInt64.ofNat n := by
          rw [← size, UInt64.ofNat_toNat]
        have notNegative : ¬ (s.next update input inSize).processed < 0 := by
          rw [Int32.lt_iff_toInt_lt, transforms.reported, Int32.toInt_zero]
          omega
        rw [turn_of_lt more, ok, if_neg (by simp), if_neg notNegative]
        dsimp only
        rw [size, same, State.moved]
  · have eq : s.total = inSize := UInt64.le_antisymm le (UInt64.not_lt.mp more)
    refine Or.inr (Or.inr ⟨eq, ?_⟩)
    rw [turn, if_neg more, if_neg (not_not.mpr eq)]

/-- The loop has processed the first `total` bytes: the pointers have moved as far, the stream and
the output are where its transform leaves them, and the calls have taken the bytes in order. -/
structure Processed (state : κ → σ) (byte : σ → UInt8 → σ × UInt8) (ctx : κ) (input : Memory)
    (inAt : Nat) (inSize : UInt64) (out : Memory) (outAt : Nat) (s : State κ) : Prop where
  le : s.total ≤ inSize
  inMoved : s.inAt = inAt + s.total.toNat
  outMoved : s.outAt = outAt + s.total.toNat
  advanced : state s.ctx = (transform byte (state ctx) input inAt s.total.toNat).1
  written : s.out = write out outAt (transform byte (state ctx) input inAt s.total.toNat).2
  ok : ∀ call ∈ s.calls, call.ok = true
  asked : ∀ call ∈ s.calls, 1 ≤ call.toProcess.toInt
  bytes : s.calls.flatMap Call.bytes = positions inAt outAt s.total.toNat

/-- What `cipher_update` returns with: the transform of all of the input, or of a part of it that
is followed by a failing call. -/
structure OneShot (state : κ → σ) (byte : σ → UInt8 → σ × UInt8) (ctx : κ) (input : Memory)
    (inAt : Nat) (inSize : UInt64) (out : Memory) (outAt : Nat) (r : Int × State κ) : Prop where
  asked : ∀ call ∈ r.2.calls, 1 ≤ call.toProcess.toInt ∧ call.toProcess.toInt ≤ 2 ^ 31 - 1
  succeeds : (∀ call ∈ r.2.calls, call.ok = true) →
    r.1 = 0 ∧ r.2.out = write out outAt (transform byte (state ctx) input inAt inSize.toNat).2 ∧
      r.2.calls.flatMap Call.bytes = positions inAt outAt inSize.toNat
  fails : (∃ call ∈ r.2.calls, call.ok = false) →
    r.1 = -1 ∧ ∃ done, done < inSize.toNat ∧
      r.2.out = write out outAt (transform byte (state ctx) input inAt done).2 ∧
      (r.2.calls.filter Call.ok).flatMap Call.bytes = positions inAt outAt done

variable {ctx : κ} {input out : Memory} {inAt outAt : Nat} {inSize : UInt64} {s : State κ}

theorem Processed.start : Processed state byte ctx input inAt inSize out outAt
    ⟨ctx, 0, outAt, inAt, out, []⟩ := by
  refine ⟨UInt64.zero_le, rfl, rfl, rfl, ?_, by simp, by simp, rfl⟩
  exact (write_nil out outAt).symm

theorem Processed.moved (before : Processed state byte ctx input inAt inSize out outAt s)
    (more : s.total < inSize) {n : Nat} (room : n ≤ inSize.toNat - s.total.toNat)
    (ok : (s.next update input inSize).ok = true)
    (transforms : (s.next update input inSize).Transforms state byte s.ctx s.out s.outAt input
      s.inAt n) :
    Processed state byte ctx input inAt inSize out outAt (s.moved update input inSize n) := by
  have total : (s.moved update input inSize n).total.toNat = s.total.toNat + n :=
    toNat_add_ofNat room
  have left : s.total.toNat < inSize.toNat := UInt64.lt_iff_toNat_lt.mp more
  have parts := transform_add byte (state ctx) input inAt s.total.toNat n
  rw [← before.advanced, ← before.inMoved] at parts
  refine ⟨?_, ?_, ?_, ?_, ?_, ?_, ?_, ?_⟩
  · rw [UInt64.le_iff_toNat_le, total]
    omega
  · rw [total, State.moved, before.inMoved, Nat.add_assoc]
  · rw [total, State.moved, before.outMoved, Nat.add_assoc]
  · rw [total, parts]
    exact transforms.advances
  · rw [total, parts, write_append, length_transform, ← before.written, ← before.outMoved]
    exact transforms.writes
  · intro call member
    rcases mem_calls_made member with old | rfl
    · exact before.ok call old
    · exact ok
  · intro call member
    rcases mem_calls_made member with old | rfl
    · exact before.asked call old
    · exact one_le_toProcess more
  · rw [total, positions_add, ← before.bytes, ← before.inMoved, ← before.outMoved]
    rw [State.moved, State.made, List.flatMap_append, List.flatMap_singleton, Call.bytes,
      transforms.reported, Int.toNat_natCast]

/-- A failing call ends the loop after what was processed before it. -/
theorem Processed.failed (before : Processed state byte ctx input inAt inSize out outAt s)
    (more : s.total < inSize) (failed : (s.next update input inSize).ok = false)
    (untouched : (s.next update input inSize).out = s.out) :
    OneShot state byte ctx input inAt inSize out outAt (-1, s.made update input inSize) := by
  have last : ⟨s.outAt, s.inAt, toProcess inSize s.total, (s.next update input inSize).ok,
      (s.next update input inSize).processed⟩ ∈ (s.made update input inSize).calls :=
    List.mem_append_right _ (List.mem_singleton.mpr rfl)
  refine ⟨?_, ?_, ?_⟩
  · intro call member
    refine ⟨?_, Int.le_sub_one_of_lt call.toProcess.toInt_lt⟩
    rcases mem_calls_made member with old | rfl
    · exact before.asked call old
    · exact one_le_toProcess more
  · intro all
    have ok := all _ last
    rw [failed] at ok
    cases ok
  · intro _
    refine ⟨rfl, s.total.toNat, UInt64.lt_iff_toNat_lt.mp more, ?_, ?_⟩
    · rw [← before.written, ← untouched]
      rfl
    · have kept : s.calls.filter Call.ok = s.calls := List.filter_eq_self.mpr before.ok
      rw [State.made, List.filter_append, kept, List.filter_singleton, failed, ← before.bytes]
      simp

/-- Without a failing call, the loop ends when all of the input is processed. -/
theorem Processed.finished (before : Processed state byte ctx input inAt inSize out outAt s)
    (all : s.total = inSize) : OneShot state byte ctx input inAt inSize out outAt (0, s) := by
  refine ⟨?_, ?_, ?_⟩
  · intro call member
    exact ⟨before.asked call member, Int.le_sub_one_of_lt call.toProcess.toInt_lt⟩
  · intro _
    rw [← all]
    exact ⟨rfl, before.written, before.bytes⟩
  · rintro ⟨call, member, failed⟩
    rw [before.ok call member] at failed
    cases failed

/-- `cipher_update` returns for every size, whatever parts of its input `EVP_CipherUpdate`
processes at a time, and has done what one call for all of the input would have done, or returns
-1 with no more than that of the bytes before a failing call. -/
theorem cipherUpdate_oneShot (stream : StreamCipher update state byte) (ctx : κ) (input : Memory)
    (inAt : Nat) (inSize : UInt64) (out : Memory) (outAt : Nat) :
    ∃ r, (∀ fuel, inSize.toNat < fuel →
        cipherUpdate update ctx input inAt inSize out outAt fuel = some r) ∧
      OneShot state byte ctx input inAt inSize out outAt r := by
  -- what is left to process goes down with every turn, as a call reports at least one byte
  refine Loop.exec_total (fun s => inSize.toNat - s.total.toNat) ?_ ?_
    (Processed.start : Processed state byte ctx input inAt inSize out outAt _)
  · intro s next before turned
    rcases turn_cases stream input before.le with
      ⟨-, -, -, eq⟩ | ⟨n, more, one, room, ok, transforms, eq⟩ | ⟨-, eq⟩
    · cases eq.symm.trans turned
    · cases eq.symm.trans turned
      refine ⟨before.moved more room ok transforms, ?_⟩
      have total : (s.moved update input inSize n).total.toNat = s.total.toNat + n :=
        toNat_add_ofNat room
      omega
    · cases eq.symm.trans turned
  · intro s r before turned
    rcases turn_cases stream input before.le with
      ⟨more, failed, untouched, eq⟩ | ⟨n, -, -, -, -, -, eq⟩ | ⟨all, eq⟩
    · cases eq.symm.trans turned
      exact before.failed more failed untouched
    · cases eq.symm.trans turned
    · cases eq.symm.trans turned
      exact before.finished all

/-- Five bytes through a keystream, of which a call processes at most two. -/
theorem cipherUpdate_oneShot_in_chunks :
    ∃ r, cipherUpdate
        (reportUpdate (fun _ asked => some (min asked 2)) fun p => UInt8.ofNat (p + 5)) (0, 0)
        (fun a => UInt8.ofNat (3 * a)) 0 5 (fun _ => 0) 0 6 = some r ∧
      r.1 = 0 ∧ r.2.calls.map Call.ok = [true, true, true] ∧
      read r.2.out 0 5 = [5, 5, 1, 1, 5] := by
  have streams : Streams fun _ asked => some (min (asked : Int) 2) := by
    intro call asked p positive told
    cases told
    omega
  have stream := streamCipher_reportUpdate streams fun p => UInt8.ofNat (p + 5)
  rcases cipherUpdate_oneShot stream (0, 0) (fun a => UInt8.ofNat (3 * a)) 0 5 (fun _ => 0) 0 with
    ⟨r, reached, oneShot⟩
  have here := reached 6 (by decide)
  have calls : (cipherUpdate (reportUpdate (fun _ asked => some (min asked 2))
      fun p => UInt8.ofNat (p + 5)) (0, 0) (fun a => UInt8.ofNat (3 * a)) 0 5 (fun _ => 0) 0 6).map
        (fun r => r.2.calls.map Call.ok) = some [true, true, true] := by
    decide +kernel
  rw [here, Option.map_some, Option.some_inj] at calls
  have ok : ∀ call ∈ r.2.calls, call.ok = true := by
    intro call member
    have mapped := List.mem_map_of_mem (f := Call.ok) member
    rw [calls] at mapped
    simpa using mapped
  rcases oneShot.succeeds ok with ⟨ret, out, -⟩
  refine ⟨r, here, ret, calls, ?_⟩
  rw [out]
  decide +kernel

end Loop

/-! ## The codec's `cipherUpdate` -/

section Codec

variable {report : Nat → Nat → Option Int} {ks : Nat → UInt8}

theorem cipherUpdateLoop_done (pos : Nat) {input : Bytes} (fuel call : Nat) {total : Nat}
    (all : total = input.length) :
    cipherUpdateLoop report ks pos input fuel call total = ⟨[], 0⟩ := by
  cases fuel with
  | zero => rw [cipherUpdateLoop, if_neg (not_not.mpr all)]
  | succ fuel =>
      rw [cipherUpdateLoop, if_neg (by omega), if_neg (not_not.mpr all)]

theorem cipherUpdateLoop_fails (pos : Nat) {input : Bytes} (fuel : Nat) {call total : Nat}
    (more : total < input.length)
    (told : report call (min int32Max (input.length - total)) = none) :
    cipherUpdateLoop report ks pos input (fuel + 1) call total = ⟨[], -1⟩ := by
  rw [cipherUpdateLoop, if_pos more, told]

theorem cipherUpdateLoop_moves (pos : Nat) {input : Bytes} (fuel : Nat) {call total n : Nat}
    (more : total < input.length)
    (told : report call (min int32Max (input.length - total)) = some (n : Int)) :
    cipherUpdateLoop report ks pos input (fuel + 1) call total =
      ⟨xorStream ks (pos + total) ((input.drop total).take n) ++
          (cipherUpdateLoop report ks pos input fuel (call + 1) (total + n)).out,
        (cipherUpdateLoop report ks pos input fuel (call + 1) (total + n)).ret⟩ := by
  rw [cipherUpdateLoop, if_pos more, told]
  simp only [Int.toNat_natCast, if_neg (Int.not_lt.mpr (Int.natCast_nonneg n))]

/-- A turn moves the loop by what `report` says. -/
structure State.Follows (s next : State (Nat × Nat)) (ks : Nat → UInt8) (input : Memory)
    (n : Nat) : Prop where
  ctx : next.ctx = (s.ctx.1 + 1, s.ctx.2 + n)
  total : next.total.toNat = s.total.toNat + n
  outAt : next.outAt = s.outAt + n
  inAt : next.inAt = s.inAt + n
  out : next.out = write s.out s.outAt (xorStream ks s.ctx.2 (read input s.inAt n))

theorem turn_reportUpdate (streams : Streams report) (ks : Nat → UInt8) (input : Memory)
    {inSize : UInt64} {s : State (Nat × Nat)} (le : s.total ≤ inSize) :
    (s.total < inSize ∧ report s.ctx.1 (toProcess inSize s.total).toInt.toNat = none ∧
        ∃ last, turn (reportUpdate report ks) input inSize s = .inr (-1, last) ∧
          last.out = s.out) ∨
      (∃ (n : Nat) (next : State (Nat × Nat)), s.total < inSize ∧ 1 ≤ n ∧
        n ≤ inSize.toNat - s.total.toNat ∧
        report s.ctx.1 (toProcess inSize s.total).toInt.toNat = some (n : Int) ∧
        turn (reportUpdate report ks) input inSize s = .inl next ∧ s.Follows next ks input n) ∨
      (s.total = inSize ∧ turn (reportUpdate report ks) input inSize s = .inr (0, s)) := by
  rcases turn_cases (streamCipher_reportUpdate streams ks) input le with
    ⟨more, failed, untouched, eq⟩ | ⟨n, more, one, room, ok, transforms, eq⟩ | done
  · refine Or.inl ⟨more, ?_, _, eq, untouched⟩
    cases told : report s.ctx.1 (toProcess inSize s.total).toInt.toNat with
    | none => rfl
    | some p =>
        rw [State.next, reportUpdate, told] at failed
        cases failed
  · cases told : report s.ctx.1 (toProcess inSize s.total).toInt.toNat with
    | none =>
        rw [State.next, reportUpdate, told] at ok
        cases ok
    | some p =>
        have positive := one_le_toProcess more
        have same : p = n := by
          have atLeast := (streams _ _ _ (by omega) told).1
          have reported := (reportUpdate_transforms streams ks positive told s.out s.outAt input
            s.inAt).2.2.reported
          have reported' := transforms.reported
          rw [State.next] at reported'
          omega
        subst same
        refine Or.inr (Or.inl ⟨n, _, more, one, room, rfl, eq, ?_, ?_, rfl, rfl, ?_⟩)
        · change (s.next (reportUpdate report ks) input inSize).ctx = _
          rw [State.next, reportUpdate, told]
          rfl
        · exact toNat_add_ofNat room
        · change (s.next (reportUpdate report ks) input inSize).out = _
          rw [State.next, reportUpdate, told]
          rfl
  · exact Or.inr (Or.inr done)

/-- The loop and the codec's one, from a state in which the first `total` bytes are processed. -/
theorem exec_cipherUpdateLoop (streams : Streams report) (ks : Nat → UInt8) (input : Memory)
    {inAt pos : Nat} {inSize : UInt64} {fuel : Nat} {s : State (Nat × Nat)}
    (le : s.total ≤ inSize) (enough : inSize.toNat - s.total.toNat ≤ fuel)
    (inMoved : s.inAt = inAt + s.total.toNat) (position : s.ctx.2 = pos + s.total.toNat) :
    ∃ s', Loop.exec (turn (reportUpdate report ks) input inSize) (fuel + 1) s =
        some ((cipherUpdateLoop report ks pos (read input inAt inSize.toNat) fuel s.ctx.1
          s.total.toNat).ret, s') ∧
      s'.out = write s.out s.outAt (cipherUpdateLoop report ks pos
        (read input inAt inSize.toNat) fuel s.ctx.1 s.total.toNat).out := by
  have length : (read input inAt inSize.toNat).length = inSize.toNat := length_read ..
  induction fuel generalizing s with
  | zero =>
      have all : s.total = inSize :=
        UInt64.le_antisymm le (UInt64.le_iff_toNat_le.mpr (Nat.le_of_sub_eq_zero (by omega)))
      rw [cipherUpdateLoop_done pos 0 s.ctx.1 (by rw [length, all]), write_nil]
      refine ⟨s, Loop.exec_of_inr ?_ 0, rfl⟩
      rw [turn, all, if_neg (UInt64.lt_irrefl _), if_neg (not_not.mpr rfl)]
  | succ fuel ih =>
      have asked : (toProcess inSize s.total).toInt.toNat =
          min int32Max ((read input inAt inSize.toNat).length - s.total.toNat) := by
        rw [toInt_toProcess le, Int.toNat_natCast, length]
      rcases turn_reportUpdate streams ks input le with
        ⟨more, told, last, eq, untouched⟩ | ⟨n, next, more, one, room, told, eq, follows⟩ |
          ⟨all, eq⟩
      · have left := UInt64.lt_iff_toNat_lt.mp more
        rw [asked] at told
        rw [cipherUpdateLoop_fails pos fuel (by omega) told, write_nil]
        exact ⟨last, Loop.exec_of_inr eq _, untouched⟩
      · have left := UInt64.lt_iff_toNat_lt.mp more
        have total := follows.total
        have nextLe : next.total ≤ inSize := by
          rw [UInt64.le_iff_toNat_le]
          omega
        have chunk : ((read input inAt inSize.toNat).drop s.total.toNat).take n =
            read input s.inAt n := by
          rw [drop_read _ _ (by omega), take_read _ _ room, inMoved]
        have moved : next.inAt = inAt + next.total.toNat := by
          rw [follows.inAt, inMoved, total, Nat.add_assoc]
        have at_ : next.ctx.2 = pos + next.total.toNat := by
          rw [follows.ctx, total, position, Nat.add_assoc]
        rcases ih nextLe (by omega) moved at_ with ⟨s', reached, out⟩
        rw [follows.ctx, total] at reached out
        rw [asked] at told
        rw [cipherUpdateLoop_moves pos fuel (by omega) told, Loop.exec_of_inl eq]
        refine ⟨s', reached, ?_⟩
        rw [out, write_append, length_xorStream, chunk, length_read, follows.out, follows.outAt,
          position]
      · rw [cipherUpdateLoop_done pos _ s.ctx.1 (by rw [length, all]), write_nil]
        exact ⟨s, Loop.exec_of_inr eq _, rfl⟩

/-- The codec's `cipherUpdate` returns and writes what the loop does. -/
theorem cipherUpdate_codec (streams : Streams report) (ks : Nat → UInt8) (pos : Nat)
    (input : Memory) (inAt : Nat) (inSize : UInt64) (out : Memory) (outAt : Nat) :
    ∃ s, (∀ fuel, inSize.toNat < fuel →
        cipherUpdate (reportUpdate report ks) (0, pos) input inAt inSize out outAt fuel =
          some ((NetworkStack.cipherUpdate report ks pos (read input inAt inSize.toNat)).ret, s)) ∧
      s.out = write out outAt
        (NetworkStack.cipherUpdate report ks pos (read input inAt inSize.toNat)).out := by
  have start : (⟨(0, pos), 0, outAt, inAt, out, []⟩ : State (Nat × Nat)).total ≤ inSize :=
    UInt64.zero_le
  rcases exec_cipherUpdateLoop streams ks input start (Nat.le_refl _) rfl rfl with
    ⟨s, reached, written⟩
  have size : (read input inAt inSize.toNat).length = inSize.toNat := length_read ..
  refine ⟨s, ?_, ?_⟩
  · intro fuel lt
    rw [NetworkStack.cipherUpdate, size]
    exact Loop.exec_mono lt reached
  · rw [NetworkStack.cipherUpdate, size]
    exact written

end Codec

end Chunked

end NetworkStack
