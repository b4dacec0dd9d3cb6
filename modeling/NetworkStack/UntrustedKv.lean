import NetworkStack.CodecRoundTrip
import NetworkStack.Lib.Arena
import NetworkStack.Lib.FlatMemory
import NetworkStack.Lib.Run

/-!
# A store in untrusted memory

`untrusted_kv.cpp`, the store behind the server of the performance tests: a map
from keys to blocks of untrusted memory, in which the values lie encrypted.
Several threads call it. `kv_get`, `kv_delete` and most of `kv_put` run under one
lock, but `kv_put` looks its key up before it takes the lock, so it is two steps
of its thread here (`lookup` and `put`), between which other threads may act.

The application's promises are in `Admissible`: values have `VAL_SIZE` bytes, no
library call fails, the areas that are mapped are new ones, and no key that is
there is deleted, which the code does not survive (it reads a node of the map
after erasing it, and frees memory that was not allocated with `malloc`).

Under these the store is a map, except for a put that was overtaken: two threads
that put a new key at the same time both find it absent, and the second one
writes its value to a block that the map does not know.
-/

namespace NetworkStack

open FlatMemory Machine

/-! ## Model -/

/-- A `kv_put` that has looked its key up and waits for the lock. -/
structure PendingPut : Type where
  key : Bytes
  value : Bytes
  iter : Option Nat

/-- The areas and the memory in them, the map from keys to blocks, the IV of
`encrypt_message`, and for each thread its `kv_put` and its `val_buf`. -/
structure UntrustedKv : Type where
  arena : Arena
  memory : Memory
  store : List (Bytes × Nat)
  iv : Iv
  puts : Nat → Option PendingPut
  valBufs : Nat → Option Memory

/-- The result of `mmap`, the outcomes of `encrypt_message`, and what it leaves in the block
where it fails. -/
structure PutEnv : Type where
  mapped : Nat
  enc : EncEnv
  left : Bytes

/-- The result of `malloc` for `val_buf`, the outcomes of `decrypt_message`, and what its
uninitialized header holds. -/
structure GetEnv : Type where
  malloc : Option Memory
  dec : DecEnv
  stack : RdmaMsgHeader

namespace UntrustedKv

/-- `area_size` -/
def areaSize (valSize : Nat) : Nat := ciphertextSize valSize * 2 ^ 20

def init (memory : Memory) (iv : Iv) : UntrustedKv :=
  ⟨.empty, memory, [], iv, fun _ => none, fun _ => none⟩

def find (s : UntrustedKv) (key : Bytes) : Option Nat := s.store.lookup key

/-- `std::map::insert`, which leaves an entry that is there. -/
def insert (s : UntrustedKv) (key : Bytes) (block : Nat) : UntrustedKv :=
  if (s.find key).isSome then s else { s with store := (key, block) :: s.store }

/-- `untrusted_malloc` -/
def untrustedMalloc (valSize mapped : Nat) (s : UntrustedKv) : Option Nat × UntrustedKv :=
  let r := s.arena.alloc (areaSize valSize) (ciphertextSize valSize) mapped
  (r.1, { s with arena := r.2 })

/-- `kv_put` before the lock. -/
def kvPutLookup (thread : Nat) (key value : Bytes) (s : UntrustedKv) : UntrustedKv :=
  { s with puts := Function.update s.puts thread (some ⟨key, value, s.find key⟩) }

/-- The block that `kv_put` writes to: the one that was found, or a new one. -/
def blockFor (valSize : Nat) (env : PutEnv) (put : PendingPut) (s : UntrustedKv) :
    Option Nat × UntrustedKv :=
  match put.iter with
  | some block => (some block, s)
  | none =>
      match s.untrustedMalloc valSize env.mapped with
      | (none, s) => (none, s)
      | (some block, s) => (some block, s.insert put.key block)

/-- `kv_put` under the lock. -/
def kvPut (gcm : AesGcm) (encKey : Bytes) (valSize : Nat) (env : PutEnv) (thread : Nat)
    (s : UntrustedKv) : UntrustedKv × Int :=
  match s.puts thread with
  | none => (s, 0)
  | some put =>
      let s := { s with puts := Function.update s.puts thread none }
      match s.blockFor valSize env put with
      | (none, s) => (s, -1)
      | (some block, s) =>
          let r := encryptMessage gcm encKey { env.enc with prealloc := true } s.iv ⟨0, 0⟩
            ⟨none, some put.value, put.value.length⟩
          match r.2 with
          | none => ({ s with iv := r.1, memory := write s.memory block env.left }, -1)
          | some text => ({ s with iv := r.1, memory := write s.memory block text }, 0)

/-- `kv_get`: what `decrypt_message` returns is only printed. -/
def kvGet (gcm : AesGcm) (encKey : Bytes) (valSize : Nat) (env : GetEnv) (thread : Nat)
    (key : Bytes) (s : UntrustedKv) : UntrustedKv × Option Bytes :=
  let valBuf := (s.valBufs thread).or env.malloc
  match s.find key with
  | none => ({ s with valBufs := Function.update s.valBufs thread valBuf }, none)
  | some block =>
      let buffer : Option Nat := valBuf.map fun _ => 0
      let r := decryptMessage gcm encKey env.dec env.stack ⟨.null, callerPtr buffer, 0⟩
        ⟨valBuf.getD fun _ => 0, fun _ => 0, []⟩ (read s.memory block (ciphertextSize valSize))
      let valBuf := valBuf.map fun _ => r.mem.bytes
      ({ s with valBufs := Function.update s.valBufs thread valBuf },
        valBuf.map fun bytes => read bytes 0 valSize)

/-- `kv_delete`; nothing is said of a key that is there. -/
def kvDelete (key : Bytes) (s : UntrustedKv) : Option Int :=
  if (s.find key).isSome then none else some (-1)

/-! ## Calls -/

inductive Action : Type
  | lookup (thread : Nat) (key value : Bytes)
  | put (thread : Nat) (env : PutEnv)
  | get (thread : Nat) (key : Bytes) (env : GetEnv)
  | delete (key : Bytes)

inductive Answer : Type
  | waits
  | stored (ret : Int)
  | value (found : Option Bytes)
  | deleted (ret : Option Int)

def invoke (gcm : AesGcm) (encKey : Bytes) (valSize : Nat) (s : UntrustedKv) :
    Action → UntrustedKv × Answer
  | .lookup thread key value => (s.kvPutLookup thread key value, .waits)
  | .put thread env =>
      let r := s.kvPut gcm encKey valSize env thread
      (r.1, .stored r.2)
  | .get thread key env =>
      let r := s.kvGet gcm encKey valSize env thread key
      (r.1, .value r.2)
  | .delete key => (s, .deleted (s.kvDelete key))

/-- What the application and the libraries promise. -/
def Admissible (valSize : Nat) (s : UntrustedKv) : Action → Prop
  | .lookup _ _ value => value.length = valSize
  | .put _ env => env.enc.Ok ∧ env.mapped ≠ 0 ∧
      ∀ base ∈ s.arena.areas, Arena.Apart (areaSize valSize) env.mapped base
  | .get _ _ env => env.malloc.isSome = true ∧ env.dec.Ok
  | .delete key => s.find key = none

end UntrustedKv

/-! ## The map -/

/-- A map, and the puts that wait, with whether they found their key. -/
structure SharedMap : Type where
  map : Bytes → Option Bytes
  puts : Nat → Option (Bytes × Bytes × Bool)

namespace SharedMap

def init : SharedMap := ⟨fun _ => none, fun _ => none⟩

/-- The put was overtaken: its key is there now, and was not when it looked it up. -/
def overtaken (m : SharedMap) (key : Bytes) (found : Bool) : Bool :=
  !found && (m.map key).isSome

/-- A put takes effect unless it was overtaken. -/
def invoke (m : SharedMap) : UntrustedKv.Action → SharedMap × UntrustedKv.Answer
  | .lookup thread key value =>
      ({ m with puts := Function.update m.puts thread (some (key, value, (m.map key).isSome)) },
        .waits)
  | .put thread _ =>
      match m.puts thread with
      | none => (m, .stored 0)
      | some (key, value, found) =>
          ({ map := if m.overtaken key found then m.map else Function.update m.map key (some value)
             puts := Function.update m.puts thread none }, .stored 0)
  | .get _ key _ => (m, .value (m.map key))
  | .delete _ => (m, .deleted (some (-1)))

end SharedMap

/-! ## Representation -/

namespace UntrustedKv

/-- The block at `p` carries the value. -/
def Carries (gcm : AesGcm) (encKey : Bytes) (valSize : Nat) (memory : Memory) (p : Nat)
    (value : Bytes) : Prop :=
  openMessage gcm encKey (read memory p (ciphertextSize valSize)) = some ⟨0, [], value⟩

/-- An area that was mapped contains the address. -/
def Mapped (valSize : Nat) (s : UntrustedKv) (x : Nat) : Prop :=
  ∃ base ∈ s.arena.areas, base ≤ x ∧ x < base + areaSize valSize

/-- The store represents the map: each key has a block of its own that was handed out and
carries its value; a put that waits has the block of its key, if it found one; and nothing was
written but to areas that were mapped. -/
structure Represents (gcm : AesGcm) (encKey : Bytes) (valSize : Nat) (memory : Memory)
    (s : UntrustedKv) (m : SharedMap) : Prop where
  formed : s.arena.WellFormed (areaSize valSize)
  present : ∀ key p, s.find key = some p → ∃ value, m.map key = some value ∧
    value.length = valSize ∧ Carries gcm encKey valSize s.memory p value
  absent : ∀ key, s.find key = none → m.map key = none
  used : ∀ key p, s.find key = some p → ∀ x, p ≤ x → x < p + ciphertextSize valSize →
    s.arena.Used (areaSize valSize) x ∧ s.Mapped valSize x
  apart : ∀ key key' p p', s.find key = some p → s.find key' = some p' → key ≠ key' →
    p + ciphertextSize valSize ≤ p' ∨ p' + ciphertextSize valSize ≤ p
  waiting : ∀ thread, m.puts thread =
    (s.puts thread).map fun put => (put.key, put.value, put.iter.isSome)
  iter : ∀ thread put, s.puts thread = some put → put.value.length = valSize ∧
    ∀ p, put.iter = some p → s.find put.key = some p
  outside : ∀ x, ¬ s.Mapped valSize x → s.memory x = memory x

section Steps

variable {gcm : AesGcm} {encKey : Bytes} {valSize : Nat} {memory : Memory} {s : UntrustedKv}
  {m : SharedMap}

theorem represents_init (gcm : AesGcm) (encKey : Bytes) (valSize : Nat) (memory : Memory)
    (iv : Iv) : (init memory iv).Represents gcm encKey valSize memory SharedMap.init := by
  refine ⟨Arena.wellFormed_empty _, ?_, fun _ _ => rfl, ?_, ?_, fun _ => rfl, ?_, fun _ _ => rfl⟩
  · intro key p found
    cases found
  · intro key p found
    cases found
  · intro key key' p p' found
    cases found
  · intro thread put waits
    cases waits

theorem Represents.isSome_find (represents : s.Represents gcm encKey valSize memory m)
    (key : Bytes) : (m.map key).isSome = (s.find key).isSome := by
  cases found : s.find key with
  | none => rw [represents.absent key found]
            rfl
  | some p =>
      obtain ⟨value, isValue, -⟩ := represents.present key p found
      rw [isValue]
      rfl

/-- A put waits with the block of its key, or with none. -/
theorem Represents.waits (represents : s.Represents gcm encKey valSize memory m) (thread : Nat)
    (put : PendingPut) (size : put.value.length = valSize)
    (found : ∀ p, put.iter = some p → s.find put.key = some p) :
    ({ s with puts := Function.update s.puts thread (some put) } : UntrustedKv).Represents gcm
      encKey valSize memory { m with
        puts := Function.update m.puts thread (some (put.key, put.value, put.iter.isSome)) } := by
  obtain ⟨formed, present, absent, used, apart, waiting, iter, outside⟩ := represents
  refine ⟨formed, present, absent, used, apart, ?_, ?_, outside⟩
  · intro thread'
    by_cases same : thread' = thread
    · subst same
      simp only [Function.update_self, Option.map_some]
    · simp only [Function.update_of_ne same]
      exact waiting thread'
  · intro thread' put' waits
    by_cases same : thread' = thread
    · subst same
      simp only [Function.update_self, Option.some.injEq] at waits
      subst waits
      exact ⟨size, found⟩
    · simp only [Function.update_of_ne same] at waits
      exact iter thread' put' waits

theorem Represents.lookup (represents : s.Represents gcm encKey valSize memory m) (thread : Nat)
    (key : Bytes) {value : Bytes} (size : value.length = valSize) :
    (s.kvPutLookup thread key value).Represents gcm encKey valSize memory
      { m with puts := Function.update m.puts thread (some (key, value, (m.map key).isSome)) } := by
  rw [represents.isSome_find key]
  exact represents.waits thread ⟨key, value, s.find key⟩ size fun p found => found

/-- A put that has the lock no longer waits. -/
theorem Represents.takes (represents : s.Represents gcm encKey valSize memory m) (thread : Nat) :
    ({ s with puts := Function.update s.puts thread none } : UntrustedKv).Represents gcm encKey
      valSize memory { m with puts := Function.update m.puts thread none } := by
  obtain ⟨formed, present, absent, used, apart, waiting, iter, outside⟩ := represents
  refine ⟨formed, present, absent, used, apart, ?_, ?_, outside⟩
  · intro thread'
    by_cases same : thread' = thread
    · subst same
      simp only [Function.update_self, Option.map_none]
    · simp only [Function.update_of_ne same]
      exact waiting thread'
  · intro thread' put waits
    by_cases same : thread' = thread
    · subst same
      simp only [Function.update_self] at waits
      cases waits
    · simp only [Function.update_of_ne same] at waits
      exact iter thread' put waits

/-- Writing a value to the block of its key. -/
theorem Represents.write (represents : s.Represents gcm encKey valSize memory m) {key : Bytes}
    {p : Nat} (found : s.find key = some p) {text value : Bytes} (size : value.length = valSize)
    (length : text.length = ciphertextSize valSize)
    (opens : openMessage gcm encKey text = some ⟨0, [], value⟩) (iv : Iv) :
    ({ s with iv := iv, memory := FlatMemory.write s.memory p text } : UntrustedKv).Represents gcm
      encKey valSize memory { m with map := Function.update m.map key (some value) } := by
  obtain ⟨formed, present, absent, used, apart, waiting, iter, outside⟩ := represents
  refine ⟨formed, ?_, ?_, used, apart, waiting, iter, ?_⟩
  · intro key' p' found'
    by_cases same : key' = key
    · subst same
      cases found.symm.trans found'
      refine ⟨value, Function.update_self .., size, ?_⟩
      unfold Carries
      dsimp only
      rw [← length, read_write_self]
      exact opens
    · obtain ⟨value', isValue, size', carries⟩ := present key' p' found'
      refine ⟨value', ?_, size', ?_⟩
      · exact (Function.update_of_ne same ..).trans isValue
      · unfold Carries at carries ⊢
        dsimp only
        rw [read_write_disjoint]
        · exact carries
        · rw [length]
          exact apart key' key p' p found' found same
  · intro key' none_
    have other : key' ≠ key := by
      rintro rfl
      exact absurd (none_.symm.trans found) (by simp)
    exact (Function.update_of_ne other ..).trans (absent key' none_)
  · intro x unmapped
    have away : ¬ (p ≤ x ∧ x < p + text.length) := by
      rintro ⟨le, lt⟩
      exact unmapped (used key p found x le (length ▸ lt)).2
    exact (if_neg away).trans (outside x unmapped)

/-- A block that was just handed out meets no block of the map. -/
theorem Represents.apart_fresh (represents : s.Represents gcm encKey valSize memory m)
    {a' : Arena} {block : Nat}
    (allocates : Arena.Allocates (areaSize valSize) (ciphertextSize valSize) s.arena a' block)
    {key : Bytes} {p : Nat} (found : s.find key = some p) :
    p + ciphertextSize valSize ≤ block ∨ block + ciphertextSize valSize ≤ p := by
  by_contra meet
  obtain ⟨left, right⟩ := not_or.mp meet
  have used := (represents.used key p found (max p block) (le_max_left _ _) (by omega)).1
  exact (allocates.fresh (max p block) (le_max_right _ _) (by omega)).1 used

/-- Writing to a block that was just handed out changes nothing for the map. -/
theorem Represents.write_fresh (represents : s.Represents gcm encKey valSize memory m)
    {a' : Arena} {block : Nat}
    (allocates : Arena.Allocates (areaSize valSize) (ciphertextSize valSize) s.arena a' block)
    {text : Bytes} (length : text.length = ciphertextSize valSize) (iv : Iv) :
    ({ s with arena := a', iv := iv, memory := FlatMemory.write s.memory block text } :
      UntrustedKv).Represents gcm encKey valSize memory m := by
  have fresh := fun key p (found : s.find key = some p) => represents.apart_fresh allocates found
  obtain ⟨formed, present, absent, used, apart, waiting, iter, outside⟩ := represents
  refine ⟨allocates.wellFormed, ?_, absent, ?_, apart, waiting, iter, ?_⟩
  · intro key p found
    obtain ⟨value, isValue, size, carries⟩ := present key p found
    refine ⟨value, isValue, size, ?_⟩
    unfold Carries at carries ⊢
    dsimp only
    rw [read_write_disjoint]
    · exact carries
    · rw [length]
      exact fresh key p found
  · intro key p found x le lt
    obtain ⟨old, base, member, bounds⟩ := used key p found x le lt
    exact ⟨allocates.grows x old, base, allocates.areas base member, bounds⟩
  · intro x unmapped
    have away : ¬ (block ≤ x ∧ x < block + text.length) := by
      rintro ⟨le, lt⟩
      obtain ⟨base, member, low, high⟩ := allocates.inside
      exact unmapped ⟨base, member, by omega, by omega⟩
    refine (if_neg away).trans (outside x ?_)
    rintro ⟨base, member, bounds⟩
    exact unmapped ⟨base, allocates.areas base member, bounds⟩

theorem insert_absent {key : Bytes} (absent : s.find key = none) (block : Nat) :
    s.insert key block = { s with store := (key, block) :: s.store } :=
  if_neg (by rw [absent]; exact Bool.false_ne_true)

theorem insert_present {key : Bytes} {p : Nat} (found : s.find key = some p) (block : Nat) :
    s.insert key block = s :=
  if_pos (Option.isSome_iff_exists.mpr ⟨p, found⟩)

/-- A new key with a block of its own that carries its value. -/
theorem Represents.insert (represents : s.Represents gcm encKey valSize memory m) {key : Bytes}
    (none_ : s.find key = none) {block : Nat} {value : Bytes} (size : value.length = valSize)
    (carries : Carries gcm encKey valSize s.memory block value)
    (inside : ∀ x, block ≤ x → x < block + ciphertextSize valSize →
      s.arena.Used (areaSize valSize) x ∧ s.Mapped valSize x)
    (away : ∀ key p, s.find key = some p →
      p + ciphertextSize valSize ≤ block ∨ block + ciphertextSize valSize ≤ p) :
    ({ s with store := (key, block) :: s.store } : UntrustedKv).Represents gcm encKey valSize memory
      { m with map := Function.update m.map key (some value) } := by
  let added : UntrustedKv := { s with store := (key, block) :: s.store }
  have own : added.find key = some block := List.lookup_cons_self
  have others : ∀ key', key' ≠ key → added.find key' = s.find key' := by
    intro key' other
    have differs : (key' == key) = false := by simpa using other
    change List.lookup key' ((key, block) :: s.store) = _
    rw [List.lookup_cons, differs]
    rfl
  have cases_ : ∀ key' p, added.find key' = some p →
      key' = key ∧ p = block ∨ key' ≠ key ∧ s.find key' = some p := by
    intro key' p found
    by_cases same : key' = key
    · subst same
      exact Or.inl ⟨rfl, (Option.some.inj (own.symm.trans found)).symm⟩
    · exact Or.inr ⟨same, (others key' same).symm.trans found⟩
  obtain ⟨formed, present, absent, used, apart, waiting, iter, outside⟩ := represents
  refine ⟨formed, ?_, ?_, ?_, ?_, waiting, ?_, outside⟩
  · intro key' p found
    rcases cases_ key' p found with ⟨rfl, rfl⟩ | ⟨other, old⟩
    · exact ⟨value, Function.update_self .., size, carries⟩
    · obtain ⟨value', isValue, rest⟩ := present key' p old
      exact ⟨value', (Function.update_of_ne other ..).trans isValue, rest⟩
  · intro key' gone
    have other : key' ≠ key := by
      rintro rfl
      exact absurd (gone.symm.trans own) (by simp)
    exact (Function.update_of_ne other ..).trans (absent key' ((others key' other).symm.trans gone))
  · intro key' p found x le lt
    rcases cases_ key' p found with ⟨rfl, rfl⟩ | ⟨-, old⟩
    · exact inside x le lt
    · exact used key' p old x le lt
  · intro key' key'' p p' found found' differ
    rcases cases_ key' p found with ⟨rfl, rfl⟩ | ⟨-, old⟩
    · rcases cases_ key'' p' found' with ⟨rfl, -⟩ | ⟨-, old'⟩
      · exact (differ rfl).elim
      · exact (away key'' p' old').symm
    · rcases cases_ key'' p' found' with ⟨rfl, rfl⟩ | ⟨-, old'⟩
      · exact away key' p old
      · exact apart key' key'' p p' old old' differ
  · intro thread put waits
    obtain ⟨size', found⟩ := iter thread put waits
    refine ⟨size', ?_⟩
    intro p isIter
    have old := found p isIter
    have other : put.key ≠ key := by
      intro same
      rw [same, none_] at old
      cases old
    exact (others put.key other).trans old

/-- What `kv_put` has `encrypt_message` write. -/
theorem encrypt_value {env : EncEnv} (ok : env.Ok) (gcm : AesGcm) (encKey : Bytes) (iv : Iv)
    {value : Bytes} (size : value.length = valSize) :
    ∃ text, (encryptMessage gcm encKey { env with prealloc := true } iv ⟨0, 0⟩
        ⟨none, some value, value.length⟩).2 = some text ∧
      text.length = ciphertextSize valSize ∧
      openMessage gcm encKey text = some ⟨0, [], value⟩ := by
  have describes : Describes ⟨0, 0⟩ ⟨none, some value, value.length⟩ ⟨0, [], value⟩ :=
    ⟨rfl, rfl, Nat.two_pow_pos 64, Or.inr ⟨rfl, rfl⟩, Or.inl rfl, rfl⟩
  have preallocated : ({ env with prealloc := true } : EncEnv).Ok := { ok with alloc := Or.inl rfl }
  obtain ⟨text, written⟩ := encryptMessage_succeeds preallocated gcm encKey iv ⟨0, 0⟩
    ⟨none, some value, value.length⟩
  obtain ⟨used, rfl⟩ := encryptMessage_seals describes written
  refine ⟨_, written, ?_, openMessage_sealMessage gcm encKey used (Nat.two_pow_pos 64)⟩
  rw [length_sealMessage, List.length_nil, Nat.zero_add, size]

/-- The part of `kv_put` under the lock. -/
theorem Represents.put (represents : s.Represents gcm encKey valSize memory m) {thread : Nat}
    {env : PutEnv} (admissible : s.Admissible valSize (.put thread env)) :
    (s.invoke gcm encKey valSize (.put thread env)).1.Represents gcm encKey valSize memory
        (m.invoke (.put thread env)).1 ∧
      (s.invoke gcm encKey valSize (.put thread env)).2 = (m.invoke (.put thread env)).2 := by
  obtain ⟨ok, nonNull, apart⟩ := admissible
  unfold UntrustedKv.invoke SharedMap.invoke UntrustedKv.kvPut
  dsimp only
  have waiting := represents.waiting thread
  cases waits : s.puts thread with
  | none =>
      rw [waits] at waiting
      rw [waiting]
      exact ⟨represents, rfl⟩
  | some put =>
      rw [waits, Option.map_some] at waiting
      rw [waiting]
      obtain ⟨size, found⟩ := represents.iter thread put waits
      have taken := represents.takes thread
      dsimp only
      cases isIter : put.iter with
      | some p =>
          -- the key was found before the lock was taken, and is still there
          have block : blockFor valSize env put
              { s with puts := Function.update s.puts thread none } =
              (some p, { s with puts := Function.update s.puts thread none }) := by
            unfold blockFor
            rw [isIter]
          obtain ⟨text, written, length, opens⟩ := encrypt_value ok gcm encKey s.iv size
          rw [block]
          dsimp only
          rw [written]
          exact ⟨taken.write (found p isIter) size length opens _, rfl⟩
      | none =>
          have fits : ciphertextSize valSize ≤ areaSize valSize :=
            Nat.le_mul_of_pos_right _ (Nat.two_pow_pos 20)
          obtain ⟨block, a', allocated, allocates⟩ :=
            Arena.alloc_spec represents.formed fits nonNull apart
          have new : blockFor valSize env put
              { s with puts := Function.update s.puts thread none } =
              (some block, UntrustedKv.insert { s with
                puts := Function.update s.puts thread none, arena := a' } put.key block) := by
            unfold blockFor untrustedMalloc
            rw [isIter]
            dsimp only
            rw [allocated]
          obtain ⟨text, written, length, opens⟩ := encrypt_value ok gcm encKey s.iv size
          have stored := taken.write_fresh allocates length
            (encryptMessage gcm encKey { env.enc with prealloc := true } s.iv ⟨0, 0⟩
              ⟨none, some put.value, put.value.length⟩).1
          rw [new]
          dsimp only
          cases isFound : s.find put.key with
          | some p =>
              -- overtaken: the map keeps its block, and the new one is written in vain
              have late : m.overtaken put.key false = true := by
                unfold SharedMap.overtaken
                rw [represents.isSome_find, isFound]
                rfl
              rw [insert_present (by exact isFound)]
              dsimp only [Option.isSome_none]
              rw [written, if_pos late]
              exact ⟨stored, rfl⟩
          | none =>
              have carries : Carries gcm encKey valSize (FlatMemory.write s.memory block text) block
                  put.value := by
                unfold Carries
                rw [← length, read_write_self]
                exact opens
              have inTime : ¬ m.overtaken put.key false = true := by
                unfold SharedMap.overtaken
                rw [represents.isSome_find, isFound]
                exact Bool.false_ne_true
              have inside : ∀ x, block ≤ x → x < block + ciphertextSize valSize →
                  a'.Used (areaSize valSize) x ∧
                    ∃ base ∈ a'.areas, base ≤ x ∧ x < base + areaSize valSize := by
                intro x le lt
                obtain ⟨base, member, low, high⟩ := allocates.inside
                exact ⟨(allocates.fresh x le lt).2, base, member, by omega, by omega⟩
              have added := stored.insert isFound size carries inside
                (fun key p isP => taken.apart_fresh allocates isP)
              rw [insert_absent (by exact isFound)]
              dsimp only [Option.isSome_none]
              rw [written, if_neg inTime]
              exact ⟨added, rfl⟩

/-- `kv_get` finds what the map has. -/
theorem Represents.get (represents : s.Represents gcm encKey valSize memory m) {thread : Nat}
    {key : Bytes} {env : GetEnv} (admissible : s.Admissible valSize (.get thread key env)) :
    (s.invoke gcm encKey valSize (.get thread key env)).1.Represents gcm encKey valSize memory m ∧
      (s.kvGet gcm encKey valSize env thread key).2 = m.map key := by
  obtain ⟨malloc, ok⟩ := admissible
  obtain ⟨buf, isBuf⟩ : ∃ buf, (s.valBufs thread).or env.malloc = some buf := by
    obtain ⟨new, isNew⟩ := Option.isSome_iff_exists.mp malloc
    rw [isNew]
    cases s.valBufs thread with
    | none => exact ⟨new, rfl⟩
    | some old => exact ⟨old, rfl⟩
  obtain ⟨formed, present, absent, used, apart, waiting, iter, outside⟩ := represents
  unfold UntrustedKv.invoke kvGet
  dsimp only
  cases found : s.find key with
  | none =>
      exact ⟨⟨formed, present, absent, used, apart, waiting, iter, outside⟩, (absent key found).symm⟩
  | some p =>
      refine ⟨⟨formed, present, absent, used, apart, waiting, iter, outside⟩, ?_⟩
      obtain ⟨value, isValue, size, carries⟩ := present key p found
      dsimp only
      rw [isBuf, isValue]
      have succeeds : (decryptMessage gcm encKey env.dec env.stack ⟨.null, callerPtr (some 0), 0⟩
          ⟨buf, fun _ => 0, []⟩ (read s.memory p (ciphertextSize valSize))).ret = 0 :=
        decryptMessage_of_open ok carries
      obtain ⟨message, opens, carried⟩ := decryptMessage_ok (some 0) succeeds
      cases carries.symm.trans opens
      have inBuffer := carried.value
      rw [carried.buffer 0 rfl, size] at inBuffer
      exact congrArg some inBuffer

/-- One call. -/
theorem Represents.invoke (represents : s.Represents gcm encKey valSize memory m) {act : Action}
    (admissible : s.Admissible valSize act) :
    (s.invoke gcm encKey valSize act).1.Represents gcm encKey valSize memory (m.invoke act).1 ∧
      (s.invoke gcm encKey valSize act).2 = (m.invoke act).2 := by
  cases act with
  | lookup thread key value => exact ⟨represents.lookup thread key admissible, rfl⟩
  | put thread env => exact represents.put admissible
  | get thread key env =>
      obtain ⟨next, found⟩ := represents.get admissible
      exact ⟨next, congrArg Answer.value found⟩
  | delete key =>
      refine ⟨represents, ?_⟩
      have missing : s.kvDelete key = some (-1) := by
        unfold kvDelete
        rw [show s.find key = none from admissible]
        rfl
      exact congrArg Answer.deleted missing

end Steps

namespace Sample

def putEnv : PutEnv := ⟨4096, EncEnv.ok (Iv.ofNat 3), []⟩

def getEnv : GetEnv := ⟨some fun _ => 0, DecEnv.ok, ⟨0, 0⟩⟩

end Sample

end UntrustedKv

end NetworkStack
