import Mathlib.Data.List.Basic

/-!
# Allocation from the front of areas

An allocator that never takes back: a block is the next part of the newest area,
or the first part of a new one where the newest has not enough room left. `Used`
are the addresses that were handed out or skipped. `alloc_spec` says that a block
lies in an area, meets nothing that was used, and is used afterwards; that areas
do not meet is a promise of the call that maps them.
-/

/-- The areas, the newest first, and where the next block starts. -/
structure Arena : Type where
  areas : List Nat
  pointer : Option Nat

namespace Arena

def empty : Arena := ⟨[], none⟩

/-- The bytes left in the newest area. -/
def room (areaSize : Nat) (a : Arena) : Nat :=
  match a.areas, a.pointer with
  | base :: _, some p => base + areaSize - p
  | _, _ => 0

/-- A block of `size` bytes; `mapped` is the area that is mapped if one is needed, and 0 where
that fails. -/
def alloc (areaSize size mapped : Nat) (a : Arena) : Option Nat × Arena :=
  if a.pointer = none ∨ a.room areaSize < size then
    if mapped = 0 then (none, a) else (some mapped, ⟨mapped :: a.areas, some (mapped + size)⟩)
  else (a.pointer, { a with pointer := a.pointer.map (· + size) })

/-- No area is mapped but the one given. -/
theorem mem_areas_alloc (areaSize size : Nat) {mapped base : Nat} {a : Arena}
    (member : base ∈ (a.alloc areaSize size mapped).2.areas) : base = mapped ∨ base ∈ a.areas := by
  unfold alloc at member
  split at member
  · split at member
    · exact Or.inr member
    · exact List.mem_cons.mp member
  · exact Or.inr member

/-- Two areas do not meet. -/
def Apart (areaSize base base' : Nat) : Prop :=
  base + areaSize ≤ base' ∨ base' + areaSize ≤ base

/-- The next block starts in the newest area, and no two areas meet. -/
structure WellFormed (areaSize : Nat) (a : Arena) : Prop where
  apart : a.areas.Pairwise (Apart areaSize)
  pointer : ∀ p, a.pointer = some p →
    ∃ base older, a.areas = base :: older ∧ base ≤ p ∧ p ≤ base + areaSize
  started : a.pointer = none → a.areas = []

/-- The addresses before the next block, and those of the older areas. -/
def Used (areaSize : Nat) (a : Arena) (x : Nat) : Prop :=
  match a.areas, a.pointer with
  | base :: older, some p =>
      (base ≤ x ∧ x < p) ∨ ∃ b ∈ older, b ≤ x ∧ x < b + areaSize
  | _, _ => False

/-- What an allocation gives. -/
structure Allocates (areaSize size : Nat) (a a' : Arena) (block : Nat) : Prop where
  wellFormed : a'.WellFormed areaSize
  areas : ∀ base ∈ a.areas, base ∈ a'.areas
  inside : ∃ base ∈ a'.areas, base ≤ block ∧ block + size ≤ base + areaSize
  fresh : ∀ x, block ≤ x → x < block + size → ¬ a.Used areaSize x ∧ a'.Used areaSize x
  grows : ∀ x, a.Used areaSize x → a'.Used areaSize x

theorem wellFormed_empty (areaSize : Nat) : empty.WellFormed areaSize :=
  ⟨.nil, fun _ held => (by cases held), fun _ => rfl⟩

section Allocation

variable {areaSize size mapped : Nat} {areas : List Nat}

/-- A new area is apart from everything that was used. -/
theorem allocates_new {pointer : Option Nat} (formed : WellFormed areaSize ⟨areas, pointer⟩)
    (fits : size ≤ areaSize) (apart : ∀ base ∈ areas, Apart areaSize mapped base) :
    Allocates areaSize size ⟨areas, pointer⟩ ⟨mapped :: areas, some (mapped + size)⟩ mapped := by
  have old : ∀ x, Used areaSize ⟨areas, pointer⟩ x → ∃ b ∈ areas, b ≤ x ∧ x < b + areaSize := by
    intro x used
    cases pointer with
    | none => cases areas <;> exact used.elim
    | some p =>
        obtain ⟨base, older, isAreas, -, high⟩ := formed.pointer p rfl
        change areas = base :: older at isAreas
        subst isAreas
        rcases used with ⟨le, lt⟩ | ⟨b, member, le, lt⟩
        · exact ⟨base, List.mem_cons_self, le, Nat.lt_of_lt_of_le lt high⟩
        · exact ⟨b, List.mem_cons_of_mem _ member, le, lt⟩
  refine ⟨⟨List.pairwise_cons.mpr ⟨apart, formed.apart⟩, ?_, fun none_ => (by cases none_)⟩,
    fun base member => List.mem_cons_of_mem _ member,
    ⟨mapped, List.mem_cons_self, Nat.le_refl _, by omega⟩, ?_, fun x used => Or.inr (old x used)⟩
  · rintro p ⟨⟩
    exact ⟨mapped, areas, rfl, Nat.le_add_right _ _, by omega⟩
  · intro x le lt
    refine ⟨?_, Or.inl ⟨le, lt⟩⟩
    intro used
    obtain ⟨b, member, le', lt'⟩ := old x used
    have away := apart b member
    unfold Apart at away
    omega

/-- The next part of the newest area. -/
theorem allocates_next {base p : Nat} (formed : WellFormed areaSize ⟨base :: areas, some p⟩)
    (low : base ≤ p) (fits : p + size ≤ base + areaSize) :
    Allocates areaSize size ⟨base :: areas, some p⟩ ⟨base :: areas, some (p + size)⟩ p := by
  have away := (List.pairwise_cons.mp formed.apart).1
  refine ⟨⟨formed.apart, ?_, fun none_ => (by cases none_)⟩, fun _ member => member,
    ⟨base, List.mem_cons_self, low, fits⟩, ?_, ?_⟩
  · rintro p' ⟨⟩
    exact ⟨base, areas, rfl, by omega, fits⟩
  · intro x le lt
    refine ⟨?_, Or.inl ⟨by omega, lt⟩⟩
    rintro (⟨-, below⟩ | ⟨b, member, le', lt'⟩)
    · omega
    · have apart' := away b member
      unfold Apart at apart'
      omega
  · rintro x (⟨le, lt⟩ | older)
    · exact Or.inl ⟨le, by omega⟩
    · exact Or.inr older

/-- A block is found where the area that may have to be mapped is new. -/
theorem alloc_spec {a : Arena} (formed : a.WellFormed areaSize) (fits : size ≤ areaSize)
    (nonNull : mapped ≠ 0) (apart : ∀ base ∈ a.areas, Apart areaSize mapped base) :
    ∃ block a', a.alloc areaSize size mapped = (some block, a') ∧
      Allocates areaSize size a a' block := by
  rcases a with ⟨areas, pointer⟩
  by_cases full : pointer = none ∨ room areaSize ⟨areas, pointer⟩ < size
  · refine ⟨mapped, _, ?_, allocates_new formed fits apart⟩
    unfold alloc
    dsimp only
    rw [if_pos full, if_neg nonNull]
  · obtain ⟨started, enough⟩ := not_or.mp full
    obtain ⟨p, rfl⟩ := Option.ne_none_iff_exists'.mp started
    obtain ⟨base, older, rfl, low, high⟩ := formed.pointer p rfl
    have fits' : p + size ≤ base + areaSize := by
      change ¬ base + areaSize - p < size at enough
      omega
    refine ⟨p, _, ?_, allocates_next formed low fits'⟩
    unfold alloc
    dsimp only
    rw [if_neg full]
    rfl

end Allocation

end Arena
