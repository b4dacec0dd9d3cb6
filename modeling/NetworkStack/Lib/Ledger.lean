import Mathlib.Logic.Function.Basic
import Mathlib.Data.List.Basic

/-!
# Resources held in variables

A program obtains resources, keeps their handles in its variables and gives them
back. The ledger records what is live, with the handles each resource was made
from, and counts the faults: a resource made from one that is gone, and a
resource given back that is gone or that another one still needs. A live resource
that no variable holds is lost.

`Balanced` is the invariant of programs without faults and without losses. Which
variables may need which is a parameter, so that the side condition for giving
back a resource is about variables alone.
-/

structure Ledger (ι : Type*) : Type _ where
  vars : ι → Option Nat
  live : List (Nat × List Nat)
  next : Nat
  faults : Nat

namespace Ledger

variable {ι : Type*}

def empty : Ledger ι := ⟨fun _ => none, [], 0, 0⟩

/-- The handle is live. -/
def Live (l : Ledger ι) (h : Nat) : Prop := ∃ e ∈ l.live, e.1 = h

instance decidableLive (l : Ledger ι) (h : Nat) : Decidable (l.Live h) :=
  inferInstanceAs (Decidable (∃ e ∈ l.live, e.1 = h))

/-- The variable holds a live handle. -/
def Holds (l : Ledger ι) (v : ι) : Prop := ∃ h ∈ l.vars v, l.Live h

instance decidableHolds (l : Ledger ι) (v : ι) : Decidable (l.Holds v) :=
  inferInstanceAs (Decidable (∃ h ∈ l.vars v, l.Live h))

/-- The variable is null or holds a live handle: it does not dangle. -/
def Proper (l : Ledger ι) (v : ι) : Prop := l.vars v = none ∨ l.Holds v

/-- A resource made from those in the variables `from_`. -/
def obtain [DecidableEq ι] (l : Ledger ι) (v : ι) (from_ : List ι) : Ledger ι where
  vars := Function.update l.vars v (some l.next)
  live := (l.next, from_.filterMap l.vars) :: l.live
  next := l.next + 1
  faults := if ∀ w ∈ from_, l.Holds w then l.faults else l.faults + 1

/-- Give back what the variable holds; it keeps the handle. Null is ignored. The resource is gone
afterwards, also where that is a fault. -/
def free (l : Ledger ι) (v : ι) : Ledger ι :=
  match l.vars v with
  | none => l
  | some h =>
      { l with
        live := l.live.filter fun e => e.1 ≠ h
        faults := if l.Live h ∧ ∀ e ∈ l.live, h ∉ e.2 then l.faults else l.faults + 1 }

/-- Set the variable to null. -/
def null [DecidableEq ι] (l : Ledger ι) (v : ι) : Ledger ι :=
  { l with vars := Function.update l.vars v none }

/-- Give back what the variable holds, and set it to null. -/
def delete [DecidableEq ι] (l : Ledger ι) (v : ι) : Ledger ι := (l.free v).null v

/-- No fault so far, and every live resource can still be reached. -/
structure Sound (l : Ledger ι) : Prop where
  faults : l.faults = 0
  reached : ∀ h, l.Live h → ∃ v, l.vars v = some h

/-! ## What the operations change -/

section Operations

variable {l : Ledger ι} {v w : ι} {from_ : List ι} {h : Nat}

@[simp] theorem vars_free : (l.free v).vars = l.vars := by
  unfold free
  split <;> rfl

@[simp] theorem next_free : (l.free v).next = l.next := by
  unfold free
  split <;> rfl

/-- What is live after a resource was given back was live before. -/
theorem Live.of_free (live : (l.free v).Live h) : l.Live h := by
  unfold free at live
  split at live
  · exact live
  · obtain ⟨e, member, eq⟩ := live
    exact ⟨e, (List.mem_filter.mp member).1, eq⟩

/-- A handle that the variable does not hold stays live. -/
theorem Live.free (live : l.Live h) (other : l.vars v ≠ some h) : (l.free v).Live h := by
  unfold Ledger.free
  split
  · exact live
  · rename_i h' held
    obtain ⟨e, member, eq⟩ := live
    refine ⟨e, List.mem_filter.mpr ⟨member, ?_⟩, eq⟩
    have differs : e.1 ≠ h' := by
      rintro rfl
      exact other (held.trans (congrArg some eq))
    exact decide_eq_true differs

/-- A handle that is gone cannot be given back again. -/
theorem faults_free_of_gone (held : l.vars v = some h) (gone : ¬ l.Live h) :
    (l.free v).faults = l.faults + 1 := by
  unfold free
  rw [held]
  exact if_neg fun both => gone both.1

variable [DecidableEq ι]

@[simp] theorem vars_obtain : (l.obtain v from_).vars = Function.update l.vars v (some l.next) :=
  rfl

@[simp] theorem vars_null : (l.null v).vars = Function.update l.vars v none := rfl

@[simp] theorem vars_delete : (l.delete v).vars = Function.update l.vars v none := by
  rw [delete, vars_null, vars_free]

theorem live_obtain_iff : (l.obtain v from_).Live h ↔ h = l.next ∨ l.Live h := by
  unfold Live obtain
  simp only [List.mem_cons, exists_eq_or_imp]
  exact or_congr_left eq_comm

end Operations

/-! ## Lost resources -/

/-- The resource is live, and no variable holds it. -/
structure Lost (l : Ledger ι) (h : Nat) : Prop where
  live : l.Live h
  bound : h < l.next
  unheld : ∀ v, l.vars v ≠ some h

section Losses

variable {l : Ledger ι} {v : ι} {h : Nat}

theorem Lost.not_sound (lost : l.Lost h) : ¬ l.Sound := by
  intro sound
  obtain ⟨v, held⟩ := sound.reached h lost.live
  exact lost.unheld v held

theorem Lost.free (lost : l.Lost h) (v : ι) : (l.free v).Lost h := by
  refine ⟨lost.live.free (lost.unheld v), ?_, ?_⟩
  · rw [next_free]
    exact lost.bound
  · rw [vars_free]
    exact lost.unheld

variable [DecidableEq ι]

theorem Lost.obtain (lost : l.Lost h) (v : ι) (from_ : List ι) : (l.obtain v from_).Lost h := by
  refine ⟨live_obtain_iff.mpr (Or.inr lost.live), Nat.lt_succ_of_lt lost.bound, ?_⟩
  intro w held
  rw [vars_obtain] at held
  by_cases same : w = v
  · subst same
    rw [Function.update_self] at held
    exact absurd lost.bound (Option.some.inj held ▸ Nat.lt_irrefl _)
  · rw [Function.update_of_ne same] at held
    exact lost.unheld w held

theorem Lost.null (lost : l.Lost h) (v : ι) : (l.null v).Lost h := by
  refine ⟨lost.live, lost.bound, ?_⟩
  intro w held
  rw [vars_null] at held
  by_cases same : w = v
  · subst same
    rw [Function.update_self] at held
    cases held
  · rw [Function.update_of_ne same] at held
    exact lost.unheld w held

theorem Lost.delete (lost : l.Lost h) (v : ι) : (l.delete v).Lost h := (lost.free v).null v

end Losses

/-! ## The invariant -/

/-- No fault, no loss, no handle in two variables, and a resource is made only from live ones,
each in a variable that its own variable may need. -/
structure Balanced (needs : ι → ι → Prop) (l : Ledger ι) : Prop where
  faults : l.faults = 0
  bound : ∀ v h, l.vars v = some h → h < l.next
  unique : ∀ v w h, l.vars v = some h → l.vars w = some h → v = w
  kept : ∀ e ∈ l.live, ∃ v, l.vars v = some e.1 ∧
    ∀ u ∈ e.2, l.Live u ∧ ∃ w, l.vars w = some u ∧ needs v w

section Invariant

variable {needs : ι → ι → Prop} {l : Ledger ι} {v w : ι} {from_ : List ι}

theorem Balanced.sound (balanced : l.Balanced needs) : l.Sound := by
  refine ⟨balanced.faults, ?_⟩
  rintro h ⟨e, member, rfl⟩
  obtain ⟨v, held, -⟩ := balanced.kept e member
  exact ⟨v, held⟩

theorem balanced_empty (needs : ι → ι → Prop) : (empty : Ledger ι).Balanced needs := by
  refine ⟨rfl, ?_, ?_, ?_⟩
  · intro v h held
    cases held
  · intro v w h held
    cases held
  · intro e member
    cases member

/-- A variable that is null holds nothing. -/
theorem not_holds_of_null (isNull : l.vars v = none) : ¬ l.Holds v := by
  rintro ⟨h, held, -⟩
  rw [Option.mem_def, isNull] at held
  cases held

/-- What no held variable needs is given back without a fault. -/
theorem Balanced.free_eq (balanced : l.Balanced needs) {h : Nat} (held : l.vars v = some h)
    (live : l.Live h) (unneeded : ∀ w, needs w v → l.vars w = none) :
    (∀ e ∈ l.live, h ∉ e.2) ∧ l.free v = { l with live := l.live.filter fun e => e.1 ≠ h } := by
  have unused : ∀ e ∈ l.live, h ∉ e.2 := by
    intro e member uses
    obtain ⟨w, heldW, needed⟩ := balanced.kept e member
    obtain ⟨-, v', held', need⟩ := needed h uses
    rw [balanced.unique v' v h held' held] at need
    rw [unneeded w need] at heldW
    cases heldW
  refine ⟨unused, ?_⟩
  unfold Ledger.free
  rw [held]
  dsimp only
  rw [if_pos ⟨live, unused⟩]

theorem Balanced.free (balanced : l.Balanced needs) (proper : l.Proper v)
    (unneeded : ∀ w, needs w v → l.vars w = none) :
    (l.free v).Balanced needs ∧ ¬ (l.free v).Holds v := by
  rcases proper with isNull | ⟨h, held, live⟩
  · have same : l.free v = l := by
      unfold Ledger.free
      rw [isNull]
    rw [same]
    exact ⟨balanced, not_holds_of_null isNull⟩
  obtain ⟨unused, freed⟩ := balanced.free_eq held live unneeded
  have stays : ∀ u, l.Live u → u ≠ h → (l.free v).Live u := by
    intro u liveU other
    refine liveU.free ?_
    intro held'
    exact other (Option.some.inj (held'.symm.trans held))
  refine ⟨⟨?_, ?_, ?_, ?_⟩, ?_⟩
  · rw [freed]
    exact balanced.faults
  · rw [vars_free, next_free]
    exact balanced.bound
  · rw [vars_free]
    exact balanced.unique
  · intro e member
    rw [vars_free]
    rw [freed] at member
    have old := (List.mem_filter.mp member).1
    obtain ⟨w, heldW, needed⟩ := balanced.kept e old
    refine ⟨w, heldW, ?_⟩
    intro u uses
    obtain ⟨liveU, rest⟩ := needed u uses
    refine ⟨stays u liveU ?_, rest⟩
    rintro rfl
    exact unused e old uses
  · rintro ⟨h', held', e, member, rfl⟩
    rw [vars_free] at held'
    cases held.symm.trans held'
    rw [freed] at member
    simp at member

theorem Holds.free (holds : l.Holds w) (balanced : l.Balanced needs) (other : w ≠ v) :
    (l.free v).Holds w := by
  obtain ⟨h, held, live⟩ := holds
  refine ⟨h, ?_, live.free ?_⟩
  · rw [vars_free]
    exact held
  · intro held'
    exact other (balanced.unique w v h held held')

variable [DecidableEq ι]

/-- Overwriting a variable that holds a live handle loses it. -/
theorem Balanced.lost_of_obtain (balanced : l.Balanced needs) (holds : l.Holds v)
    (from_ : List ι) : ∃ h, (l.obtain v from_).Lost h := by
  obtain ⟨h, held, live⟩ := holds
  have bound := balanced.bound v h held
  refine ⟨h, live_obtain_iff.mpr (Or.inr live), Nat.lt_succ_of_lt bound, ?_⟩
  intro w held'
  rw [vars_obtain] at held'
  by_cases same : w = v
  · subst same
    rw [Function.update_self] at held'
    exact absurd bound (Option.some.inj held' ▸ Nat.lt_irrefl _)
  · rw [Function.update_of_ne same] at held'
    exact same (balanced.unique w v h held' held)

/-- A variable that holds nothing live can be overwritten. -/
theorem Balanced.obtain (balanced : l.Balanced needs) (empty : ¬ l.Holds v)
    (used : ∀ w ∈ from_, l.Holds w ∧ needs v w) : (l.obtain v from_).Balanced needs := by
  have others : ∀ w h, (l.obtain v from_).vars w = some h → w ≠ v → l.vars w = some h := by
    intro w h held other
    rwa [vars_obtain, Function.update_of_ne other] at held
  have own : ∀ h, (l.obtain v from_).vars v = some h → h = l.next := by
    intro h held
    rw [vars_obtain, Function.update_self] at held
    exact (Option.some.inj held).symm
  have unchanged : ∀ w h, l.vars w = some h → l.Live h →
      (l.obtain v from_).vars w = some h := by
    intro w h held live
    have other : w ≠ v := by
      rintro rfl
      exact empty ⟨h, held, live⟩
    rw [vars_obtain, Function.update_of_ne other]
    exact held
  refine ⟨?_, ?_, ?_, ?_⟩
  · exact (if_pos fun w member => (used w member).1).trans balanced.faults
  · intro w h held
    by_cases same : w = v
    · subst same
      rw [own h held]
      exact Nat.lt_succ_self _
    · exact Nat.lt_succ_of_lt (balanced.bound w h (others w h held same))
  · intro w w' h held held'
    by_cases same : w = v <;> by_cases same' : w' = v
    · exact same.trans same'.symm
    · subst same
      have old := balanced.bound w' h (others w' h held' same')
      exact absurd old (own h held ▸ Nat.lt_irrefl _)
    · subst same'
      have old := balanced.bound w h (others w h held same)
      exact absurd old (own h held' ▸ Nat.lt_irrefl _)
    · exact balanced.unique w w' h (others w h held same) (others w' h held' same')
  · intro e member
    rcases List.mem_cons.mp member with rfl | old
    · refine ⟨v, by rw [vars_obtain, Function.update_self], ?_⟩
      intro u uses
      obtain ⟨w, fromW, held⟩ := List.mem_filterMap.mp uses
      obtain ⟨⟨h, held', live⟩, need⟩ := used w fromW
      cases held.symm.trans held'
      exact ⟨live_obtain_iff.mpr (Or.inr live), w, unchanged w _ held live, need⟩
    · obtain ⟨w, held, needed⟩ := balanced.kept e old
      refine ⟨w, unchanged w e.1 held ⟨e, old, rfl⟩, ?_⟩
      intro u uses
      obtain ⟨live, w', held', need⟩ := needed u uses
      exact ⟨live_obtain_iff.mpr (Or.inr live), w', unchanged w' u held' live, need⟩

/-- A variable that holds nothing live can be set to null. -/
theorem Balanced.null (balanced : l.Balanced needs) (empty : ¬ l.Holds v) :
    (l.null v).Balanced needs := by
  have others : ∀ w h, (l.null v).vars w = some h → l.vars w = some h := by
    intro w h held
    rw [vars_null] at held
    by_cases same : w = v
    · subst same
      rw [Function.update_self] at held
      cases held
    · rwa [Function.update_of_ne same] at held
  have unchanged : ∀ w h, l.vars w = some h → l.Live h → (l.null v).vars w = some h := by
    intro w h held live
    have other : w ≠ v := by
      rintro rfl
      exact empty ⟨h, held, live⟩
    rw [vars_null, Function.update_of_ne other]
    exact held
  refine ⟨balanced.faults, ?_, ?_, ?_⟩
  · intro w h held
    exact balanced.bound w h (others w h held)
  · intro w w' h held held'
    exact balanced.unique w w' h (others w h held) (others w' h held')
  · intro e member
    obtain ⟨w, held, needed⟩ := balanced.kept e member
    refine ⟨w, unchanged w e.1 held ⟨e, member, rfl⟩, ?_⟩
    intro u uses
    obtain ⟨live, w', held', need⟩ := needed u uses
    exact ⟨live, w', unchanged w' u held' live, need⟩

theorem Balanced.delete (balanced : l.Balanced needs) (proper : l.Proper v)
    (unneeded : ∀ w, needs w v → l.vars w = none) : (l.delete v).Balanced needs := by
  obtain ⟨freed, gone⟩ := balanced.free proper unneeded
  exact freed.null gone

theorem Holds.null (holds : l.Holds w) (other : w ≠ v) : (l.null v).Holds w := by
  obtain ⟨h, held, live⟩ := holds
  refine ⟨h, ?_, live⟩
  rw [vars_null, Function.update_of_ne other]
  exact held

theorem Holds.delete (holds : l.Holds w) (balanced : l.Balanced needs) (other : w ≠ v) :
    (l.delete v).Holds w := (holds.free balanced other).null other

theorem holds_obtain (l : Ledger ι) (v : ι) (from_ : List ι) : (l.obtain v from_).Holds v := by
  refine ⟨l.next, ?_, live_obtain_iff.mpr (Or.inl rfl)⟩
  rw [vars_obtain, Function.update_self]
  rfl

theorem Holds.obtain (holds : l.Holds w) (other : w ≠ v) (from_ : List ι) :
    (l.obtain v from_).Holds w := by
  obtain ⟨h, held, live⟩ := holds
  refine ⟨h, ?_, live_obtain_iff.mpr (Or.inr live)⟩
  rw [vars_obtain, Function.update_of_ne other]
  exact held

/-- A deletion leaves no variable dangling. -/
theorem Proper.delete (proper : l.Proper w) (balanced : l.Balanced needs) (v : ι) :
    (l.delete v).Proper w := by
  by_cases same : w = v
  · subst same
    left
    rw [vars_delete, Function.update_self]
  · refine proper.imp ?_ fun holds => holds.delete balanced same
    intro isNull
    rw [vars_delete, Function.update_of_ne same]
    exact isNull

theorem Proper.obtain (proper : l.Proper w) (v : ι) (from_ : List ι) :
    (l.obtain v from_).Proper w := by
  by_cases same : w = v
  · subst same
    exact Or.inr (holds_obtain l w from_)
  · refine proper.imp ?_ fun holds => holds.obtain same from_
    intro isNull
    rw [vars_obtain, Function.update_of_ne same]
    exact isNull

end Invariant

end Ledger
