import Mathlib.Order.Defs.PartialOrder

/-!
# Loops with exits

The body of a loop takes a state to the next one or leaves the loop with a
result, `body : σ → σ ⊕ β`. `exec` follows it for a number of turns and is `none`
when these were not enough. A loop that ends has one result, which any larger
number of turns gives as well (`exec_mono`). `exec_total` is the rule of total
correctness: what each turn keeps while a measure goes down holds at an exit, and
the exit is reached within the measure of the start.
-/

namespace Loop

variable {σ β : Type*} {body : σ → σ ⊕ β}

/-- The result of the loop, if it leaves within `fuel` turns. -/
def exec (body : σ → σ ⊕ β) : Nat → σ → Option β
  | 0, _ => none
  | fuel + 1, s =>
      match body s with
      | .inl next => exec body fuel next
      | .inr result => some result

theorem exec_of_inl {s next : σ} (turn : body s = .inl next) (fuel : Nat) :
    exec body (fuel + 1) s = exec body fuel next := by
  rw [exec, turn]

theorem exec_of_inr {s : σ} {result : β} (leaves : body s = .inr result) (fuel : Nat) :
    exec body (fuel + 1) s = some result := by
  rw [exec, leaves]

/-- More turns than are needed change nothing. -/
theorem exec_mono {fuel more : Nat} (le : fuel ≤ more) {s : σ} {result : β}
    (done : exec body fuel s = some result) : exec body more s = some result := by
  induction fuel generalizing more s with
  | zero => cases done
  | succ fuel ih =>
      cases more with
      | zero => exact absurd le (Nat.not_succ_le_zero fuel)
      | succ more =>
          cases turn : body s with
          | inl next =>
              rw [exec_of_inl turn] at done ⊢
              exact ih (Nat.le_of_succ_le_succ le) done
          | inr other =>
              rw [exec_of_inr turn] at done ⊢
              exact done

/-- Total correctness, from an invariant and a measure that goes down with every turn. -/
theorem exec_total {I : σ → Prop} {Q : β → Prop} (measure : σ → Nat)
    (turns : ∀ s next, I s → body s = .inl next → I next ∧ measure next < measure s)
    (leaves : ∀ s result, I s → body s = .inr result → Q result) {s : σ} (start : I s) :
    ∃ result, (∀ fuel, measure s < fuel → exec body fuel s = some result) ∧ Q result := by
  induction bound : measure s using Nat.strongRecOn generalizing s with
  | ind bound' ih =>
      cases turn : body s with
      | inl next =>
          rcases turns s next start turn with ⟨kept, less⟩
          rcases ih (measure next) (by omega) kept rfl with ⟨result, reached, post⟩
          refine ⟨result, ?_, post⟩
          intro fuel lt
          rcases Nat.exists_eq_succ_of_ne_zero (Nat.ne_zero_of_lt lt) with ⟨rest, rfl⟩
          rw [exec_of_inl turn]
          exact reached rest (by omega)
      | inr result =>
          refine ⟨result, ?_, leaves s result start turn⟩
          intro fuel lt
          rcases Nat.exists_eq_succ_of_ne_zero (Nat.ne_zero_of_lt lt) with ⟨rest, rfl⟩
          exact exec_of_inr turn rest

/-- A loop that passes through the states of a sequence leaves where the body leaves. -/
theorem exec_of_turns (states : Nat → σ) {n : Nat} {result : β}
    (turns : ∀ i, i < n → body (states i) = .inl (states (i + 1)))
    (leaves : body (states n) = .inr result) {fuel : Nat} (lt : n < fuel) :
    exec body fuel (states 0) = some result := by
  induction n generalizing states fuel with
  | zero =>
      obtain ⟨rest, rfl⟩ := Nat.exists_eq_succ_of_ne_zero (Nat.ne_zero_of_lt lt)
      exact exec_of_inr leaves rest
  | succ n ih =>
      obtain ⟨rest, rfl⟩ := Nat.exists_eq_succ_of_ne_zero (Nat.ne_zero_of_lt lt)
      rw [exec_of_inl (turns 0 (Nat.zero_lt_succ n))]
      exact ih (fun i => states (i + 1)) (fun i less => turns (i + 1) (Nat.succ_lt_succ less))
        leaves (Nat.lt_of_succ_lt_succ lt)

/-- A loop that passes through the states of an endless sequence does not end. -/
theorem exec_eq_none_of_turns (states : Nat → σ)
    (turns : ∀ i, body (states i) = .inl (states (i + 1))) (fuel : Nat) :
    exec body fuel (states 0) = none := by
  induction fuel generalizing states with
  | zero => rfl
  | succ fuel ih =>
      rw [exec_of_inl (turns 0)]
      exact ih (fun i => states (i + 1)) fun i => turns (i + 1)

end Loop
