import Mathlib.Data.List.Induction

/-!
# Runs of a deterministic machine

A machine is a step function `step : σ → α → σ`; a run is the fold of its
actions. `Along step C s acts` says that every step of the run from `s` meets
the condition `C` in the state before it, which is how a property of a run is
conditioned on what its steps are given. The rules of the module are the two
induction principles every run result of a development goes through:
`run_invariant` (unconditional) and `run_invariant_of_along` (every step meets
a condition), with the splitting lemmas that move between the recursive form of
`Along` and its reading at one step of the run. `exists_run_to_zero` is the rule
for progress.

`execute` runs calls that are answered, and keeps the answers in order.

`Refines` relates two machines by a function on states and a partial function on
actions, an action without an image being a stutter; both runs and conditions
along runs carry over.

`run_unwinding` compares a run with the one from which some of its actions were
taken out: a relation between the states that each action of the first kind keeps
on its own, and each of the others on both sides, holds at the end.
-/

namespace Machine

variable {σ α : Type*} {step : σ → α → σ}

/-- The state a run ends in. -/
def run (step : σ → α → σ) (s : σ) (acts : List α) : σ :=
  acts.foldl step s

/-- Every step of the run from `s` meets `C` in the state before it. -/
def Along (step : σ → α → σ) (C : σ → α → Prop) : σ → List α → Prop
  | _, [] => True
  | s, a :: acts => C s a ∧ Along step C (step s a) acts

instance decidableAlong {C : σ → α → Prop} [∀ s a, Decidable (C s a)] :
    (s : σ) → (acts : List α) → Decidable (Along step C s acts)
  | _, [] => isTrue True.intro
  | s, a :: acts => @instDecidableAnd _ _ (inferInstance) (decidableAlong (step s a) acts)

@[simp] theorem run_nil (s : σ) : run step s [] = s := rfl

@[simp] theorem run_cons (s : σ) (a : α) (acts : List α) :
    run step s (a :: acts) = run step (step s a) acts := rfl

theorem run_append (s : σ) (acts rest : List α) :
    run step s (acts ++ rest) = run step (run step s acts) rest :=
  List.foldl_append

theorem run_snoc (s : σ) (acts : List α) (a : α) :
    run step s (acts ++ [a]) = step (run step s acts) a := by
  rw [run_append, run_cons, run_nil]

@[simp] theorem along_nil {C : σ → α → Prop} (s : σ) : Along step C s [] := True.intro

@[simp] theorem along_cons {C : σ → α → Prop} {s : σ} {a : α} {acts : List α} :
    Along step C s (a :: acts) ↔ C s a ∧ Along step C (step s a) acts := Iff.rfl

theorem along_append {C : σ → α → Prop} {s : σ} {acts rest : List α} :
    Along step C s (acts ++ rest) ↔
      Along step C s acts ∧ Along step C (run step s acts) rest := by
  induction acts generalizing s with
  | nil => simp
  | cons a acts ih => simp only [List.cons_append, along_cons, run_cons, ih, and_assoc]

theorem along_snoc {C : σ → α → Prop} {s : σ} {acts : List α} {a : α} :
    Along step C s (acts ++ [a]) ↔ Along step C s acts ∧ C (run step s acts) a := by
  simp only [along_append, along_cons, along_nil, and_true]

theorem Along.and {C D : σ → α → Prop} {s : σ} {acts : List α} (left : Along step C s acts)
    (right : Along step D s acts) : Along step (fun s a => C s a ∧ D s a) s acts := by
  induction acts generalizing s with
  | nil => exact along_nil s
  | cons a acts ih => exact ⟨⟨left.1, right.1⟩, ih left.2 right.2⟩

theorem Along.mono {C D : σ → α → Prop} (imp : ∀ s a, C s a → D s a)
    {s : σ} {acts : List α} (along : Along step C s acts) : Along step D s acts := by
  induction acts generalizing s with
  | nil => exact along_nil s
  | cons a acts ih => exact ⟨imp s a along.1, ih along.2⟩

/-- A condition that holds at every step of the run holds along it. -/
theorem along_of_forall {C : σ → α → Prop} {s : σ} {acts : List α}
    (all : ∀ before a after, acts = before ++ a :: after → C (run step s before) a) :
    Along step C s acts := by
  induction acts generalizing s with
  | nil => exact along_nil s
  | cons a acts ih =>
      refine ⟨all [] a acts rfl, ih ?_⟩
      rintro before b after rfl
      exact all (a :: before) b after rfl

/-- What every step preserves holds at the end of every run. -/
theorem run_invariant {I : σ → Prop} (preserved : ∀ s a, I s → I (step s a))
    {s : σ} (start : I s) (acts : List α) : I (run step s acts) := by
  induction acts generalizing s with
  | nil => exact start
  | cons a acts ih => exact ih (preserved s a start)

/-- What every step that meets `C` preserves holds at the end of every run whose
steps all meet `C`. -/
theorem run_invariant_of_along {I : σ → Prop} {C : σ → α → Prop}
    (preserved : ∀ s a, I s → C s a → I (step s a))
    {s : σ} (start : I s) {acts : List α} (along : Along step C s acts) :
    I (run step s acts) := by
  induction acts generalizing s with
  | nil => exact start
  | cons a acts ih => exact ih (preserved s a start along.1) along.2

/-- The invariant that a condition keeps holds before every step of the run. -/
theorem Along.with_invariant {I : σ → Prop} {C : σ → α → Prop}
    (preserved : ∀ s a, I s → C s a → I (step s a)) {s : σ} (start : I s) {acts : List α}
    (along : Along step C s acts) : Along step (fun s a => I s ∧ C s a) s acts := by
  induction acts generalizing s with
  | nil => exact along_nil s
  | cons a acts ih => exact ⟨⟨start, along.1⟩, ih (preserved s a start along.1) along.2⟩

/-- Along a run whose steps all meet `N`, two conditions that agree wherever `I` holds
agree, when the first one keeps `I`. -/
theorem Along.congr {I : σ → Prop} {N C D : σ → α → Prop}
    (agree : ∀ s a, I s → N s a → (C s a ↔ D s a))
    (preserved : ∀ s a, I s → N s a → C s a → I (step s a))
    {s : σ} (start : I s) {acts : List α} (along : Along step N s acts) :
    Along step C s acts ↔ Along step D s acts := by
  induction acts generalizing s with
  | nil => exact Iff.rfl
  | cons a acts ih =>
      obtain ⟨here, rest⟩ := along
      constructor
      · intro both
        rcases both with ⟨now, later⟩
        exact ⟨(agree s a start here).mp now, (ih (preserved s a start here now) rest).mp later⟩
      · intro both
        rcases both with ⟨now, later⟩
        have now' := (agree s a start here).mpr now
        exact ⟨now', (ih (preserved s a start here now') rest).mpr later⟩

/-- Two conditions that agree wherever `I` holds agree along a run, when the first one
keeps `I`. -/
theorem along_congr {I : σ → Prop} {C D : σ → α → Prop}
    (agree : ∀ s a, I s → (C s a ↔ D s a)) (preserved : ∀ s a, I s → C s a → I (step s a))
    {s : σ} (start : I s) (acts : List α) : Along step C s acts ↔ Along step D s acts :=
  Along.congr (N := fun _ _ => True) (fun s a inv _ => agree s a inv)
    (fun s a inv _ now => preserved s a inv now) start
    (along_of_forall fun _ _ _ _ => True.intro)

/-- A property holds in every state of a run exactly when every step meets the condition
under which it is kept. -/
theorem forall_prefix_iff_along {I N : σ → Prop} {C : σ → α → Prop}
    (keeps : ∀ s a, I s → I (step s a)) (kept : ∀ s a, I s → N s → (N (step s a) ↔ C s a))
    {s : σ} (start : I s) (now : N s) (acts : List α) :
    (∀ before, before <+: acts → N (run step s before)) ↔ Along step C s acts := by
  induction acts generalizing s with
  | nil =>
      refine ⟨fun _ => along_nil s, ?_⟩
      intro _ before isPrefix
      rw [List.prefix_nil.mp isPrefix]
      exact now
  | cons a acts ih =>
      rw [along_cons]
      constructor
      · intro all
        have next : N (step s a) := all [a] (List.prefix_cons_inj a |>.mpr List.nil_prefix)
        refine ⟨(kept s a start now).mp next, (ih (keeps s a start) next).mp ?_⟩
        intro before isPrefix
        exact all (a :: before) (List.prefix_cons_inj a |>.mpr isPrefix)
      · intro both before isPrefix
        rcases both with ⟨here, rest⟩
        have next := (kept s a start now).mpr here
        cases before with
        | nil => exact now
        | cons b before =>
            obtain ⟨rfl, isPrefix'⟩ := List.cons_prefix_cons.mp isPrefix
            exact (ih (keeps s b start) next).mpr rest before isPrefix'

/-- Where the condition keeps an invariant that gives the property, and any other step ends
outside the property, the property holds in every state of a run exactly when every step meets
the condition. -/
theorem forall_prefix_iff_along_of_breaks {I N : σ → Prop} {C : σ → α → Prop}
    (keeps : ∀ s a, I s → C s a → I (step s a)) (holds : ∀ s, I s → N s)
    (breaks : ∀ s a, I s → N (step s a) → C s a) {s : σ} (start : I s) (acts : List α) :
    (∀ before, before <+: acts → N (run step s before)) ↔ Along step C s acts := by
  constructor
  · intro all
    induction acts generalizing s with
    | nil => exact along_nil s
    | cons a acts ih =>
        have here : C s a :=
          breaks s a start (all [a] (List.prefix_cons_inj a |>.mpr List.nil_prefix))
        refine along_cons.mpr ⟨here, ih (keeps s a start here) ?_⟩
        intro before isPrefix
        exact all (a :: before) (List.prefix_cons_inj a |>.mpr isPrefix)
  · intro along before isPrefix
    obtain ⟨rest, rfl⟩ := isPrefix
    exact holds _ (run_invariant_of_along keeps start (along_append.mp along).1)

/-! ## Progress -/

/-- Related states of two machines stay related along a run of the same actions. -/
theorem run_simulates {τ : Type*} {step' : τ → α → τ} {R : σ → τ → Prop} {C : τ → α → Prop}
    (simulates : ∀ s t a, R s t → C t a → R (step s a) (step' t a)) {s : σ} {t : τ}
    (start : R s t) {acts : List α} (along : Along step' C t acts) :
    R (run step s acts) (run step' t acts) := by
  induction acts generalizing s t with
  | nil => exact start
  | cons a acts ih =>
      rcases along with ⟨here, rest⟩
      exact ih (simulates s t a start here) rest

/-- A run and the run without the actions of `removed`, the others replaced by similar ones. -/
theorem run_unwinding {R : σ → σ → Prop} {C : σ → α → Prop} {similar : α → α → Prop}
    {removed : α → Bool}
    (stutters : ∀ s t a, R s t → C s a → removed a = true → R (step s a) t)
    (moves : ∀ s t a b, R s t → C s a → removed a = false → similar a b →
      R (step s a) (step t b))
    {s t : σ} (start : R s t) {acts others : List α} (along : Along step C s acts)
    (kept : List.Forall₂ similar (acts.filter fun a => !removed a) others) :
    R (run step s acts) (run step t others) := by
  induction acts generalizing s t others with
  | nil =>
      cases kept
      exact start
  | cons a acts ih =>
      rcases along with ⟨here, rest⟩
      cases out : removed a with
      | true =>
          rw [List.filter_cons_of_neg (by simp [out])] at kept
          exact ih (stutters s t a start here out) rest kept
      | false =>
          rw [List.filter_cons_of_pos (by simp [out])] at kept
          cases kept with
          | cons same tail => exact ih (moves s t a _ start here out same) rest tail

/-! ## Histories -/

/-- An entry of a history with one more entry is an old one or the new one. -/
theorem getElem?_snoc {history : List α} {new entry : α} {i : Nat}
    (at_ : (history ++ [new])[i]? = some entry) :
    history[i]? = some entry ∨ i = history.length ∧ entry = new := by
  rcases Nat.lt_or_ge i history.length with old | last
  · rw [List.getElem?_append_left old] at at_
    exact Or.inl at_
  · rw [List.getElem?_append_right last] at at_
    obtain ⟨lt, rfl⟩ := List.getElem?_eq_some_iff.mp at_
    have only : i - history.length = 0 := Nat.lt_one_iff.mp lt
    refine Or.inr ⟨by omega, ?_⟩
    simp only [only, List.getElem_singleton]

/-! ## Answers -/

/-- The calls are executed one after another: the state they leave, and the answers. -/
def execute {β : Type*} (invoke : σ → α → σ × β) (s : σ) (calls : List α) : σ × List β :=
  run (fun t call => ((invoke t.1 call).1, t.2 ++ [(invoke t.1 call).2])) (s, []) calls

section Answers

variable {β : Type*} (invoke : σ → α → σ × β) (s : σ)

theorem execute_snoc (calls : List α) (call : α) :
    execute invoke s (calls ++ [call]) =
      ((invoke (execute invoke s calls).1 call).1,
        (execute invoke s calls).2 ++ [(invoke (execute invoke s calls).1 call).2]) :=
  run_snoc ..

/-- Each call gets one answer. -/
@[simp] theorem length_execute (calls : List α) :
    (execute invoke s calls).2.length = calls.length := by
  induction calls using List.reverseRecOn with
  | nil => rfl
  | append_singleton calls call ih =>
      rw [execute_snoc, List.length_append, ih, List.length_append]
      rfl

/-- Later calls are executed in the state the earlier ones leave. -/
theorem execute_append (calls later : List α) :
    execute invoke s (calls ++ later) =
      ((execute invoke (execute invoke s calls).1 later).1,
        (execute invoke s calls).2 ++ (execute invoke (execute invoke s calls).1 later).2) := by
  induction later using List.reverseRecOn with
  | nil => simp [execute]
  | append_singleton later call ih =>
      rw [← List.append_assoc, execute_snoc, ih, execute_snoc, List.append_assoc]

/-- Later calls do not change earlier answers. -/
theorem prefix_execute_append (calls later : List α) :
    (execute invoke s calls).2 <+: (execute invoke s (calls ++ later)).2 := by
  rw [execute_append]
  exact List.prefix_append _ _

/-- The answer to one call is the one it gets after the calls before it. -/
theorem getElem?_execute {calls : List α} {i : Nat} {call : α} (at_ : calls[i]? = some call) :
    (execute invoke s calls).2[i]? =
      some (invoke (execute invoke s (calls.take i)).1 call).2 := by
  have lt := (List.getElem?_eq_some_iff.mp at_).1
  have upTo : calls.take (i + 1) = calls.take i ++ [call] := by
    rw [List.take_add_one, at_, Option.toList_some]
  have answers := prefix_execute_append invoke s (calls.take (i + 1))
    (calls.drop (i + 1))
  rw [List.take_append_drop, upTo, execute_snoc] at answers
  obtain ⟨rest, eq⟩ := answers
  have length : (execute invoke s (calls.take i)).2.length = i := by
    rw [length_execute, List.length_take]
    omega
  rw [← eq, List.append_assoc, List.getElem?_append_right (Nat.le_of_eq length), length,
    Nat.sub_self]
  rfl

end Answers

/-! ## Refinement -/

variable {τ β : Type*} {step' : τ → β → τ}

/-- In the states of `I` and for the actions of `A`, one step of the machine is one step
of the abstract machine, or a stutter where the action has no image. -/
structure Refines (step : σ → α → σ) (step' : τ → β → τ) (I : σ → Prop) (A : α → Prop)
    (state : σ → τ) (action : α → Option β) : Prop where
  keeps : ∀ s a, I s → A a → I (step s a)
  stutters : ∀ s a, I s → A a → action a = none → state (step s a) = state s
  moves : ∀ s a b, I s → A a → action a = some b → state (step s a) = step' (state s) b

variable {I : σ → Prop} {A : α → Prop} {state : σ → τ} {action : α → Option β}

theorem Refines.run (refines : Refines step step' I A state action) {s : σ} (start : I s)
    {acts : List α} (admissible : ∀ a ∈ acts, A a) :
    state (run step s acts) = Machine.run step' (state s) (acts.filterMap action) := by
  induction acts generalizing s with
  | nil => rfl
  | cons a acts ih =>
      have here := admissible a List.mem_cons_self
      have rest := ih (refines.keeps s a start here)
        fun b member => admissible b (List.mem_cons_of_mem a member)
      rw [run_cons, rest]
      cases image : action a with
      | none => rw [List.filterMap_cons_none image, refines.stutters s a start here image]
      | some b =>
          rw [List.filterMap_cons_some image, refines.moves s a b start here image, run_cons]

/-- A condition on the abstract run, read along the concrete one. -/
theorem Refines.along (refines : Refines step step' I A state action) {C : τ → β → Prop} {s : σ}
    (start : I s) {acts : List α} (admissible : ∀ a ∈ acts, A a) :
    Along step (fun s a => ∀ b, action a = some b → C (state s) b) s acts ↔
      Along step' C (state s) (acts.filterMap action) := by
  induction acts generalizing s with
  | nil => exact Iff.rfl
  | cons a acts ih =>
      have here := admissible a List.mem_cons_self
      have rest := ih (refines.keeps s a start here)
        fun b member => admissible b (List.mem_cons_of_mem a member)
      rw [along_cons, rest]
      cases image : action a with
      | none =>
          rw [List.filterMap_cons_none image, refines.stutters s a start here image]
          simp
      | some b =>
          rw [List.filterMap_cons_some image, refines.moves s a b start here image, along_cons]
          simp

end Machine
