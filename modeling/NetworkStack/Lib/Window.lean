import Mathlib.Data.List.Chain
import NetworkStack.Lib.Run

/-!
# A window that follows the last accepted number

A receiver of numbered messages that keeps no record of what it accepted, only
the number it expects next: one stride past the last accepted one. It accepts
its first message, and from then on every number within a tolerance of the
expected one, in either direction. The history of accepted numbers is the state
of the machine; `pairwise_run_iff` says what has to be ruled out at each step
for a relation to hold between every earlier and later accepted number, and the
two results about repeats and about the floor of the window are its instances.
`run_eq_append_iff` says when nothing is rejected.
-/

namespace SlidingWindow

open Machine

variable {stride tolerance : Nat}

/-- The window takes `n` after the accepted numbers `history`. -/
def Accepts (stride tolerance : Nat) (history : List Nat) (n : Nat) : Prop :=
  ∀ last ∈ history.getLast?, ((n : Int) - ((last : Int) + stride)).natAbs ≤ tolerance

instance (history : List Nat) (n : Nat) : Decidable (Accepts stride tolerance history n) :=
  inferInstanceAs (Decidable (∀ last ∈ history.getLast?, _))

/-- One message arrives. -/
def offer (stride tolerance : Nat) (history : List Nat) (n : Nat) : List Nat :=
  if Accepts stride tolerance history n then history ++ [n] else history

/-- A relation holds between every two accepted numbers exactly when each number that is
accepted stands in it to those accepted before. -/
theorem pairwise_run_iff (stride tolerance : Nat) {R : Nat → Nat → Prop} {history : List Nat}
    (start : history.Pairwise R) (numbers : List Nat) :
    (run (offer stride tolerance) history numbers).Pairwise R ↔
      Along (offer stride tolerance)
        (fun history n => Accepts stride tolerance history n → ∀ m ∈ history, R m n)
        history numbers := by
  induction numbers generalizing history with
  | nil => simpa using start
  | cons n numbers ih =>
      rw [run_cons, along_cons]
      by_cases accepted : Accepts stride tolerance history n
      · have next : offer stride tolerance history n = history ++ [n] := if_pos accepted
        rw [next]
        by_cases related : ∀ m ∈ history, R m n
        · have start' : (history ++ [n]).Pairwise R := by
            rw [List.pairwise_append]
            simpa using ⟨start, related⟩
          rw [ih start']
          exact ⟨fun later => ⟨fun _ => related, later⟩, fun both => both.2⟩
        · constructor
          · intro all
            refine (related fun m member => ?_).elim
            have extends_ : (history ++ [n]).Sublist
                (run (offer stride tolerance) (history ++ [n]) numbers) := by
              refine run_invariant (I := fun h => (history ++ [n]).Sublist h) ?_
                (List.Sublist.refl _) numbers
              intro h a sub
              unfold offer
              split
              · exact sub.trans (List.sublist_append_left h [a])
              · exact sub
            have pairs := all.sublist extends_
            rw [List.pairwise_append] at pairs
            exact pairs.2.2 m member n (List.mem_singleton_self n)
          · intro both
            rcases both with ⟨now, -⟩
            exact (related (now accepted)).elim
      · have next : offer stride tolerance history n = history := if_neg accepted
        rw [next, ih start]
        simp [accepted]

/-- The step from one accepted number to the next. -/
def Near (stride tolerance last n : Nat) : Prop :=
  ((n : Int) - ((last : Int) + stride)).natAbs ≤ tolerance

theorem accepts_and_chain_iff {history numbers : List Nat} {n : Nat} :
    (history.getLast?.toList ++ n :: numbers).IsChain (Near stride tolerance) ↔
      Accepts stride tolerance history n ∧ (n :: numbers).IsChain (Near stride tolerance) := by
  unfold Accepts
  cases history.getLast? with
  | none => simp
  | some last => simp [Near]

theorem length_run_le (stride tolerance : Nat) (history numbers : List Nat) :
    (run (offer stride tolerance) history numbers).length ≤ history.length + numbers.length := by
  induction numbers generalizing history with
  | nil => exact Nat.le_refl _
  | cons n numbers ih =>
      have rest := ih (offer stride tolerance history n)
      have once : (offer stride tolerance history n).length ≤ history.length + 1 := by
        unfold offer
        split <;> simp
      rw [run_cons, List.length_cons]
      omega

/-- Every number that arrives is accepted exactly when each is near the one before it. -/
theorem run_eq_append_iff (stride tolerance : Nat) (history numbers : List Nat) :
    run (offer stride tolerance) history numbers = history ++ numbers ↔
      (history.getLast?.toList ++ numbers).IsChain (Near stride tolerance) := by
  induction numbers generalizing history with
  | nil =>
      refine iff_of_true (List.append_nil history).symm ?_
      cases history.getLast? <;> simp
  | cons n numbers ih =>
      rw [run_cons, accepts_and_chain_iff]
      by_cases accepted : Accepts stride tolerance history n
      · have next : offer stride tolerance history n = history ++ [n] := if_pos accepted
        have all := ih (history ++ [n])
        rw [List.getLast?_concat, Option.toList_some, List.append_assoc] at all
        rw [next, and_iff_right accepted]
        exact all
      · have next : offer stride tolerance history n = history := if_neg accepted
        rw [next]
        refine iff_of_false ?_ fun both => accepted both.1
        intro all
        have short := length_run_le stride tolerance history numbers
        rw [all, List.length_append, List.length_cons] at short
        omega

theorem exists_last {history : List Nat} {m : Nat} (member : m ∈ history) :
    ∃ last, last ∈ history.getLast? :=
  ⟨_, List.getLast?_eq_some_getLast (List.ne_nil_of_mem member)⟩

/-- No number is accepted twice exactly when each repeat arrives outside the window. -/
theorem nodup_run_iff (numbers : List Nat) :
    (run (offer stride tolerance) [] numbers).Nodup ↔
      Along (offer stride tolerance)
        (fun history n => n ∈ history → ∀ last ∈ history.getLast?,
          tolerance < ((n : Int) - ((last : Int) + stride)).natAbs)
        [] numbers := by
  have pairs := pairwise_run_iff stride tolerance (R := (· ≠ ·)) List.Pairwise.nil numbers
  refine pairs.trans (along_congr (I := fun _ => True) ?_ (fun _ _ _ _ => True.intro)
    True.intro numbers)
  intro history n _
  constructor
  · intro fresh repeated last isLast
    by_contra near
    refine fresh ?_ n repeated rfl
    intro last' isLast'
    cases Option.mem_unique isLast isLast'
    omega
  · rintro outside accepted m member rfl
    obtain ⟨last, isLast⟩ := exists_last member
    have near := accepted last isLast
    have far := outside member last isLast
    omega

/-- The members of a history whose later numbers stay within the tolerance below the
earlier ones, against its last number. -/
theorem le_last_add {history : List Nat}
    (floor : history.Pairwise fun earlier later => earlier ≤ later + tolerance)
    {last m : Nat} (isLast : last ∈ history.getLast?) (member : m ∈ history) :
    m ≤ last + tolerance := by
  obtain ⟨before, rfl⟩ := List.getLast?_eq_some_iff.mp isLast
  rw [List.pairwise_append] at floor
  rcases List.mem_append.mp member with old | new
  · exact floor.2.2 m old last (List.mem_singleton_self last)
  · rw [List.mem_singleton.mp new]
    omega

/-- No accepted number lies more than the tolerance below an earlier one exactly when no
number arrives that is so far below the largest and yet inside the window around the
last. -/
theorem floor_run_iff (numbers : List Nat) :
    ((run (offer stride tolerance) [] numbers).Pairwise
        fun earlier later => earlier ≤ later + tolerance) ↔
      Along (offer stride tolerance)
        (fun history n => ∀ last ∈ history.getLast?, ∀ m ∈ history,
          ¬ (last + stride ≤ n + tolerance ∧ n + tolerance < m))
        [] numbers := by
  refine (pairwise_run_iff stride tolerance List.Pairwise.nil numbers).trans
    (along_congr (I := fun history => history.Pairwise fun m n => m ≤ n + tolerance)
      ?_ ?_ List.Pairwise.nil numbers)
  · intro history n floor
    constructor
    · intro within last isLast m member ⟨low, high⟩
      have bound := le_last_add floor isLast member
      have accepted : Accepts stride tolerance history n := by
        intro last' isLast'
        cases Option.mem_unique isLast isLast'
        omega
      have := within accepted m member
      omega
    · intro outside accepted m member
      obtain ⟨last, isLast⟩ := exists_last member
      have near := accepted last isLast
      have := outside last isLast m member
      omega
  · intro history n floor within
    unfold offer
    split
    · rename_i accepted
      rw [List.pairwise_append]
      simpa using ⟨floor, within accepted⟩
    · exact floor

end SlidingWindow
