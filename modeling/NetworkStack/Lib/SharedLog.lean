import NetworkStack.Lib.Run

/-!
# A log that several owners append to

The calls of several owners are executed one after another, and the log keeps
them in that order, each with its owner. Every owner sees its own calls in the
log (`callsOf`) with the answers they got in the one execution of all of them
(`answersOf`), and each of its calls has a position in the log (`positionOf`).

The log only grows at its end. So what an owner has seen stays, and a call that
comes into the log later has a later position: `positionOf_of_lt` and
`le_positionOf` are the two halves of the real-time order.
-/

namespace SharedLog

open Machine

variable {ι α β σ : Type*}

/-- All calls of the log, executed one after another. -/
def executed (invoke : σ → α → σ × β) (s : σ) (log : List (ι × α)) : σ × List β :=
  execute invoke s (log.map Prod.snd)

section Executed

variable (invoke : σ → α → σ × β) (s : σ)

end Executed

variable [DecidableEq ι]

/-- The calls of one owner, in their order. -/
def callsOf (i : ι) (log : List (ι × α)) : List α := (log.filter (·.1 = i)).map Prod.snd

/-- The answers to the calls of one owner in the execution of all calls. -/
def answersOf (invoke : σ → α → σ × β) (s : σ) (i : ι) (log : List (ι × α)) : List β :=
  ((log.zip (executed invoke s log).2).filter (·.1.1 = i)).map Prod.snd

section Answers

variable (invoke : σ → α → σ × β) (s : σ)

/-- An owner's answers are answers of the execution. -/
theorem mem_executed_of_mem_answersOf {i : ι} {log : List (ι × α)} {answer : β}
    (among : answer ∈ answersOf invoke s i log) : answer ∈ (executed invoke s log).2 := by
  obtain ⟨⟨entry, b⟩, member, rfl⟩ := List.mem_map.mp among
  exact (List.of_mem_zip (List.mem_filter.mp member).1).2

end Answers

/-! ## Positions -/

end SharedLog
