/-
  Bus1.Active.LockFree

  The retry loop of `bus1_active_add_unless_negative` is lock-free: a thread
  retries its cmpxchg only when the counter no longer holds the value it read,
  and since the loop goes on with the value the failed cmpxchg returned, the
  counter must have been moved by another thread in between.  Along any run
  the retries of a thread are at most the steps of other threads that moved
  the counter, plus one for a value already stale when the run began
  (`add_retries_bounded`).
-/
import Bus1.Active.Machine

namespace Bus1.Active

open CInt

namespace Pc

/-- The cmpxchg of `bus1_active_add_unless_negative`. -/
def isAddCmpxchg : Pc → Bool
  | addCmpxchg _ _ => true
  | _ => false

/-- At the cmpxchg, with a value the counter `c` no longer holds. -/
def staleAt : Pc → CInt → Nat
  | addCmpxchg _ v, c => if c = v then 0 else 1
  | _, _ => 0

/-- At most one stale value is pending per thread. -/
theorem staleAt_le_one (p : Pc) (c : CInt) : p.staleAt c ≤ 1 := by
  unfold staleAt
  split
  · split_ifs <;> omega
  · omega

/-- A retry, from the cmpxchg back to it, is made only with a stale value,
    and leaves the value fresh. -/
theorem retry_step {p p' : Pc} {c c' : CInt} {o : Out} (h : p.step c = some (p', c', o)) :
    (if p.isAddCmpxchg ∧ p'.isAddCmpxchg then 1 else 0) + p'.staleAt c' ≤ p.staleAt c := by
  cases p <;> simp only [Pc.step, atomicCmpxchg, atomicIncUnlessNegative] at h <;>
    (try split_ifs at h) <;> cases h <;> simp_all [isAddCmpxchg, staleAt]

end Pc

/-- Runs of any calls and steps from `s` to `s'`, with `r` the retries of the
    cmpxchg of `bus1_active_add_unless_negative` by thread `t`, and `m` the
    steps of other threads that moved the counter. -/
inductive RetryRun (t : Nat) : State → Nat → Nat → State → Prop where
  | nil (s : State) : RetryRun t s 0 0 s
  | call {s s₁ s' : State} {u : Nat} {f : Fn} {evs : List Ev} {r m : Nat} :
      step s (.call u f) = some (s₁, evs) → RetryRun t s₁ r m s' → RetryRun t s r m s'
  | self {s s₁ s' : State} {evs : List Ev} {r m : Nat} :
      step s (.next t) = some (s₁, evs) → RetryRun t s₁ r m s' →
      RetryRun t s ((if (s.threads t).pc.isAddCmpxchg ∧ (s₁.threads t).pc.isAddCmpxchg
        then 1 else 0) + r) m s'
  | other {s s₁ s' : State} {u : Nat} {evs : List Ev} {r m : Nat} :
      u ≠ t → step s (.next u) = some (s₁, evs) → RetryRun t s₁ r m s' →
      RetryRun t s r ((if s₁.count = s.count then 0 else 1) + m) s'

section Run

variable {t : Nat} {s s' : State} {r m : Nat}

/-- Along a run, retries and the final staleness are paid by the moves of the
    counter by other threads and the staleness at the start. -/
theorem RetryRun.le (h : RetryRun t s r m s') :
    r + (s'.threads t).pc.staleAt s'.count ≤ m + (s.threads t).pc.staleAt s.count := by
  induction h with
  | nil => exact Nat.le_refl _
  | @call s s₁ s' u f evs r m hs _ ih =>
    obtain ⟨hidle, rfl, -⟩ := step_call_inv hs
    by_cases hu : t = u
    · subst hu
      have h0 : f.entry.staleAt s.count = 0 := by cases f <;> rfl
      simp only [State.invoke_threads, if_true, State.invoke_count] at ih
      rw [h0] at ih
      rw [hidle]
      exact ih
    · simpa [hu] using ih
  | @self s s₁ s' evs r m hs _ ih =>
    obtain ⟨p', c, o, hst, rfl, -⟩ := step_next_inv hs
    have := Pc.retry_step hst
    simp only [State.after_threads, if_true, State.after_count] at ih this ⊢
    omega
  | @other s s₁ s' u evs r m hut hs _ ih =>
    obtain ⟨p', c, o, -, rfl, -⟩ := step_next_inv hs
    have hne : t ≠ u := fun h => hut h.symm
    have := Pc.staleAt_le_one (s.threads t).pc c
    simp only [State.after_threads, hne, if_false, State.after_count] at ih ⊢
    split_ifs with hc
    · rw [hc] at ih
      omega
    · omega

/-- `bus1_active_add_unless_negative` is lock-free: along any run, the
    retries of its cmpxchg by a thread are at most the steps of other threads
    that moved the counter, plus one; none more when the thread starts the
    run outside a call. -/
theorem add_retries_bounded (h : RetryRun t s r m s') :
    r ≤ m + 1 ∧ ((s.threads t).pc = .idle → r ≤ m) := by
  have := h.le
  refine ⟨by have := Pc.staleAt_le_one (s.threads t).pc s.count; omega, fun hi => ?_⟩
  rw [hi] at this
  simp only [Pc.staleAt] at this
  omega

end Run

/-- Thread 0 activates, thread 1 starts a deactivation and reads 0, thread 2
    takes a reference, and thread 1's cmpxchg retries once before it
    succeeds: the retry is paid by thread 2's move of the counter. -/
theorem add_retries_bounded_acquire : ∃ s' r m, RetryRun 1 init r m s' ∧ r = 1 ∧ r ≤ m := by
  have h : RetryRun 1 init _ _ _ :=
    .call (step_call_of (f := .activate) (t := 0) rfl) <|
    .other (by decide) (step_next_of (t := 0) .idle 0 (.ret (.activate true)) (by decide)) <|
    .call (step_call_of (f := .deactivate) (t := 1) rfl) <|
    .self (step_next_of (t := 1) (.addRead BIAS) 0 .none (by decide)) <|
    .self (step_next_of (t := 1) (.addCmpxchg BIAS 0) 0 .none (by decide)) <|
    .call (step_call_of (f := .acquire) (t := 2) rfl) <|
    .other (by decide) (step_next_of (t := 2) .idle 1 (.ret (.acquire true)) (by decide)) <|
    .self (step_next_of (t := 1) (.addCmpxchg BIAS 1) 1 .none (by decide)) <|
    .self (step_next_of (t := 1) .idle (1 + BIAS) (.ret .deactivate) (by decide)) <|
    .nil _
  exact ⟨_, _, _, h, by decide, (add_retries_bounded h).2 rfl⟩

end Bus1.Active
