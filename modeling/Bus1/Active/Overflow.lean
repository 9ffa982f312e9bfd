/-
  Bus1.Active.Overflow

  What `bus1_active_deactivate()` promises ("once this returns, no new active
  references can be acquired"), and where the code breaks it.

  Deactivation adds `BUS1_ACTIVE_BIAS` to a non-negative counter, so it makes
  the counter negative, as the comment at the top of `active.c` says it does,
  only while fewer than `-BUS1_ACTIVE_BIAS` references are held.  With the
  bound of `Bounded` the promise holds: the object is no longer active, and
  every acquire steps and fails, leaving the counter and the references
  (`deactivate_promise_bounded`, from the invariants of `reachable_inv`).
  `bus1_active_acquire()` itself has no such limit: it increments whenever
  the counter is non-negative.  With `-BUS1_ACTIVE_BIAS = 2^31 - 5`
  references held, deactivation leaves the counter at 0: the object is
  ACTIVE again, a later acquire succeeds, and a second deactivation followed
  by a drain runs the release callback while all those references are still
  held (`deactivate_promise_fails`).
-/
import Bus1.Active.Drain

namespace Bus1.Active

open CInt ActiveState

/-! ## The promise, below the bound -/

/-- After a deactivation the counter is negative: not ACTIVE. -/
theorem HistInv.not_active {s : State} {a : ActiveState} {es : List Ev} (hh : HistInv s a es)
    (hd : ∃ t n, Ev.ret t n .deactivate ∈ es) : ∀ k, a ≠ .active k := fun k hk => by
  simpa [hk, ActiveState.deactivated] using hh.deactivated hd

/-- With fewer than `-BUS1_ACTIVE_BIAS` references held at once: once some
    deactivate call has returned, `bus1_active_is_active()` is false, and
    every acquire at its `atomic_inc_unless_negative()` can step and returns
    NULL, leaving the counter and the references held as they are. -/
theorem deactivate_promise_bounded {s : State} {es : List Ev} (h : Reachable Bounded s es)
    (hd : ∃ t n, Ev.ret t n .deactivate ∈ es) :
    isActive s.count = false ∧
    ∀ t, (s.threads t).pc = .acquireInc →
      ∃ s', step s (.next t) = some (s', [.ret t (s.threads t).calls (.acquire false)]) ∧
        s'.count = s.count ∧ s'.holders = s.holders := by
  obtain ⟨a, hi, hh⟩ := reachable_inv h
  refine ⟨?_, fun t ht => ⟨_, step_next_of .idle s.count (.ret (.acquire false)) ?_, rfl, rfl⟩⟩
  · have : ¬ 0 ≤ s.count.val := fun h0 => hh.not_active hd _ (active_of_nonneg hi.encodes h0)
    simp [isActive, this]
  · simp [ht, Pc.step, atomicIncUnlessNegative_eq hi.encodes (hh.not_active hd)]

/-- In the run of `reachable_drained`, thread 1 then calls acquire: the
    object is no longer active, and the acquire fails. -/
theorem deactivate_promise_bounded_acquire :
    ∃ s es, Reachable Bounded s es ∧ Ev.ret 0 1 .deactivate ∈ es ∧
      (s.threads 1).pc = .acquireInc ∧ isActive s.count = false ∧
      ∃ s', step s (.next 1) = some (s', [.ret 1 (s.threads 1).calls (.acquire false)]) ∧
        s'.count = s.count ∧ s'.holders = s.holders := by
  obtain ⟨s, h, -, hp⟩ := reachable_drained
  have h₁ := h.call 1 .acquire hp trivial h.bounded
  have hp₁ : ((s.invoke 1 .acquire).threads 1).pc = .acquireInc := by simp [Fn.entry]
  refine ⟨_, _, h₁, List.mem_append_right _ (by decide), hp₁, ?_⟩
  obtain ⟨ha, hacq⟩ := deactivate_promise_bounded h₁ ⟨0, 1, List.mem_append_right _ (by decide)⟩
  exact ⟨ha, hacq 1 hp₁⟩

/-! ## Past the bound -/

/-- Thread `t` acquires `m` references in a row, as long as the counter stays
    below `2^31`. -/
theorem Reachable.acquires {P : State → Prop} (hP : ∀ s, P s) {s : State} {es : List Ev}
    (h : Reachable P s es) (t c : Nat) (ht : s.threads t = ⟨.idle, c⟩) (hc : 0 ≤ s.count.val)
    (m : Nat) (hm : s.count.val + m < 2 ^ 31) :
    ∃ es', Reachable P (State.mk (ofInt (s.count.val + m))
      (Function.update s.threads t ⟨.idle, c + m⟩) (List.replicate m t ++ s.holders)) es' := by
  induction m with
  | zero =>
    refine ⟨es, ?_⟩
    have hs : ofInt s.count.val = s.count := CInt.ext (ofInt_val s.count.le_val s.count.val_lt)
    simpa [hs, ← ht] using h
  | succ m ih =>
    obtain ⟨es', h'⟩ := ih (by omega)
    have hv : (ofInt (s.count.val + m)).val = s.count.val + m := ofInt_val (by omega) (by omega)
    have h2 := (h'.call t .acquire (by simp) trivial (hP _)).next t .idle
      (ofInt (s.count.val + (m + 1 : Nat))) (.ret (.acquire true))
      (by simp [Pc.step, atomicIncUnlessNegative, hv, Fn.entry, add_assoc,
        show 0 ≤ s.count.val + m by omega]) (hP _)
    convert (⟨_, h2⟩ : ∃ es, Reachable P _ es) using 3
    simp [State.after, State.invoke, Out.holders, Out.isRet, List.replicate_succ, add_assoc]

/-- With `2^31 - 5` references held, deactivation does not keep its promise.
    Thread 0 activates the object and acquires `2^31 - 5` references; thread 1
    deactivates it, which adds the bias and leaves the counter at 0:
    * the object is active after that deactivate call returned, and an
      acquire by thread 2 that starts after it succeeds;
    * thread 1 deactivates again (to BIAS) and drains with a callback, which
      then runs while thread 0 still holds all its references. -/
theorem deactivate_promise_fails :
    (∃ s es later earlier, Reachable (fun _ => True) s es ∧
      es = later ++ Ev.ret 1 0 .deactivate :: earlier ∧
      Ev.call 2 0 .acquire ∈ later ∧ Ev.ret 2 0 (.acquire true) ∈ later ∧
      isActive s.count = true) ∧
    (∃ s es, Reachable (fun _ => True) s es ∧ (∃ t n, Ev.ret t n .deactivate ∈ es) ∧
      ∃ t, (s.threads t).pc = .drainCallback ∧ s.holders ≠ []) := by
  -- thread 0 activates and acquires `2^31 - 5` references
  obtain ⟨es, h⟩ := (((Reachable.init (P := fun _ => True)).call 0 .activate rfl trivial
    trivial).next 0 .idle 0 (.ret (.activate true)) (by decide) trivial).acquires
    (fun _ => trivial) 0 1 rfl (by decide) 2147483643 (by decide)
  -- thread 1 deactivates: the bias brings the counter to 0
  have hd := (((h.call 1 .deactivate rfl trivial trivial).next 1 (.addRead BIAS)
    (ofInt 2147483643) .none (by decide) trivial).next 1 (.addCmpxchg BIAS (ofInt 2147483643))
    (ofInt 2147483643) .none (by decide) trivial).next 1 .idle 0 (.ret .deactivate)
    (by decide) trivial
  -- thread 1 deactivates again, to BIAS, and drains with a callback
  have hc := (((((((((hd.call 1 .deactivate rfl trivial trivial).next 1 (.addRead BIAS) 0 .none
    (by decide) trivial).next 1 (.addCmpxchg BIAS 0) 0 .none (by decide) trivial).next 1 .idle
    BIAS (.ret .deactivate) (by decide) trivial).call 1 (.drain true) rfl trivial trivial).next 1
    (.drainWait true) BIAS .none (by decide) trivial).next 1 (.drainCmpxchgDirect true) BIAS
    .none (by decide) trivial).next 1 (.drainCmpxchgBias true) BIAS .none (by decide)
    trivial).next 1 (.drainRelease true) RELEASE .mark (by decide) trivial).next 1
    .drainCallback RELEASE .callback (by decide) trivial
  exact ⟨⟨_, _, [.ret 2 0 (.acquire true), .call 2 0 .acquire], _,
    (hd.call 2 .acquire rfl trivial trivial).next 2 .idle 1 (.ret (.acquire true)) (by decide)
      trivial, rfl, by simp, by simp, by decide⟩,
    ⟨_, _, hc, ⟨1, 1, List.mem_iff_append.2
      ⟨[.callback 1 2, .mark 1 2, .call 1 2 (.drain true)], _, rfl⟩⟩, 1, by decide,
      List.ne_nil_of_mem (show 0 ∈ List.replicate 2147483643 0 ++ _ from
        List.mem_append_left _ (List.mem_replicate.2 ⟨by decide, rfl⟩))⟩⟩

end Bus1.Active
