/-
  Bus1.Active.Drain

  `bus1_active_drain()` with any number of concurrent drainers, acquirers,
  releasers and deactivators: the release callback runs at most once, alone,
  and every drain call past its `is_deactivated` check returns only once the
  object is DRAINED.

  Everything is read off the two invariants of `reachable_inv`: the counted
  events of `HistInv`, and the per-call logs of `ThreadLog`, whose completed
  shapes (`Completed`) say what a drain call did before it returned.
-/
import Bus1.Active.History

namespace Bus1.Active

open CInt ActiveState

/-! ## Completed drain calls -/

theorem Pc.ret_not_mem_log {p : Pc} {t n : Nat} {r : Ret} : Ev.ret t n r ∉ p.log t n := by
  cases p <;> simp [Pc.log]

/-- An event of call `n` of thread `t` is in the history iff it is in that call's log. -/
theorem mem_iff_mem_callLog {es : List Ev} {e : Ev} {t n : Nat} (ht : e.tid = t)
    (hn : e.num = n) : e ∈ es ↔ e ∈ callLog es t n := by
  simp [mem_callLog, ht, hn]

/-- A call that has returned has a completed log. -/
theorem ThreadLog.completed_of_ret {es : List Ev} {t n : Nat} {th : Thread} {r : Ret}
    (hl : ThreadLog es t th) (h : Ev.ret t n r ∈ es) : Completed t n (callLog es t n) := by
  have h' : Ev.ret t n r ∈ callLog es t n := (mem_iff_mem_callLog rfl rfl).1 h
  rcases Nat.lt_trichotomy n th.calls with hn | rfl | hn
  · exact hl.done n hn
  · rw [hl.cur] at h'; exact absurd h' Pc.ret_not_mem_log
  · rw [hl.future n hn] at h'; exact absurd h' (List.not_mem_nil _)

namespace Completed

variable {t n : Nat} {l : List Ev}

/-- A completed drain call returned true exactly if it made the cmpxchg to RELEASE. -/
theorem drain_iff_mark (h : Completed t n l) {r : Bool} (hr : Ev.ret t n (.drain r) ∈ l) :
    r = true ↔ Ev.mark t n ∈ l := by
  cases h <;> simp_all [Pc.log]

/-- A drain call that returned true invoked the callback exactly if it had one. -/
theorem callback_iff (h : Completed t n l) (hr : Ev.ret t n (.drain true) ∈ l) {cb : Bool}
    (hc : Ev.call t n (.drain cb) ∈ l) : Ev.callback t n ∈ l ↔ cb = true := by
  cases h <;> simp_all [Pc.log]

end Completed

/-! ## The drain guarantees -/

theorem Reachable.bounded {s : State} {es : List Ev} (h : Reachable Bounded s es) : Bounded s := by
  cases h with
  | init => show ((0 : Nat) : Int) < -BIAS.val; decide
  | step _ _ _ hb => exact hb

/-- A negative counter makes `atomic_inc_unless_negative()` fail, and leaves
    the counter as it is. -/
theorem atomicIncUnlessNegative_eq {v : CInt} {a : ActiveState} (hv : Encodes v a)
    (ha : ∀ k, a ≠ .active k) : atomicIncUnlessNegative v = (false, v) := by
  have : ¬ 0 ≤ v.val := fun h => ha _ (active_of_nonneg hv h)
  simp [atomicIncUnlessNegative, this]

/-- A drain return after the check is the winner's or a waiter's, both in DRAINED. -/
theorem drained_of_drain_ret {a a' : ActiveState} {p p' : Pc} {o : Out} {r : Bool}
    (h : ThreadStep a p a' p' o) (ho : o = .ret (.drain r)) (hp : ∀ cb, p ≠ .drainCheck cb) :
    a' = .drained := by
  cases h <;> simp_all

/-- A run within the bound: thread 0 activates, deactivates and drains with a
    callback. -/
theorem reachable_drained : ∃ s, Reachable Bounded s
    [.ret 0 2 (.drain true), .callback 0 2, .mark 0 2, .call 0 2 (.drain true),
      .ret 0 1 .deactivate, .call 0 1 .deactivate, .ret 0 0 (.activate true),
      .call 0 0 .activate] ∧ s.count = DRAINED ∧ (s.threads 1).pc = .idle :=
  ⟨_, ((((((((((((((Reachable.init (P := Bounded)).call 0 .activate rfl trivial
    (by decide)).next 0 .idle 0 (.ret (.activate true)) (by decide) (by decide)).call 0
    .deactivate rfl trivial (by decide)).next 0 (.addRead BIAS) 0 .none (by decide)
    (by decide)).next 0 (.addCmpxchg BIAS 0) 0 .none (by decide) (by decide)).next 0 .idle
    BIAS (.ret .deactivate) (by decide) (by decide)).call 0 (.drain true) rfl trivial
    (by decide)).next 0 (.drainWait true) BIAS .none (by decide) (by decide)).next 0
    (.drainCmpxchgDirect true) BIAS .none (by decide) (by decide)).next 0
    (.drainCmpxchgBias true) BIAS .none (by decide) (by decide)).next 0 (.drainRelease true)
    RELEASE .mark (by decide) (by decide)).next 0 .drainCallback RELEASE .callback (by decide)
    (by decide)).next 0 (.drainSetDrained true) RELEASE .none (by decide) (by decide)).next 0
    .idle DRAINED (.ret (.drain true)) (by decide) (by decide), rfl, rfl⟩

/-- `bus1_active_drain()` along every run in which fewer than
    `-BUS1_ACTIVE_BIAS` references are held at once, with any number of
    threads draining concurrently:
    * the release callback is invoked by at most one drain call; it runs only
      while the counter is RELEASE and no reference is held; once it has been
      invoked, no `atomic_inc_unless_negative()` of `bus1_active_acquire`
      succeeds;
    * at most one drain call returns true; a drain call returns true exactly
      when it made the cmpxchg to RELEASE, and then it invoked the callback
      exactly when it was given one;
    * on an object that is not deactivated, a drain at its check can step,
      and returns false there, with the counter unchanged and no callback;
    * a drain call past its check returns only once the counter is DRAINED,
      with no callback still running. -/
theorem drain_releases_once {s : State} {es : List Ev} (h : Reachable Bounded s es) :
    es.countP Ev.isCallback ≤ 1 ∧
    (∀ t, (s.threads t).pc = .drainCallback → s.count = RELEASE ∧ s.holders = []) ∧
    ((∃ t n, Ev.callback t n ∈ es) → (atomicIncUnlessNegative s.count).1 = false) ∧
    es.countP Ev.isDrainTrue ≤ 1 ∧
    (∀ t n r, Ev.ret t n (.drain r) ∈ es → (r = true ↔ Ev.mark t n ∈ es)) ∧
    (∀ t n cb, Ev.ret t n (.drain true) ∈ es → Ev.call t n (.drain cb) ∈ es →
      (Ev.callback t n ∈ es ↔ cb = true)) ∧
    (∀ t cb, (s.threads t).pc = .drainCheck cb → isDeactivated s.count = false →
      ∃ s', step s (.next t) = some (s', [.ret t (s.threads t).calls (.drain false)]) ∧
        s'.count = s.count) ∧
    (∀ t s' evs n r, step s (.next t) = some (s', evs) → Ev.ret t n (.drain r) ∈ evs →
      (∀ cb, (s.threads t).pc ≠ .drainCheck cb) →
      s'.count = DRAINED ∧ ∀ t', (s'.threads t').pc ≠ .drainCallback) := by
  obtain ⟨a, hi, hh⟩ := reachable_inv h
  have hmark : es.countP Ev.isMark ≤ 1 := by rw [hh.marks]; cases a.released <;> decide
  refine ⟨hh.callbacks.trans hmark, fun t ht => ?_, fun ⟨t, n, hc⟩ => ?_,
    by rw [hh.drainTrue]; cases decide (a = .drained) <;> decide,
    fun t n r hr => ?_, fun t n cb hr hc => ?_, fun t cb hp hd => ?_,
    fun t s' evs n r hs hr hp => ?_⟩
  · -- the callback runs in RELEASE, with nothing held
    have ha : a = .release := (hi.pcOk t).release_of_winner (by simp [ht, Pc.Winner])
    subst ha
    exact ⟨hi.encodes.eq_RELEASE_iff.2 rfl, List.eq_nil_of_length_eq_zero hi.refs.symm⟩
  · -- after the callback, the counter is negative
    have h1 : 0 < es.countP Ev.isCallback := List.countP_pos_iff.2 ⟨_, hc, rfl⟩
    have h2 : a.released = true := by
      have h3 := hh.callbacks
      rw [hh.marks] at h3
      cases hr : a.released
      · rw [hr] at h3; exact absurd h3 (by simp only [Bool.toNat_false]; omega)
      · rfl
    rw [atomicIncUnlessNegative_eq hi.encodes fun k hk => by simp [hk, released] at h2]
  · -- a drain call returns true iff it made the cmpxchg
    have hc := (hh.log t).completed_of_ret hr
    have hr' : Ev.ret t n (.drain r) ∈ callLog es t n := (mem_iff_mem_callLog rfl rfl).1 hr
    rw [show Ev.mark t n ∈ es ↔ _ from mem_iff_mem_callLog rfl rfl]
    exact hc.drain_iff_mark hr'
  · -- and it ran the callback iff it had one
    have hcl := (hh.log t).completed_of_ret hr
    have hr' : Ev.ret t n (.drain true) ∈ callLog es t n := (mem_iff_mem_callLog rfl rfl).1 hr
    have hc' : Ev.call t n (.drain cb) ∈ callLog es t n := (mem_iff_mem_callLog rfl rfl).1 hc
    rw [show Ev.callback t n ∈ es ↔ _ from mem_iff_mem_callLog rfl rfl]
    exact hcl.callback_iff hr' hc'
  · -- drain on an object that is not deactivated
    exact ⟨_, step_next_of .idle s.count (.ret (.drain false)) (by simp [hp, Pc.step, hd]), rfl⟩
  · -- a drain call past its check returns in DRAINED
    obtain ⟨p', c, o, hst, rfl, rfl⟩ := step_next_inv hs
    have ho : o = .ret (.drain r) := by cases o <;> simp_all [Out.events]
    have hb : Bounded (s.after t p' c o) := by
      simpa [Bounded, State.after, ho, Out.holders] using h.bounded
    obtain ⟨a', he, hts⟩ := hi.sim hst hb
    have ha' := drained_of_drain_ret hts ho hp
    subst ha'
    refine ⟨he.eq_DRAINED_iff.2 rfl, fun t' ht' => ?_⟩
    have := ((hi.after he hts).pcOk t').release_of_winner (by rw [ht']; trivial)
    exact absurd this (by decide)

/-- In the run of `reachable_drained`, the callback ran once. -/
theorem drain_releases_once_drained :
    ∃ s es, Reachable Bounded s es ∧ Ev.callback 0 2 ∈ es ∧ es.countP Ev.isCallback ≤ 1 :=
  let ⟨_, h, _⟩ := reachable_drained
  ⟨_, _, h, by decide, (drain_releases_once h).1⟩

end Bus1.Active
