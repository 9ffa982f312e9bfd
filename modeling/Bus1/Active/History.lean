/-
  Bus1.Active.History

  What the history of a run records about each call.

  The events of one call (`callLog es t n`) are fixed by where the thread
  stands in it (`Pc.log`), and once it has returned they have one of the
  shapes of `Completed`: in particular a drain call returns true only after
  its own cmpxchg to RELEASE, and then has invoked the release callback
  exactly when it was given one.  `ThreadLog` states this for every call of a
  thread; it only looks at the thread's own events, so the steps of other
  threads keep it.  `HistInv` adds what is counted over all threads.
-/
import Bus1.Active.Refinement

namespace Bus1.Active

open CInt ActiveState

namespace Ev

/-- The thread of an event. -/
def tid : Ev → Nat
  | call t _ _ | ret t _ _ | mark t _ | callback t _ => t

/-- The call number of an event. -/
def num : Ev → Nat
  | call _ n _ | ret _ n _ | mark _ n | callback _ n => n

def isMark : Ev → Bool
  | mark _ _ => true
  | _ => false

def isCallback : Ev → Bool
  | callback _ _ => true
  | _ => false

def isDrainTrue : Ev → Bool
  | ret _ _ (.drain true) => true
  | _ => false

end Ev

/-- The events of call `n` of thread `t`, latest first. -/
def callLog (es : List Ev) (t n : Nat) : List Ev :=
  es.filter fun e => e.tid = t ∧ e.num = n

/-- The events the current call `n` of thread `t` has produced, by position. -/
def Pc.log (t n : Nat) : Pc → List Ev
  | .idle => []
  | .activateCmpxchg => [.call t n .activate]
  | .acquireInc => [.call t n .acquire]
  | .releaseDec => [.call t n .release]
  | .deactivateCmpxchg | .addRead _ | .addCmpxchg _ _ => [.call t n .deactivate]
  | .drainCheck cb | .drainWait cb | .drainCmpxchgDirect cb | .drainCmpxchgBias cb
  | .drainWaitDrained cb => [.call t n (.drain cb)]
  | .drainRelease cb => [.mark t n, .call t n (.drain cb)]
  | .drainCallback => [.callback t n, .mark t n, .call t n (.drain true)]
  | .drainSetDrained cb =>
    (if cb then [.callback t n] else []) ++ [.mark t n, .call t n (.drain cb)]

/-- The event log of call `n` of thread `t` once it has returned. -/
inductive Completed (t n : Nat) : List Ev → Prop where
  | activate (res : Bool) : Completed t n [.ret t n (.activate res), .call t n .activate]
  | acquire (res : Bool) : Completed t n [.ret t n (.acquire res), .call t n .acquire]
  | release : Completed t n [.ret t n .release, .call t n .release]
  | deactivate : Completed t n [.ret t n .deactivate, .call t n .deactivate]
  | drainFalse (cb : Bool) : Completed t n [.ret t n (.drain false), .call t n (.drain cb)]
  | drainTrue (cb : Bool) :
      Completed t n (.ret t n (.drain true) :: (Pc.drainSetDrained cb).log t n)

/-! ## Call logs -/

section CallLog

variable {es l : List Ev} {t t' n c : Nat} {o : Out}

theorem mem_callLog {e : Ev} : e ∈ callLog es t n ↔ e ∈ es ∧ e.tid = t ∧ e.num = n := by
  simp [callLog]

theorem callLog_append : callLog (l ++ es) t n = callLog l t n ++ callLog es t n :=
  List.filter_append _ _

theorem callLog_events_self : callLog (o.events t c) t c = o.events t c := by
  cases o <;> simp [callLog, Out.events, Ev.tid, Ev.num]

theorem callLog_events_of_ne (h : t' ≠ t ∨ n ≠ c) : callLog (o.events t c) t' n = [] := by
  cases o <;> simp [callLog, Out.events, Ev.tid, Ev.num] <;> omega

/-- The events of other threads leave a thread's call logs alone. -/
theorem callLog_append_of_tid (h : ∀ e ∈ l, e.tid ≠ t) :
    callLog (l ++ es) t n = callLog es t n := by
  have : callLog l t n = [] := List.filter_eq_nil_iff.2 fun e he => by simp [h e he]
  rw [callLog_append, this, List.nil_append]

end CallLog

/-! ## The log of one step -/

namespace ThreadStep

variable {a a' : ActiveState} {p p' : Pc} {o : Out}

theorem log_eq (h : ThreadStep a p a' p' o) (hr : o.isRet = false) (t c : Nat) :
    o.events t c ++ p.log t c = p'.log t c := by
  cases h <;> simp_all [Out.isRet, Out.events, Pc.log]

theorem idle_of_ret (h : ThreadStep a p a' p' o) (hr : o.isRet = true) : p' = .idle := by
  cases h <;> simp_all [Out.isRet]

theorem completed (h : ThreadStep a p a' p' (.ret r)) (t c : Nat) :
    Completed t c (.ret t c r :: p.log t c) := by
  cases h
  · exact .activate true
  · exact .activate false
  · exact .acquire true
  · exact .acquire false
  all_goals first
    | exact .release | exact .deactivate | exact .drainFalse _ | exact .drainTrue _

end ThreadStep

theorem Fn.entry_log (f : Fn) (t n : Nat) : f.entry.log t n = [.call t n f] := by
  cases f <;> rfl

/-! ## Per-thread logs -/

/-- Every call of thread `t` has the log its progress says. -/
structure ThreadLog (es : List Ev) (t : Nat) (th : Thread) : Prop where
  done : ∀ n < th.calls, Completed t n (callLog es t n)
  cur : callLog es t th.calls = th.pc.log t th.calls
  future : ∀ n, th.calls < n → callLog es t n = []

namespace ThreadLog

variable {es l : List Ev} {t : Nat} {th : Thread}

theorem init (t : Nat) : ThreadLog [] t ⟨.idle, 0⟩ :=
  ⟨fun _ h => absurd h (Nat.not_lt_zero _), rfl, fun _ _ => rfl⟩

/-- Events of other threads keep a thread's logs. -/
theorem of_tid (hl : ThreadLog es t th) (h : ∀ e ∈ l, e.tid ≠ t) : ThreadLog (l ++ es) t th :=
  ⟨fun n hn => by rw [callLog_append_of_tid h]; exact hl.done n hn,
    by rw [callLog_append_of_tid h]; exact hl.cur,
    fun n hn => by rw [callLog_append_of_tid h]; exact hl.future n hn⟩

/-- Invoking a call opens its log. -/
theorem invoke (hl : ThreadLog es t ⟨.idle, c⟩) (f : Fn) :
    ThreadLog ([.call t c f] ++ es) t ⟨f.entry, c⟩ := by
  have hself : callLog [.call t c f] t c = [.call t c f] := by simp [callLog, Ev.tid, Ev.num]
  have hne : ∀ n, n ≠ c → callLog [.call t c f] t n = [] := by
    intro n hn; simp [callLog, Ev.tid, Ev.num, Ne.symm hn]
  refine ⟨fun n hn => ?_, ?_, fun n hn => ?_⟩
  · rw [callLog_append, hne n (Nat.ne_of_lt hn), List.nil_append]; exact hl.done n hn
  · rw [callLog_append, hself, hl.cur, Fn.entry_log]; rfl
  · rw [callLog_append, hne n (Nat.ne_of_gt hn), List.nil_append]; exact hl.future n hn

/-- A thread step extends the current log, or completes the call. -/
theorem next {c : Nat} {a a' : ActiveState} {p p' : Pc} {o : Out}
    (hl : ThreadLog es t ⟨p, c⟩) (h : ThreadStep a p a' p' o) :
    ThreadLog (o.events t c ++ es) t ⟨p', if o.isRet then c + 1 else c⟩ := by
  have hold : ∀ n, n ≠ c → callLog (o.events t c ++ es) t n = callLog es t n := fun n hn => by
    rw [callLog_append, callLog_events_of_ne (.inr hn), List.nil_append]
  cases hr : o.isRet
  · show ThreadLog _ t ⟨p', c⟩
    refine ⟨fun n hn => ?_, ?_, fun n hn => ?_⟩
    · rw [hold n (Nat.ne_of_lt hn)]; exact hl.done n hn
    · rw [callLog_append, callLog_events_self, hl.cur]; exact h.log_eq hr t c
    · rw [hold n (Nat.ne_of_gt hn)]; exact hl.future n hn
  · obtain ⟨r, rfl⟩ : ∃ r, o = .ret r := by cases o <;> simp_all [Out.isRet]
    show ThreadLog _ t ⟨p', c + 1⟩
    rw [h.idle_of_ret hr]
    refine ⟨fun n (hn : n < c + 1) => ?_, ?_, fun n (hn : c + 1 < n) => ?_⟩
    · rcases Nat.lt_succ_iff_lt_or_eq.1 hn with hn | rfl
      · rw [hold n (Nat.ne_of_lt hn)]; exact hl.done n hn
      · rw [callLog_append, callLog_events_self, hl.cur]; exact h.completed t n
    · show callLog _ t (c + 1) = []
      rw [hold _ (by omega)]; exact hl.future _ (Nat.lt_succ_self c)
    · rw [hold n (by omega)]; exact hl.future n (by show c < n; omega)

end ThreadLog

/-! ## Counting over all threads -/

namespace ThreadStep

variable {a a' : ActiveState} {p p' : Pc} {o : Out}

/-- The cmpxchg to RELEASE is the step into the released states. -/
theorem released_toNat (h : ThreadStep a p a' p' o) (t c : Nat) :
    a'.released.toNat = a.released.toNat + (o.events t c).countP Ev.isMark := by
  cases h <;> rfl

/-- The winner's return is the step into DRAINED. -/
theorem drained_toNat (h : ThreadStep a p a' p' o) (t c : Nat) :
    (decide (a' = .drained)).toNat =
      (decide (a = .drained)).toNat + (o.events t c).countP Ev.isDrainTrue := by
  cases h <;> rfl

theorem countP_callback (t c : Nat) :
    (o.events t c).countP Ev.isCallback = if o = .callback then 1 else 0 := by
  cases o <;> rfl

/-- The callback is invoked by the winner, in RELEASE. -/
theorem of_callback (h : ThreadStep a p a' p' o) (ho : o = .callback) :
    p = .drainRelease true ∧ a = .release := by
  cases h <;> simp_all

/-- A thread reaches `if (release)` only by its own cmpxchg to RELEASE. -/
theorem of_drainRelease (h : ThreadStep a p a' p' o) {cb : Bool} (hp : p' = .drainRelease cb) :
    o = .mark ∧ a.released = false := by
  cases h <;> simp_all [released]

/-- A deactivation returns in a deactivated state. -/
theorem deactivated_of_ret (h : ThreadStep a p a' p' o) (ho : o = .ret .deactivate) :
    a'.deactivated := by
  cases h
  all_goals first | rfl | exact deactivated_of_ne ‹_› ‹_› | simp at ho

end ThreadStep

/-- The history invariant, at abstract state `a`. -/
structure HistInv (s : State) (a : ActiveState) (es : List Ev) : Prop where
  log : ∀ t, ThreadLog es t (s.threads t)
  marks : es.countP Ev.isMark = a.released.toNat
  drainTrue : es.countP Ev.isDrainTrue = (decide (a = .drained)).toNat
  callbacks : es.countP Ev.isCallback ≤ es.countP Ev.isMark
  pending : ∀ t cb, (s.threads t).pc = .drainRelease cb → es.countP Ev.isCallback = 0
  deactivated : (∃ t n, Ev.ret t n .deactivate ∈ es) → a.deactivated

theorem histInv_init : HistInv init .new [] where
  log t := ThreadLog.init t
  marks := rfl
  drainTrue := rfl
  callbacks := le_rfl
  pending _ _ _ := rfl
  deactivated := fun ⟨_, _, h⟩ => absurd h (List.not_mem_nil _)

section Step

variable {s : State} {a : ActiveState} {es : List Ev}

theorem HistInv.invoke (hh : HistInv s a es) {t : Nat} {f : Fn}
    (hi : (s.threads t).pc = .idle) :
    HistInv (s.invoke t f) a ([.call t (s.threads t).calls f] ++ es) := by
  refine ⟨fun t' => ?_, by simpa [Ev.isMark] using hh.marks,
    by simpa [Ev.isDrainTrue] using hh.drainTrue,
    by simpa [Ev.isCallback, Ev.isMark] using hh.callbacks, fun t' cb hp => ?_,
    fun ⟨t₁, n, hm⟩ => hh.deactivated ⟨t₁, n, by simpa using hm⟩⟩
  · by_cases ht : t' = t
    · subst ht
      have hl := hh.log t'
      rw [show s.threads t' = ⟨.idle, (s.threads t').calls⟩ by rw [← hi]] at hl
      simpa [State.invoke] using hl.invoke f
    · have hl : ThreadLog ([.call t (s.threads t).calls f] ++ es) t' (s.threads t') :=
        (hh.log t').of_tid (by simp [Ev.tid, Ne.symm ht])
      simpa [State.invoke, Function.update_noteq ht] using hl
  · by_cases ht : t' = t
    · subst ht; cases f <;> simp [State.invoke, Fn.entry] at hp
    · have hp' : (s.threads t').pc = .drainRelease cb := by
        simpa [State.invoke, Function.update_noteq ht] using hp
      simpa [Ev.isCallback] using hh.pending t' cb hp'

theorem HistInv.after (hh : HistInv s a es) (hi : CountInv s a) {t : Nat} {p' : Pc} {c : CInt}
    {o : Out} {a' : ActiveState} (hts : ThreadStep a (s.threads t).pc a' p' o) :
    HistInv (s.after t p' c o) a' (o.events t (s.threads t).calls ++ es) := by
  refine ⟨fun t' => ?_, ?_, ?_, ?_, fun t' cb hp => ?_, fun ⟨t₁, m, hm⟩ => ?_⟩
  · by_cases ht : t' = t
    · subst ht
      simpa [State.after] using (hh.log t').next hts
    · have hl : ThreadLog (o.events t (s.threads t).calls ++ es) t' (s.threads t') :=
        (hh.log t').of_tid fun e he => by cases o <;> simp_all [Out.events, Ev.tid, Ne.symm ht]
      simpa [State.after, Function.update_noteq ht] using hl
  · rw [List.countP_append, hh.marks, hts.released_toNat t (s.threads t).calls, Nat.add_comm]
  · rw [List.countP_append, hh.drainTrue, hts.drained_toNat t (s.threads t).calls,
      Nat.add_comm]
  · rw [List.countP_append, List.countP_append, ThreadStep.countP_callback]
    have := hh.callbacks
    split_ifs with ho
    · obtain ⟨hp, rfl⟩ := hts.of_callback ho
      have h0 := hh.pending t true hp
      have h1 : es.countP Ev.isMark = 1 := hh.marks
      omega
    · omega
  · by_cases ht : t' = t
    · subst ht
      obtain ⟨rfl, hr⟩ := hts.of_drainRelease (by simpa [State.after] using hp)
      have h0 : es.countP Ev.isMark = 0 := by rw [hh.marks, hr]; rfl
      have := hh.callbacks
      rw [List.countP_append, ThreadStep.countP_callback]
      simp only [reduceCtorEq, ↓reduceIte]
      omega
    · have hp' : (s.threads t').pc = .drainRelease cb := by
        simpa [State.after, Function.update_noteq ht] using hp
      rw [List.countP_append, ThreadStep.countP_callback, hh.pending t' cb hp']
      split_ifs with ho
      · obtain ⟨hp, -⟩ := hts.of_callback ho
        exact absurd (hi.winner _ _ (by simp [hp', Pc.Winner]) (by simp [hp, Pc.Winner])) ht
      · rfl
  · rcases List.mem_append.1 hm with hm | hm
    · exact hts.deactivated_of_ret (by cases o <;> simp_all [Out.events])
    · rcases hts.step_or_eq with rfl | hs
      · exact hh.deactivated ⟨t₁, m, hm⟩
      · exact deactivated_of_step hs (hh.deactivated ⟨t₁, m, hm⟩)

end Step

/-- Every reachable state satisfies both invariants, at the state its counter decodes to. -/
theorem reachable_inv {s : State} {es : List Ev} (h : Reachable Bounded s es) :
    ∃ a, CountInv s a ∧ HistInv s a es := by
  induction h with
  | init => exact ⟨_, countInv_init, histInv_init⟩
  | @step s s' es evs act _ ha hs hb ih =>
    obtain ⟨a, hi, hh⟩ := ih
    cases act with
    | call t f =>
      obtain ⟨hidle, rfl, rfl⟩ := step_call_inv hs
      exact ⟨a, hi.invoke ha, hh.invoke hidle⟩
    | next t =>
      obtain ⟨p', c, o, hst, rfl, rfl⟩ := step_next_inv hs
      obtain ⟨a', he, hts⟩ := hi.sim hst hb
      exact ⟨a', hi.after he hts, hh.after hi hts⟩

end Bus1.Active
