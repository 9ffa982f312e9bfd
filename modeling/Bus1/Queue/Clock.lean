/-
  Bus1.Queue.Clock

  The Lamport clocks of `util/queue.h`: `bus1_queue_tick()` and
  `bus1_queue_sync()` on any number of queues, in u64 arithmetic.

  A run interleaves ticks and syncs on queues that all start at clock 0; a
  sync is passed a value some clock held earlier in the run, as the staging
  and commit timestamps of the transaction protocol are.  `ClockInv` holds
  along every run: clocks and every value held are even and at most twice the
  number of ticks so far.  Below `2^63` ticks no tick wraps, so the clocks
  never go back and each queue's ticks return increasing values (`TickInv`);
  at `2^63` ticks the clock of a queue that did them all wraps to 0.
-/
import Bus1.Queue.Node

namespace Bus1

/-- The clock of `struct bus1_queue`; the clock helpers touch nothing else. -/
structure Queue where
  clock : BitVec 64
  deriving DecidableEq, Repr

namespace Queue

/-- `bus1_queue_tick()`: the queue after, and the value returned. -/
def queueTick (queue : Queue) : Queue × BitVec 64 :=
  let clock := queue.clock + 2
  (⟨clock⟩, clock)

/-- `bus1_queue_sync()`, with the kernel's `max()`. -/
def queueSync (queue : Queue) (timestamp : BitVec 64) : Queue × BitVec 64 :=
  let clock := if queue.clock > timestamp then queue.clock else timestamp
  (⟨clock⟩, clock)

/-- The `WARN_ON` of `bus1_queue_sync()`: an odd timestamp. -/
def queueSyncWarns (timestamp : BitVec 64) : Bool := timestamp &&& 1 ≠ 0

/-- A call on queue `q`. -/
inductive Op where
  | tick (q : Nat)
  | sync (q : Nat) (timestamp : BitVec 64)
  deriving DecidableEq, Repr

namespace Op

def queue : Op → Nat
  | tick q | sync q _ => q

def isTick : Op → Bool
  | tick _ => true
  | sync _ _ => false

end Op

/-- One call on the queues, and the value it returns. -/
def step (qs : Nat → Queue) : Op → (Nat → Queue) × BitVec 64
  | .tick q => let (queue, v) := queueTick (qs q); (Function.update qs q queue, v)
  | .sync q t => let (queue, v) := queueSync (qs q) t; (Function.update qs q queue, v)

/-- A trace (latest first) of calls and the values they returned. -/
abbrev Trace := List (Op × BitVec 64)

/-- The ticks performed in a trace. -/
def ticks (tr : Trace) : Nat := tr.countP fun e => e.1.isTick

/-- The contract of the transaction protocol: sync only to a value some clock
    held earlier, that is 0 or a value returned by an earlier call. -/
def Op.Allowed (tr : Trace) : Op → Prop
  | .tick _ => True
  | .sync _ t => t = 0 ∨ ∃ op, (op, t) ∈ tr

/-- The clocks and traces of runs from all clocks 0. -/
inductive Reachable : (Nat → Queue) → Trace → Prop where
  | init : Reachable (fun _ => ⟨0⟩) []
  | step {qs : Nat → Queue} {tr : Trace} {op : Op} :
      Reachable qs tr → op.Allowed tr → Reachable (step qs op).1 ((op, (step qs op).2) :: tr)

/-! ## One call -/

section Step

variable {qs : Nat → Queue} {q : Nat} {t v : BitVec 64} {op : Op} {tr : Trace}

@[simp] theorem ticks_nil : ticks [] = 0 := rfl

@[simp] theorem ticks_cons : ticks ((op, v) :: tr) = ticks tr + if op.isTick then 1 else 0 := by
  cases op <;> simp [ticks, List.countP_cons, Op.isTick]

/-- The value a call returns is the clock it leaves on its queue. -/
theorem step_snd : (step qs op).2 = ((step qs op).1 op.queue).clock := by
  cases op <;> simp [step, queueTick, queueSync, Op.queue]

/-- A call moves only its own queue's clock. -/
theorem step_of_ne {q : Nat} (h : q ≠ op.queue) : (step qs op).1 q = qs q := by
  cases op <;> simp_all [step, Op.queue, Function.update_noteq]

theorem step_clock_toNat (q : Nat) : ((step qs op).1 q).clock.toNat =
    if q = op.queue then (step qs op).2.toNat else (qs q).clock.toNat := by
  split_ifs with hq
  · rw [hq, step_snd]
  · rw [step_of_ne hq]

theorem step_tick_toNat : (step qs (.tick q)).2.toNat = ((qs q).clock.toNat + 2) % 2 ^ 64 := by
  simp [step, queueTick]

theorem step_sync_toNat : (step qs (.sync q t)).2.toNat = max (qs q).clock.toNat t.toNat := by
  simp only [step, queueSync, GT.gt, BitVec.lt_def]
  split_ifs <;> omega

end Step

/-! ## Along every run -/

/-- Clocks and the values they held are even and at most twice the ticks. -/
structure ClockInv (qs : Nat → Queue) (tr : Trace) : Prop where
  clock : ∀ q, (qs q).clock.toNat % 2 = 0 ∧ (qs q).clock.toNat ≤ 2 * ticks tr
  held : ∀ e ∈ tr, e.2.toNat % 2 = 0 ∧ e.2.toNat ≤ 2 * ticks tr

theorem clockInv_init : ClockInv (fun _ => ⟨0⟩) [] :=
  ⟨fun _ => ⟨rfl, Nat.zero_le _⟩, fun _ h => absurd h (List.not_mem_nil _)⟩

section Inv

variable {qs : Nat → Queue} {tr : Trace} {op : Op}

/-- A value allowed for a sync is even and at most twice the ticks. -/
theorem ClockInv.allowed (hi : ClockInv qs tr) {q : Nat} {t : BitVec 64}
    (ha : (Op.sync q t).Allowed tr) : t.toNat % 2 = 0 ∧ t.toNat ≤ 2 * ticks tr := by
  rcases ha with rfl | ⟨op, hm⟩
  · exact ⟨rfl, Nat.zero_le _⟩
  · exact hi.held _ hm

/-- The value a call returns is even and at most twice the ticks after it. -/
theorem ClockInv.value (hi : ClockInv qs tr) (ha : op.Allowed tr) :
    (step qs op).2.toNat % 2 = 0 ∧ (step qs op).2.toNat ≤ 2 * ticks ((op, (step qs op).2) :: tr) := by
  cases op with
  | tick q =>
    have := hi.clock q
    simp only [step_tick_toNat, ticks_cons, Op.isTick, if_true]
    omega
  | sync q t =>
    have := hi.clock q
    have := hi.allowed ha
    simp only [step_sync_toNat, ticks_cons, Op.isTick]
    omega

theorem ClockInv.step (hi : ClockInv qs tr) (ha : op.Allowed tr) :
    ClockInv (Queue.step qs op).1 ((op, (Queue.step qs op).2) :: tr) := by
  have hv := hi.value ha
  have hle : ticks tr ≤ ticks ((op, (Queue.step qs op).2) :: tr) := by simp
  refine ⟨fun q => ?_, fun e he => ?_⟩
  · by_cases hq : q = op.queue
    · subst hq; rw [← step_snd]; exact hv
    · rw [step_of_ne hq]; have := hi.clock q; omega
  · rcases List.mem_cons.1 he with rfl | he
    · exact hv
    · have := hi.held e he; omega

theorem reachable_clockInv {qs : Nat → Queue} {tr : Trace} (h : Reachable qs tr) :
    ClockInv qs tr := by
  induction h with
  | init => exact clockInv_init
  | step _ ha ih => exact ih.step ha

/-! ## Below `2^63` ticks -/

/-- Of two calls, latest first: if both are ticks of one queue, the later one
    returned more. -/
def TickAfter (e e' : Op × BitVec 64) : Prop :=
  ∀ q, e.1 = .tick q → e'.1 = .tick q → e'.2.toNat < e.2.toNat

/-- What a tick returning `v` hands out: `v`, and its odd neighbour `v + 1`
    (as the comment of `bus1_queue_tick()` says) or `v - 1` (as spec.md says). -/
def tickStamps (v : BitVec 64) (up : Bool) : List (BitVec 64) :=
  [v, if up then v + 1 else v - 1]

/-- Of two calls, latest first: if both are ticks of one queue, they hand out
    different stamps. -/
def StampsApart (e e' : Op × BitVec 64) : Prop :=
  ∀ q, e.1 = .tick q → e'.1 = .tick q →
    ∀ up, ∀ x ∈ tickStamps e.2 up, ∀ y ∈ tickStamps e'.2 up, x ≠ y

/-- Each queue's clock is at least every value its ticks returned, which are
    positive and increase. -/
structure TickInv (qs : Nat → Queue) (tr : Trace) : Prop where
  past : ∀ q v, (Op.tick q, v) ∈ tr → v.toNat ≤ (qs q).clock.toNat
  pos : ∀ q v, (Op.tick q, v) ∈ tr → 2 ≤ v.toNat
  increase : tr.Pairwise TickAfter

theorem tickInv_init : TickInv (fun _ => ⟨0⟩) [] :=
  ⟨fun _ _ h => absurd h (List.not_mem_nil _), fun _ _ h => absurd h (List.not_mem_nil _), .nil⟩

/-- Below `2^63` ticks a tick adds exactly 2, and no call moves a clock back. -/
theorem ClockInv.no_wrap (hi : ClockInv qs tr)
    (hb : ticks ((op, (Queue.step qs op).2) :: tr) < 2 ^ 63) :
    (∀ q, op = .tick q → (Queue.step qs op).2.toNat = (qs q).clock.toNat + 2) ∧
    ∀ q, (qs q).clock.toNat ≤ ((Queue.step qs op).1 q).clock.toNat := by
  have htick : ∀ q, op = .tick q → (Queue.step qs op).2.toNat = (qs q).clock.toNat + 2 := by
    rintro q rfl
    have := hi.clock q
    simp only [ticks_cons, Op.isTick, if_true] at hb
    rw [step_tick_toNat]; omega
  refine ⟨htick, fun q => ?_⟩
  rw [step_clock_toNat]
  split_ifs with hq
  · subst hq
    cases op with
    | tick p => rw [htick p rfl]; exact Nat.le_add_right _ _
    | sync p t => rw [step_sync_toNat]; exact Nat.le_max_left _ _
  · exact Nat.le_refl _

theorem TickInv.step (ht : TickInv qs tr) (hi : ClockInv qs tr)
    (hb : ticks ((op, (Queue.step qs op).2) :: tr) < 2 ^ 63) :
    TickInv (Queue.step qs op).1 ((op, (Queue.step qs op).2) :: tr) := by
  obtain ⟨htick, hmono⟩ := hi.no_wrap hb
  refine ⟨fun q v hm => ?_, fun q v hm => ?_, List.pairwise_cons.2 ⟨?_, ht.increase⟩⟩
  · rcases List.mem_cons.1 hm with he | hm
    · obtain ⟨rfl, rfl⟩ := Prod.mk.inj he.symm
      rw [step_snd]; exact Nat.le_refl _
    · exact Nat.le_trans (ht.past q v hm) (hmono q)
  · rcases List.mem_cons.1 hm with he | hm
    · obtain ⟨rfl, rfl⟩ := Prod.mk.inj he.symm
      rw [htick q rfl]; omega
    · exact ht.pos q v hm
  · rintro ⟨op', v'⟩ hm q h₁ h₂
    subst h₁ h₂
    have := ht.past q v' hm
    dsimp only
    rw [htick q rfl]; omega

theorem reachable_tickInv {qs : Nat → Queue} {tr : Trace} (h : Reachable qs tr)
    (hb : ticks tr < 2 ^ 63) : TickInv qs tr := by
  induction h with
  | init => exact tickInv_init
  | @step qs tr op h _ ih =>
    have : ticks tr ≤ ticks ((op, (Queue.step qs op).2) :: tr) := by simp
    exact (ih (by omega)).step (reachable_clockInv h) hb

end Inv

/-- Two even tick values `v' < v` hand out different stamps. -/
theorem tickStamps_apart {v v' : BitVec 64} (hlt : v'.toNat < v.toNat) (hv : v.toNat % 2 = 0)
    (hv' : v'.toNat % 2 = 0) (up : Bool) :
    ∀ x ∈ tickStamps v up, ∀ y ∈ tickStamps v' up, x ≠ y := by
  cases up <;> simp [tickStamps, BitVec.toNat_eq] <;> omega

/-- The clock discipline of `bus1_queue_tick()` and `bus1_queue_sync()`, on
    any number of queues, for every run in which each sync is passed a value
    some clock held earlier:
    * every clock is even and at most twice the ticks performed so far;
    * while at most `2^63 - 1` ticks have been performed, no call moves a
      clock back and a tick adds exactly 2, so the ticks of each queue return
      increasing values and hand out pairwise different stamps, whichever
      odd neighbour the caller takes;
    * within the first `2^61 - 1` ticks every clock and every stamp is below
      `2^62`. -/
theorem queue_clock_bounded {qs : Nat → Queue} {tr : Trace} (h : Reachable qs tr) :
    (∀ q, (qs q).clock.toNat % 2 = 0 ∧ (qs q).clock.toNat ≤ 2 * ticks tr) ∧
    (∀ op, ticks ((op, (step qs op).2) :: tr) < 2 ^ 63 →
      (∀ q, (qs q).clock.toNat ≤ ((step qs op).1 q).clock.toNat) ∧
      ∀ q, op = .tick q → (step qs op).2.toNat = (qs q).clock.toNat + 2) ∧
    (ticks tr < 2 ^ 63 → tr.Pairwise TickAfter ∧ tr.Pairwise StampsApart) ∧
    (ticks tr ≤ 2 ^ 61 - 1 → (∀ q, (qs q).clock.toNat < 2 ^ 62) ∧
      ∀ q v, (Op.tick q, v) ∈ tr → ∀ up, ∀ x ∈ tickStamps v up, x.toNat < 2 ^ 62) := by
  have hi := reachable_clockInv h
  refine ⟨hi.clock, fun op hb => (hi.no_wrap hb).symm, fun hb => ?_, fun hb => ?_⟩
  · have ht := reachable_tickInv h hb
    refine ⟨ht.increase, ht.increase.imp_of_mem fun he he' hlt q h₁ h₂ => ?_⟩
    exact tickStamps_apart (hlt q h₁ h₂) (hi.held _ he).1 (hi.held _ he').1
  · have ht := reachable_tickInv h (by omega)
    refine ⟨fun q => ?_, fun q v hm up x hx => ?_⟩
    · have := (hi.clock q).2; omega
    · have : v.toNat ≤ 2 * ticks tr := (hi.held _ hm).2
      have := ht.pos q v hm
      cases up <;> simp only [tickStamps, List.mem_cons, List.mem_singleton, List.not_mem_nil,
        or_false, Bool.false_eq_true, if_true, if_false] at hx <;>
        rcases hx with rfl | rfl <;> simp <;> omega

/-- Every sync of a run is passed an even timestamp: the `WARN_ON` of
    `bus1_queue_sync()` never fires. -/
theorem queue_sync_never_warns {qs : Nat → Queue} {tr : Trace} (h : Reachable qs tr) {q : Nat}
    {t : BitVec 64} (ha : (Op.sync q t).Allowed tr) : queueSyncWarns t = false := by
  have := ((reachable_clockInv h).allowed ha).1
  simp only [queueSyncWarns, ne_eq, decide_eq_false_iff_not, Decidable.not_not,
    BitVec.toNat_eq, BitVec.toNat_and, show (1 : BitVec 64).toNat = 1 from rfl,
    show (0 : BitVec 64).toNat = 0 from rfl, Nat.and_one_is_mod]
  omega

/-- After queue 0 ticks to 2, queue 1 may sync to 2, without a warning. -/
theorem queue_sync_never_warns_tick : queueSyncWarns 2 = false :=
  queue_sync_never_warns (Reachable.init.step (show (Op.tick 0).Allowed [] from trivial))
    (show (Op.sync 1 2).Allowed _ from .inr ⟨.tick 0, by decide⟩)

/-- Queues 0 and 1 tick, queue 1 ticks again, queue 0 syncs to queue 1's
    clock and ticks: the stamps of each queue stay apart. -/
theorem queue_clock_bounded_run :
    ∃ qs tr, Reachable qs tr ∧ tr.map Prod.snd = [6, 4, 4, 2, 2] ∧ tr.Pairwise StampsApart := by
  have h := ((((Reachable.init.step (show (Op.tick 0).Allowed [] from trivial)).step
    (show (Op.tick 1).Allowed _ from trivial)).step (show (Op.tick 1).Allowed _ from trivial)).step
    (show (Op.sync 0 4).Allowed _ from .inr ⟨.tick 1, by decide⟩)).step
    (show (Op.tick 0).Allowed _ from trivial)
  exact ⟨_, _, h, by decide, ((queue_clock_bounded h).2.2.1 (by decide)).2⟩

/-! ## At `2^63` ticks -/

/-- `m` ticks of queue 0 from the start leave its clock at `2 * m`. -/
theorem reachable_ticks (m : Nat) :
    ∃ tr, Reachable (Function.update (fun _ => ⟨0⟩) 0 ⟨BitVec.ofNat 64 (2 * m)⟩) tr ∧
      ticks tr = m ∧ (0 < m → tr.head? = some (.tick 0, BitVec.ofNat 64 (2 * m))) := by
  induction m with
  | zero =>
    refine ⟨[], ?_, rfl, fun h => absurd h (Nat.lt_irrefl 0)⟩
    rw [show (⟨BitVec.ofNat 64 (2 * 0)⟩ : Queue) = (fun _ => (⟨0⟩ : Queue)) 0 from rfl,
      Function.update_eq_self]
    exact .init
  | succ m ih =>
    obtain ⟨tr, h, hn, -⟩ := ih
    have hs : step (Function.update (fun _ => ⟨0⟩) 0 ⟨BitVec.ofNat 64 (2 * m)⟩) (.tick 0) =
        (Function.update (fun _ => ⟨0⟩) 0 ⟨BitVec.ofNat 64 (2 * (m + 1))⟩,
          BitVec.ofNat 64 (2 * (m + 1))) := by
      simp [step, queueTick, BitVec.ofNat_add_ofNat, Nat.mul_succ]
    have h' := h.step (show (Op.tick 0).Allowed tr from trivial)
    rw [hs] at h'
    exact ⟨_, h', by simp [hn, Op.isTick], fun _ => rfl⟩

/-- After `2^63 - 1` ticks of queue 0 its clock is `2^64 - 2`, and the next
    tick wraps it to 0: the clock goes back, and the tick returns less than
    the one before it. -/
theorem queue_clock_wraps :
    ∃ qs tr, Reachable qs tr ∧ ticks tr = 2 ^ 63 - 1 ∧
      tr.head? = some (.tick 0, BitVec.ofNat 64 (2 ^ 64 - 2)) ∧
      (qs 0).clock.toNat = 2 ^ 64 - 2 ∧
      Reachable (step qs (.tick 0)).1 ((.tick 0, 0) :: tr) ∧
      ((step qs (.tick 0)).1 0).clock.toNat = 0 := by
  obtain ⟨tr, h, hn, hd⟩ := reachable_ticks (2 ^ 63 - 1)
  have hv : (step (Function.update (fun _ => ⟨0⟩) 0 ⟨BitVec.ofNat 64 (2 * (2 ^ 63 - 1))⟩)
      (.tick 0)).2 = 0 := by decide
  exact ⟨_, tr, h, hn, hd (by decide), by decide,
    hv ▸ h.step (show (Op.tick 0).Allowed tr from trivial), by decide⟩

end Queue

end Bus1
