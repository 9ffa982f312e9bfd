/-
  Bus1.Queue.Lamport

  The queue clocks are Lamport clocks.  Number the calls of a run from the
  first.  Call `i` happened before call `j` if it came earlier on the same
  queue, or if `j` is a sync to the value `i` returned (a timestamp carried
  to another queue, as the transaction protocol of `util/queue.h` does), or
  through a chain of such steps.  While fewer than `2^63` ticks have been
  performed, the values returned never decrease along happened-before, and
  a tick returns more than every call that happened before it
  (`clock_condition`): the global order of the message queue rests on this.
-/
import Bus1.Queue.Clock

namespace Bus1.Queue

/-- Call `e'` directly follows call `e`: on the same queue, or as a sync to
    the value `e` returned. -/
def Follows (e e' : Op × BitVec 64) : Prop :=
  e.1.queue = e'.1.queue ∨ e'.1 = .sync e'.1.queue e.2

instance (e e' : Op × BitVec 64) : Decidable (Follows e e') :=
  inferInstanceAs (Decidable (_ ∨ _))

/-- Lamport's happened-before on the calls of a trace, numbered from the
    first call of the run. -/
inductive HappensBefore (tr : Trace) : Nat → Nat → Prop where
  | step {i j : Nat} {e e' : Op × BitVec 64} : i < j → tr.reverse[i]? = some e →
      tr.reverse[j]? = some e' → Follows e e' → HappensBefore tr i j
  | trans {i j k : Nat} : HappensBefore tr i j → HappensBefore tr j k → HappensBefore tr i k

/-- The later call of a happened-before pair is a call of the trace. -/
theorem HappensBefore.exists_right {tr : Trace} {i j : Nat} (h : HappensBefore tr i j) :
    ∃ e, tr.reverse[j]? = some e := by
  induction h with
  | step _ _ hj _ => exact ⟨_, hj⟩
  | trans _ _ _ ih => exact ih

/-- The value of `e'` is at least that of `e`, and larger if `e'` is a tick. -/
structure Stamped (e e' : Op × BitVec 64) : Prop where
  le : e.2.toNat ≤ e'.2.toNat
  lt_of_tick : e'.1.isTick → e.2.toNat < e'.2.toNat

theorem Stamped.trans {e e' e'' : Op × BitVec 64} (h : Stamped e e') (h' : Stamped e' e'') :
    Stamped e e'' :=
  ⟨Nat.le_trans h.le h'.le, fun ht => Nat.lt_of_le_of_lt h.le (h'.lt_of_tick ht)⟩

/-- A relation that holds pairwise along a trace, latest first, holds between
    any two calls by number. -/
theorem rel_of_pairwise {R : Op × BitVec 64 → Op × BitVec 64 → Prop} {tr : Trace}
    (h : tr.Pairwise fun e' e => R e e') {i j : Nat} {e e' : Op × BitVec 64} (hij : i < j)
    (hi : tr.reverse[i]? = some e) (hj : tr.reverse[j]? = some e') : R e e' := by
  obtain ⟨hil, rfl⟩ := List.getElem?_eq_some_iff.1 hi
  obtain ⟨hjl, rfl⟩ := List.getElem?_eq_some_iff.1 hj
  exact List.pairwise_iff_getElem.1 (List.pairwise_reverse.2 h) i j hil hjl hij

/-! ## Along every run below `2^63` ticks -/

/-- No value returned exceeds the current clock of its queue, and every call
    is stamped after each earlier call it directly follows. -/
structure LamportInv (qs : Nat → Queue) (tr : Trace) : Prop where
  past : ∀ e ∈ tr, e.2.toNat ≤ (qs e.1.queue).clock.toNat
  follows : tr.Pairwise fun e' e => Follows e e' → Stamped e e'

theorem lamportInv_init : LamportInv (fun _ => ⟨0⟩) [] :=
  ⟨fun _ h => absurd h (List.not_mem_nil _), .nil⟩

section Inv

variable {qs : Nat → Queue} {tr : Trace} {op : Op}

/-- The call just made is stamped after every earlier call it follows. -/
theorem LamportInv.stamped (hl : LamportInv qs tr) (hi : ClockInv qs tr)
    (hb : ticks ((op, (Queue.step qs op).2) :: tr) < 2 ^ 63) {e : Op × BitVec 64} (he : e ∈ tr)
    (hf : Follows e (op, (Queue.step qs op).2)) : Stamped e (op, (Queue.step qs op).2) := by
  obtain ⟨htick, -⟩ := hi.no_wrap hb
  have hp := hl.past e he
  cases op with
  | tick q =>
    have hq : e.1.queue = q := by simpa [Follows, Op.queue] using hf
    have := htick q rfl
    rw [hq] at hp
    refine ⟨?_, fun _ => ?_⟩ <;> dsimp only <;> omega
  | sync q t =>
    refine ⟨?_, fun ht => absurd ht (by simp [Op.isTick])⟩
    dsimp only
    rw [step_sync_toNat]
    rcases hf with hq | hs
    · have hq : e.1.queue = q := hq
      rw [hq] at hp
      exact Nat.le_trans hp (Nat.le_max_left _ _)
    · rw [(Op.sync.inj hs).2]
      exact Nat.le_max_right _ _

/-- A call below `2^63` ticks keeps the invariant. -/
theorem LamportInv.step (hl : LamportInv qs tr) (hi : ClockInv qs tr)
    (hb : ticks ((op, (Queue.step qs op).2) :: tr) < 2 ^ 63) :
    LamportInv (Queue.step qs op).1 ((op, (Queue.step qs op).2) :: tr) := by
  obtain ⟨-, hmono⟩ := hi.no_wrap hb
  refine ⟨fun e he => ?_,
    List.pairwise_cons.2 ⟨fun e he hf => hl.stamped hi hb he hf, hl.follows⟩⟩
  rcases List.mem_cons.1 he with rfl | he
  · rw [step_snd]
  · exact Nat.le_trans (hl.past e he) (hmono _)

/-- Along every run below `2^63` ticks the invariant holds. -/
theorem reachable_lamportInv (h : Reachable qs tr) (hb : ticks tr < 2 ^ 63) :
    LamportInv qs tr := by
  induction h with
  | init => exact lamportInv_init
  | @step qs tr op h _ ih =>
    have : ticks tr ≤ ticks ((op, (Queue.step qs op).2) :: tr) := by simp
    exact (ih (by omega)).step (reachable_clockInv h) hb

end Inv

/-- The clock condition of Lamport timestamps for `bus1_queue_tick()` and
    `bus1_queue_sync()`: along every run with fewer than `2^63` ticks, a call
    that happened before another returned no more than it, and less if the
    later call is a tick. -/
theorem clock_condition {qs : Nat → Queue} {tr : Trace} (h : Reachable qs tr)
    (hb : ticks tr < 2 ^ 63) {i j : Nat} (hij : HappensBefore tr i j) {e e' : Op × BitVec 64}
    (hi : tr.reverse[i]? = some e) (hj : tr.reverse[j]? = some e') :
    e.2.toNat ≤ e'.2.toNat ∧ (e'.1.isTick → e.2.toNat < e'.2.toNat) := by
  have hl := reachable_lamportInv h hb
  suffices hs : Stamped e e' from ⟨hs.le, hs.lt_of_tick⟩
  induction hij generalizing e e' with
  | step hlt hi' hj' hf =>
    obtain rfl := Option.some.inj (hi'.symm.trans hi)
    obtain rfl := Option.some.inj (hj'.symm.trans hj)
    exact rel_of_pairwise hl.follows hlt hi hj hf
  | trans h₁ _ ih₁ ih₂ =>
    obtain ⟨e₁, he₁⟩ := h₁.exists_right
    exact (ih₁ hi he₁).trans (ih₂ he₁ hj)

/-- Queue 0 ticks to 2, queue 1 syncs to that value and ticks: the first tick
    happened before the last, which returned more. -/
theorem clock_condition_relay :
    ∃ qs tr, Reachable qs tr ∧ HappensBefore tr 0 2 ∧
      ∃ e e', tr.reverse[0]? = some e ∧ tr.reverse[2]? = some e' ∧
        e.2.toNat < e'.2.toNat := by
  have h : Reachable _ [(.tick 1, 4), (.sync 1 2, 2), (.tick 0, 2)] :=
    ((Reachable.init.step (show (Op.tick 0).Allowed [] from trivial)).step
      (show (Op.sync 1 2).Allowed _ from .inr ⟨.tick 0, by decide⟩)).step
      (show (Op.tick 1).Allowed _ from trivial)
  have hij : HappensBefore [(.tick 1, 4), (.sync 1 2, 2), (.tick 0, 2)] 0 2 :=
    .trans (.step (j := 1) (by decide) rfl rfl (by decide)) (.step (by decide) rfl rfl (by decide))
  exact ⟨_, _, h, hij, _, _, rfl, rfl, (clock_condition h (by decide) hij rfl rfl).2 rfl⟩

end Bus1.Queue
