/-
  Bus1.Active.Machine

  `active.c` run by any number of threads on one `struct bus1_active`.

  A thread is either idle or inside one call, standing just before one of the
  call's atomic accesses to `active->count` (`Pc`).  `Pc.step` performs that
  access and the thread-local code after it, up to the next access; it is the
  source's control flow, with the `bus1_active_add_unless_negative` retry loop
  and the two `bus1_active_drain` cmpxchgs as separate steps.  A
  `wait_event(waitq, cond)` is a step enabled only while `cond` holds: the
  wake-ups only decide when a waiter re-checks, which does not matter for
  safety.  Invoking a call is a step of its own that touches no shared state.

  Two things are recorded beside the counter, as ghost state:
  * `holders`: one entry per active reference held, naming its holder;
  * the history of events (latest first): each call's invocation and return,
    the cmpxchg that put the counter into `BUS1_ACTIVE_RELEASE`, and the call
    of the release callback.  Events carry `(t, n)`: thread `t`'s `n`-th call.

  `Reachable P` are the runs from `bus1_active_init` whose states all satisfy
  `P` and whose callers keep `bus1_active_release`'s contract: only a thread
  holding a reference releases one.
-/
import Bus1.Active.Counter

namespace Bus1.Active

open CInt

/-- The calls of `active.c` that touch the counter; `drain` records whether
    its `release` callback is non-NULL. -/
inductive Fn where
  | activate
  | acquire
  | release
  | deactivate
  | drain (callback : Bool)
  deriving DecidableEq, Repr

/-- A thread's position: before the named access of the call it is in.  The
    drain positions carry `release != NULL`, in scope for the whole call. -/
inductive Pc where
  | idle
  /-- `bus1_active_activate`: `atomic_cmpxchg(&active->count, NEW, 0)`. -/
  | activateCmpxchg
  /-- `bus1_active_acquire`: `atomic_inc_unless_negative(&active->count)`. -/
  | acquireInc
  /-- `bus1_active_release`: `atomic_dec_return(&active->count)`. -/
  | releaseDec
  /-- `bus1_active_deactivate`: `atomic_cmpxchg(&active->count, NEW, RELEASE_DIRECT)`. -/
  | deactivateCmpxchg
  /-- `bus1_active_add_unless_negative(active, add)`: `v = atomic_read(&active->count)`. -/
  | addRead (add : CInt)
  /-- `bus1_active_add_unless_negative`: `v1 = atomic_cmpxchg(&active->count, v, v + add)`. -/
  | addCmpxchg (add v : CInt)
  /-- `bus1_active_drain`: `bus1_active_is_deactivated(active)`. -/
  | drainCheck (callback : Bool)
  /-- `wait_event(*waitq, atomic_read(&active->count) <= BUS1_ACTIVE_BIAS)`. -/
  | drainWait (callback : Bool)
  /-- `atomic_cmpxchg(&active->count, RELEASE_DIRECT, RELEASE)`. -/
  | drainCmpxchgDirect (callback : Bool)
  /-- `atomic_cmpxchg(&active->count, BIAS, RELEASE)`. -/
  | drainCmpxchgBias (callback : Bool)
  /-- `if (release) release(active);` -/
  | drainRelease (callback : Bool)
  /-- Inside the release callback. -/
  | drainCallback
  /-- `atomic_set(&active->count, BUS1_ACTIVE_DRAINED)`. -/
  | drainSetDrained (callback : Bool)
  /-- `wait_event(*waitq, atomic_read(&active->count) == BUS1_ACTIVE_DRAINED)`. -/
  | drainWaitDrained (callback : Bool)
  deriving DecidableEq, Repr

/-- Where each call starts. -/
def Fn.entry : Fn → Pc
  | .activate => .activateCmpxchg
  | .acquire => .acquireInc
  | .release => .releaseDec
  | .deactivate => .deactivateCmpxchg
  | .drain cb => .drainCheck cb

/-- What a call returns (`bus1_active_acquire` returns `@active` or NULL). -/
inductive Ret where
  | activate (res : Bool)
  | acquire (res : Bool)
  | release
  | deactivate
  | drain (res : Bool)
  deriving DecidableEq, Repr

/-- What a thread step does besides moving the counter. -/
inductive Out where
  | none
  | ret (r : Ret)
  /-- The cmpxchg put the counter into `BUS1_ACTIVE_RELEASE`. -/
  | mark
  /-- The release callback was invoked. -/
  | callback
  deriving DecidableEq, Repr

namespace Pc

/-- One step of a thread at `pc` on the counter value `c`: its new position,
    the counter after, and what it did.  `none` while it waits. -/
def step : Pc → CInt → Option (Pc × CInt × Out)
  | idle, _ => none
  | activateCmpxchg, c =>
    let (v, c) := atomicCmpxchg c NEW 0
    some (idle, c, .ret (.activate (v = NEW)))
  | acquireInc, c =>
    let (res, c) := atomicIncUnlessNegative c
    some (idle, c, .ret (.acquire res))
  | releaseDec, c => some (idle, atomicDecReturn c, .ret .release)
  | deactivateCmpxchg, c =>
    let (v, c) := atomicCmpxchg c NEW RELEASE_DIRECT
    if v ≠ NEW then some (addRead BIAS, c, .none) else some (idle, c, .ret .deactivate)
  | addRead add, c =>
    if 0 ≤ c.val then some (addCmpxchg add c, c, .none) else some (idle, c, .ret .deactivate)
  | addCmpxchg add v, c =>
    let (v1, c) := atomicCmpxchg c v (v + add)
    if v1 = v then some (idle, c, .ret .deactivate)
    else if 0 ≤ v1.val then some (addCmpxchg add v1, c, .none)
    else some (idle, c, .ret .deactivate)
  | drainCheck cb, c =>
    if isDeactivated c then some (drainWait cb, c, .none)
    else some (idle, c, .ret (.drain false))
  | drainWait cb, c =>
    if c.val ≤ BIAS.val then some (drainCmpxchgDirect cb, c, .none) else none
  | drainCmpxchgDirect cb, c =>
    let (v, c) := atomicCmpxchg c RELEASE_DIRECT RELEASE
    if v ≠ RELEASE_DIRECT then some (drainCmpxchgBias cb, c, .none)
    else some (drainRelease cb, c, .mark)
  | drainCmpxchgBias cb, c =>
    let (v, c) := atomicCmpxchg c BIAS RELEASE
    if v = BIAS ∨ v = RELEASE_DIRECT then
      some (drainRelease cb, c, if v = BIAS then .mark else .none)
    else some (drainWaitDrained cb, c, .none)
  | drainRelease cb, c =>
    if cb then some (drainCallback, c, .callback) else some (drainSetDrained cb, c, .none)
  | drainCallback, c => some (drainSetDrained true, c, .none)
  | drainSetDrained _, _ => some (idle, DRAINED, .ret (.drain true))
  | drainWaitDrained _, c =>
    if c = DRAINED then some (idle, c, .ret (.drain false)) else none

/-- The positions of the drain call that won the cmpxchg to RELEASE. -/
def Winner : Pc → Prop
  | drainRelease _ | drainCallback | drainSetDrained _ => True
  | _ => False

end Pc

/-- Call `n` of thread `t` did something. -/
inductive Ev where
  | call (t n : Nat) (f : Fn)
  | ret (t n : Nat) (r : Ret)
  | mark (t n : Nat)
  | callback (t n : Nat)
  deriving DecidableEq, Repr

namespace Out

def isRet : Out → Bool
  | ret _ => true
  | _ => false

/-- The ghost holders after the step of thread `t`. -/
def holders (t : Nat) (hs : List Nat) : Out → List Nat
  | ret (.acquire true) => t :: hs
  | ret .release => hs.erase t
  | _ => hs

/-- The events of the step of call `n` of thread `t`. -/
def events (t n : Nat) : Out → List Ev
  | none => []
  | ret r => [.ret t n r]
  | mark => [.mark t n]
  | callback => [.callback t n]

end Out

/-- A thread: its position and how many calls it has returned from. -/
structure Thread where
  pc : Pc
  calls : Nat
  deriving DecidableEq, Repr

/-- The counter, every thread, and the ghost holders. -/
structure State where
  count : CInt
  threads : Nat → Thread
  holders : List Nat

/-- `bus1_active_init()`: the counter is NEW and no thread has made a call. -/
def init : State := ⟨NEW, fun _ => ⟨.idle, 0⟩, []⟩

/-- A scheduling choice: an idle thread invokes a call, or a thread steps. -/
inductive Act where
  | call (t : Nat) (f : Fn)
  | next (t : Nat)
  deriving DecidableEq, Repr

/-- Thread `t` invokes `f`: it moves to the call's entry. -/
def State.invoke (s : State) (t : Nat) (f : Fn) : State :=
  { s with threads := Function.update s.threads t { s.threads t with pc := f.entry } }

/-- Thread `t` has stepped to `pc`, leaving the counter at `c` and doing `o`;
    a return ends its current call. -/
def State.after (s : State) (t : Nat) (pc : Pc) (c : CInt) (o : Out) : State where
  count := c
  threads := Function.update s.threads t
    ⟨pc, if o.isRet then (s.threads t).calls + 1 else (s.threads t).calls⟩
  holders := o.holders t s.holders

/-- One step of the system, with its events; `none` if not enabled. -/
def step (s : State) : Act → Option (State × List Ev)
  | .call t f =>
    if (s.threads t).pc = .idle then
      some (s.invoke t f, [.call t (s.threads t).calls f])
    else none
  | .next t =>
    match (s.threads t).pc.step s.count with
    | none => none
    | some (pc, c, o) => some (s.after t pc c o, o.events t (s.threads t).calls)

/-- An invocation only moves the idle caller to the call's entry. -/
theorem step_call_inv {s s' : State} {t : Nat} {f : Fn} {evs : List Ev}
    (h : step s (.call t f) = some (s', evs)) :
    (s.threads t).pc = .idle ∧ s' = s.invoke t f ∧ evs = [.call t (s.threads t).calls f] := by
  simp only [step] at h
  split_ifs at h with hi
  simp only [Option.some.injEq, Prod.mk.injEq] at h
  exact ⟨hi, h.1.symm, h.2.symm⟩

/-- A thread step is `Pc.step` of the moving thread, applied to the state. -/
theorem step_next_inv {s s' : State} {t : Nat} {evs : List Ev}
    (h : step s (.next t) = some (s', evs)) :
    ∃ pc c o, (s.threads t).pc.step s.count = some (pc, c, o) ∧
      s' = s.after t pc c o ∧ evs = o.events t (s.threads t).calls := by
  simp only [step] at h
  split at h
  · cases h
  · rename_i pc c o hs
    simp only [Option.some.injEq, Prod.mk.injEq] at h
    exact ⟨pc, c, o, hs, h.1.symm, h.2.symm⟩

section Fields

variable {s : State} {t t' : Nat} {f : Fn} {pc : Pc} {c : CInt} {o : Out}

@[simp] theorem State.invoke_count : (s.invoke t f).count = s.count := rfl

@[simp] theorem State.invoke_holders : (s.invoke t f).holders = s.holders := rfl

@[simp] theorem State.invoke_threads :
    (s.invoke t f).threads t' = if t' = t then { s.threads t with pc := f.entry }
      else s.threads t' := Function.update_apply _ _ _ _

@[simp] theorem State.after_count : (s.after t pc c o).count = c := rfl

@[simp] theorem State.after_holders : (s.after t pc c o).holders = o.holders t s.holders := rfl

@[simp] theorem State.after_threads :
    (s.after t pc c o).threads t' = if t' = t then
      ⟨pc, if o.isRet then (s.threads t).calls + 1 else (s.threads t).calls⟩
      else s.threads t' := Function.update_apply _ _ _ _

/-- An idle thread can always invoke a call. -/
theorem step_call_of (h : (s.threads t).pc = .idle) :
    step s (.call t f) = some (s.invoke t f, [.call t (s.threads t).calls f]) := by
  simp [step, h]

/-- A thread whose step is enabled moves the state to `State.after`. -/
theorem step_next_of (pc : Pc) (c : CInt) (o : Out)
    (h : (s.threads t).pc.step s.count = some (pc, c, o)) :
    step s (.next t) = some (s.after t pc c o, o.events t (s.threads t).calls) := by
  simp [step, h]

end Fields

/-- The contract of `bus1_active_release()`: the caller holds a reference. -/
def Act.Allowed (s : State) : Act → Prop
  | .call t .release => t ∈ s.holders
  | _ => True

/-- The states and histories (latest event first) of runs from `init` whose
    states all satisfy `P`. -/
inductive Reachable (P : State → Prop) : State → List Ev → Prop where
  | init : Reachable P init []
  | step {s s' : State} {es evs : List Ev} {a : Act} :
      Reachable P s es → a.Allowed s → step s a = some (s', evs) → P s' →
      Reachable P s' (evs ++ es)

section Runs

variable {P : State → Prop} {s : State} {es : List Ev}

/-- Extends a run by an invocation of `f` by the idle thread `t`. -/
theorem Reachable.call (h : Reachable P s es) (t : Nat) (f : Fn) (ht : (s.threads t).pc = .idle)
    (ha : (Act.call t f).Allowed s) (hp : P (s.invoke t f)) :
    Reachable P (s.invoke t f) ([.call t (s.threads t).calls f] ++ es) :=
  .step h ha (step_call_of ht) hp

/-- Extends a run by an enabled step of thread `t`. -/
theorem Reachable.next (h : Reachable P s es) (t : Nat) (pc : Pc) (c : CInt) (o : Out)
    (hs : (s.threads t).pc.step s.count = some (pc, c, o)) (hp : P (s.after t pc c o)) :
    Reachable P (s.after t pc c o) (o.events t (s.threads t).calls ++ es) :=
  .step h (show (Act.next t).Allowed s from trivial) (step_next_of pc c o hs) hp

end Runs

/-- At most `-BUS1_ACTIVE_BIAS - 1` references are held. -/
def Bounded (s : State) : Prop := (s.holders.length : Int) < -BIAS.val

instance : DecidablePred Bounded := fun s =>
  inferInstanceAs (Decidable ((s.holders.length : Int) < -BIAS.val))

/-- A run within the bound: thread 0 activates, thread 1 takes a reference,
    thread 0 deactivates (DRAINING(1)), thread 2 calls `bus1_active_drain()`
    and waits, and thread 1 calls `bus1_active_release()`, whose decrement
    brings the counter to BIAS. -/
theorem reachable_release_pending : ∃ s es, Reachable Bounded s es ∧
    s.count = 1 + BIAS ∧ s.holders = [1] ∧ (s.threads 1).pc = .releaseDec ∧
    (s.threads 2).pc = .drainWait false ∧
    step s (.next 1) = some (s.after 1 .idle BIAS (.ret .release), [.ret 1 1 .release]) ∧
    Bounded (s.after 1 .idle BIAS (.ret .release)) :=
  ⟨_, _, (((((((((((Reachable.init (P := Bounded)).call 0 .activate rfl trivial
    (by decide)).next 0 .idle 0 (.ret (.activate true)) (by decide) (by decide)).call 1
    .acquire rfl trivial (by decide)).next 1 .idle 1 (.ret (.acquire true)) (by decide)
    (by decide)).call 0 .deactivate rfl trivial (by decide)).next 0 (.addRead BIAS) 1 .none
    (by decide) (by decide)).next 0 (.addCmpxchg BIAS 1) 1 .none (by decide) (by decide)).next 0
    .idle (1 + BIAS) (.ret .deactivate) (by decide) (by decide)).call 2 (.drain false) rfl trivial
    (by decide)).next 2 (.drainWait false) (1 + BIAS) .none (by decide) (by decide)).call 1
    .release rfl (List.mem_cons_self 1 []) (by decide), rfl, rfl, rfl, rfl,
    step_next_of _ _ _ (by decide), by decide⟩

end Bus1.Active
