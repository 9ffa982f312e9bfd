/-
  Bus1.Active.Abstract

  What an active reference is for, independent of its encoding: the
  lifecycle NEW → {ACTIVE(k) → DRAINING(k)} or {RELEASE_DIRECT} → RELEASE →
  DRAINED, where `k` counts the references held.  Acquisitions happen only in
  ACTIVE, deactivation freezes the count (DRAINING can only go down), and
  exactly the empty DRAINING(0) or RELEASE_DIRECT moves on to RELEASE.

  `ActiveState.Step` is that transition system; `rank_le_of_step` is its
  "no backward transition" law, from which a deactivation is never undone.
  `Bus1.Active.Refinement` shows that the counter of `active.c` refines it,
  and `Bus1.Active.Lifecycle` carries the law along the runs of the code.
-/

namespace Bus1.Active

/-- The logical states of an active reference (the table of spec.md §3.1). -/
inductive ActiveState where
  | new
  | active (k : Nat)
  | draining (k : Nat)
  | releaseDirect
  | release
  | drained
  deriving DecidableEq, Repr

namespace ActiveState

/-- The references held in a state: none outside ACTIVE and DRAINING. -/
def refs : ActiveState → Nat
  | active k | draining k => k
  | _ => 0

/-- The states after a deactivation took effect. -/
def deactivated : ActiveState → Bool
  | draining _ | releaseDirect | release | drained => true
  | _ => false

/-- The states after the cmpxchg to RELEASE. -/
def released : ActiveState → Bool
  | release | drained => true
  | _ => false

/-- Outside NEW and ACTIVE, a state is deactivated. -/
theorem deactivated_of_ne {a : ActiveState} (h : ∀ k, a ≠ active k) (hn : a ≠ new) :
    a.deactivated := by
  cases a <;> simp_all [deactivated]

/-- Position along the lifecycle; DRAINING and RELEASE_DIRECT are the two
    alternatives of the same phase. -/
def rank : ActiveState → Nat
  | new => 0
  | active _ => 1
  | draining _ | releaseDirect => 2
  | release => 3
  | drained => 4

@[simp] theorem rank_eq_zero_iff {a : ActiveState} : a.rank = 0 ↔ a = new := by
  cases a <;> simp [rank]

@[simp] theorem rank_eq_four_iff {a : ActiveState} : a.rank = 4 ↔ a = drained := by
  cases a <;> simp [rank]

theorem rank_le_four (a : ActiveState) : a.rank ≤ 4 := by
  cases a <;> simp [rank]

/-- The deactivated states are those from the third phase on. -/
theorem deactivated_iff_two_le_rank {a : ActiveState} : a.deactivated ↔ 2 ≤ a.rank := by
  cases a <;> simp [deactivated, rank]

/-- One transition of the abstract lifecycle. -/
inductive Step : ActiveState → ActiveState → Prop where
  | activate : Step new (active 0)
  | acquire (k : Nat) : Step (active k) (active (k + 1))
  | releaseActive (k : Nat) : Step (active (k + 1)) (active k)
  | deactivate (k : Nat) : Step (active k) (draining k)
  | deactivateNew : Step new releaseDirect
  | releaseDraining (k : Nat) : Step (draining (k + 1)) (draining k)
  | markBias : Step (draining 0) release
  | markDirect : Step releaseDirect release
  | setDrained : Step release drained

/-- No backward transition: every step keeps or advances the phase. -/
theorem rank_le_of_step {a b : ActiveState} (h : Step a b) : a.rank ≤ b.rank := by
  cases h <;> simp [rank]

/-- Once deactivated, a state stays deactivated. -/
theorem deactivated_of_step {a b : ActiveState} (h : Step a b) (ha : a.deactivated) :
    b.deactivated :=
  deactivated_iff_two_le_rank.2
    (Nat.le_trans (deactivated_iff_two_le_rank.1 ha) (rank_le_of_step h))

end ActiveState

end Bus1.Active
