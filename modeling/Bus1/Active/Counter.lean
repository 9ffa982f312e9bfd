/-
  Bus1.Active.Counter

  The encoding of `active.c`: the sentinels below `BUS1_ACTIVE_BIAS`, the
  three state queries, and how one `int` carries both the lifecycle state and
  the number of references.  `decode` reads the counter as the comment above
  `BUS1_ACTIVE_BIAS` describes it; `ActiveState.count` is its inverse.

  `Encodes v a` says the counter `v` is the encoding of `a` and that `a` holds
  fewer than `-BUS1_ACTIVE_BIAS` references: only then is DRAINING(k) still
  negative.  The `Encodes.*_iff` lemmas are what the thread steps of
  `Bus1.Active.Machine` compare the counter against, each read back on the
  abstract state.
-/
import Bus1.Atomic
import Bus1.Active.Abstract

namespace Bus1.Active

open CInt

/-- `BUS1_ACTIVE_BIAS`: `INT_MIN + 5`, so that `-BIAS` cannot overflow. -/
def BIAS : CInt := INT_MIN + 5

/-- `BUS1_ACTIVE_RELEASE_DIRECT`. -/
def RELEASE_DIRECT : CInt := BIAS - 1

/-- `BUS1_ACTIVE_RELEASE`. -/
def RELEASE : CInt := BIAS - 2

/-- `BUS1_ACTIVE_DRAINED`. -/
def DRAINED : CInt := BIAS - 3

/-- `BUS1_ACTIVE_NEW`. -/
def NEW : CInt := BIAS - 4

@[simp] theorem BIAS_val : BIAS.val = -2147483643 := rfl
@[simp] theorem RELEASE_DIRECT_val : RELEASE_DIRECT.val = -2147483644 := rfl
@[simp] theorem RELEASE_val : RELEASE.val = -2147483645 := rfl
@[simp] theorem DRAINED_val : DRAINED.val = -2147483646 := rfl
@[simp] theorem NEW_val : NEW.val = -2147483647 := rfl

/-- `bus1_active_is_new()`, on the value it reads. -/
def isNew (v : CInt) : Bool := v = NEW

/-- `bus1_active_is_active()`, on the value it reads. -/
def isActive (v : CInt) : Bool := 0 ≤ v.val

/-- `bus1_active_is_deactivated()`, on the value it reads. -/
def isDeactivated (v : CInt) : Bool := NEW.val < v.val && v.val < 0

/-- `bus1_active_destroy()`: whether its `WARN_ON` fires on the value it reads. -/
def destroyWarns (v : CInt) : Bool := v ≠ DRAINED

/-- Reading a counter value as a lifecycle state (`none` below NEW). -/
def decode (v : CInt) : Option ActiveState :=
  if 0 ≤ v.val then some (.active v.val.toNat)
  else if BIAS.val ≤ v.val then some (.draining (v.val - BIAS.val).toNat)
  else if v = RELEASE_DIRECT then some .releaseDirect
  else if v = RELEASE then some .release
  else if v = DRAINED then some .drained
  else if v = NEW then some .new
  else none

namespace ActiveState

/-- The counter value of a state. -/
def count : ActiveState → Int
  | new => NEW.val
  | active k => k
  | draining k => BIAS.val + k
  | releaseDirect => RELEASE_DIRECT.val
  | release => RELEASE.val
  | drained => DRAINED.val

end ActiveState

/-- The counter `v` encodes `a`, and `a` holds at most `-BIAS - 1` references. -/
def Encodes (v : CInt) (a : ActiveState) : Prop :=
  v.val = a.count ∧ (a.refs : Int) < -BIAS.val

/-- Decoding the counter value read from a state returns that state. -/
theorem decode_of_encodes {v : CInt} {a : ActiveState} (h : Encodes v a) :
    decode v = some a := by
  obtain ⟨hv, hk⟩ := h
  have := v.val_lt
  cases a <;> simp only [ActiveState.count, ActiveState.refs, NEW_val, BIAS_val,
    RELEASE_DIRECT_val, RELEASE_val, DRAINED_val] at hv hk <;>
    simp [decode, ext_iff', hv]
  omega

namespace Encodes

variable {v : CInt} {a : ActiveState}

/-- A sentinel value `c` is read exactly in the state it decodes to. -/
theorem eq_iff {c : CInt} {b : ActiveState} (h : Encodes v a) (hc : decode c = some b)
    (hb : c.val = b.count) : v = c ↔ a = b := by
  constructor
  · rintro rfl
    exact Option.some.inj ((decode_of_encodes h).symm.trans hc)
  · rintro rfl
    exact ext (h.1.trans hb.symm)

theorem eq_NEW_iff (h : Encodes v a) : v = NEW ↔ a = .new := h.eq_iff rfl rfl

theorem eq_RELEASE_DIRECT_iff (h : Encodes v a) : v = RELEASE_DIRECT ↔ a = .releaseDirect :=
  h.eq_iff rfl rfl

theorem eq_RELEASE_iff (h : Encodes v a) : v = RELEASE ↔ a = .release := h.eq_iff rfl rfl

theorem eq_DRAINED_iff (h : Encodes v a) : v = DRAINED ↔ a = .drained := h.eq_iff rfl rfl

theorem eq_BIAS_iff (h : Encodes v a) : v = BIAS ↔ a = .draining 0 := h.eq_iff rfl rfl

/-- `v >= 0` holds exactly in ACTIVE. -/
theorem nonneg_iff (h : Encodes v a) : 0 ≤ v.val ↔ ∃ k, a = .active k := by
  obtain ⟨hv, hk⟩ := h
  rw [hv]
  cases a <;> simp only [ActiveState.count, ActiveState.refs, NEW_val, BIAS_val, RELEASE_val,
    RELEASE_DIRECT_val, DRAINED_val, reduceCtorEq, exists_false, iff_false,
    ActiveState.active.injEq, exists_eq', iff_true] at hk ⊢ <;> omega

/-- `bus1_active_is_deactivated()` reads the abstract `deactivated`. -/
theorem isDeactivated_eq (h : Encodes v a) : isDeactivated v = a.deactivated := by
  obtain ⟨hv, hk⟩ := h
  simp only [isDeactivated, hv, NEW_val]
  cases a <;> simp only [ActiveState.count, ActiveState.refs, ActiveState.deactivated, NEW_val,
    BIAS_val, RELEASE_val, RELEASE_DIRECT_val, DRAINED_val, Bool.and_eq_true, decide_eq_true_eq,
    Bool.and_eq_false_imp, decide_eq_false_iff_not] at hk ⊢ <;> omega

/-- After deactivation, `v <= BIAS` holds exactly when no reference is left. -/
theorem le_BIAS_iff (h : Encodes v a) (hd : a.deactivated) :
    v.val ≤ BIAS.val ↔ a.refs = 0 := by
  obtain ⟨hv, hk⟩ := h
  rw [hv]
  cases a <;> simp only [ActiveState.deactivated, Bool.false_eq_true] at hd <;>
    simp only [ActiveState.count, ActiveState.refs, BIAS_val, RELEASE_val,
      RELEASE_DIRECT_val, DRAINED_val, iff_true] <;> omega

end Encodes

end Bus1.Active
