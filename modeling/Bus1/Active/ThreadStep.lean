/-
  Bus1.Active.ThreadStep

  Every thread step of `Pc.step`, read on the abstract state.

  `PcOk a held pc` says where a thread can stand while the counter encodes
  `a`: a deactivating thread never sees NEW again, a drainer past its
  `is_deactivated` check sees a deactivated state, past its wait one with no
  reference left, and the winner of the cmpxchg sees RELEASE.  `ThreadStep`
  lists what one step does from such a position; `Pc.step_sim` shows that
  the code's step is one of them.  All later invariants are proved from
  `ThreadStep` alone, never from `Pc.step`.
-/
import Bus1.Active.Machine

namespace Bus1.Active

open CInt ActiveState

/-- Where a thread can stand while the counter encodes `a`; `held`: the
    thread holds a reference. -/
def PcOk (a : ActiveState) (held : Prop) : Pc → Prop
  | .releaseDec => held
  | .addRead add => add = BIAS ∧ a ≠ .new
  | .addCmpxchg add v => add = BIAS ∧ 0 ≤ v.val ∧ a ≠ .new
  | .drainWait _ => a.deactivated
  | .drainCmpxchgDirect _ => a.deactivated ∧ a.refs = 0
  | .drainCmpxchgBias _ => a.deactivated ∧ a.refs = 0 ∧ a ≠ .releaseDirect
  | .drainRelease _ | .drainCallback | .drainSetDrained _ => a = .release
  | .drainWaitDrained _ => a = .release ∨ a = .drained
  | _ => True

/-- One thread step on the abstract state: from `a` at `p` to `a'` at `p'`,
    doing `o`. -/
inductive ThreadStep : ActiveState → Pc → ActiveState → Pc → Out → Prop where
  | activateNew : ThreadStep .new .activateCmpxchg (.active 0) .idle (.ret (.activate true))
  | activateOther {a} (h : a ≠ .new) :
      ThreadStep a .activateCmpxchg a .idle (.ret (.activate false))
  | acquireOk (k : Nat) :
      ThreadStep (.active k) .acquireInc (.active (k + 1)) .idle (.ret (.acquire true))
  | acquireFail {a} (h : ∀ k, a ≠ .active k) :
      ThreadStep a .acquireInc a .idle (.ret (.acquire false))
  | releaseActive (k : Nat) :
      ThreadStep (.active (k + 1)) .releaseDec (.active k) .idle (.ret .release)
  | releaseDraining (k : Nat) :
      ThreadStep (.draining (k + 1)) .releaseDec (.draining k) .idle (.ret .release)
  | deactivateNew : ThreadStep .new .deactivateCmpxchg .releaseDirect .idle (.ret .deactivate)
  | deactivateOther {a} (h : a ≠ .new) :
      ThreadStep a .deactivateCmpxchg a (.addRead BIAS) .none
  | addReadActive (k : Nat) (v : CInt) (hv : v.val = k) :
      ThreadStep (.active k) (.addRead BIAS) (.active k) (.addCmpxchg BIAS v) .none
  | addReadNeg {a} (h : ∀ k, a ≠ .active k) (hn : a ≠ .new) :
      ThreadStep a (.addRead BIAS) a .idle (.ret .deactivate)
  | addCmpxchgOk (k : Nat) (v : CInt) :
      ThreadStep (.active k) (.addCmpxchg BIAS v) (.draining k) .idle (.ret .deactivate)
  | addCmpxchgRetry (k : Nat) (v v₁ : CInt) (hv : v₁.val = k) :
      ThreadStep (.active k) (.addCmpxchg BIAS v) (.active k) (.addCmpxchg BIAS v₁) .none
  | addCmpxchgNeg {a} (v : CInt) (h : ∀ k, a ≠ .active k) (hn : a ≠ .new) :
      ThreadStep a (.addCmpxchg BIAS v) a .idle (.ret .deactivate)
  | drainCheckOk {a} (cb : Bool) (h : a.deactivated) :
      ThreadStep a (.drainCheck cb) a (.drainWait cb) .none
  | drainCheckFail {a} (cb : Bool) (h : a.deactivated = false) :
      ThreadStep a (.drainCheck cb) a .idle (.ret (.drain false))
  | drainWait {a} (cb : Bool) (h : a.deactivated) (h₀ : a.refs = 0) :
      ThreadStep a (.drainWait cb) a (.drainCmpxchgDirect cb) .none
  | markDirect (cb : Bool) :
      ThreadStep .releaseDirect (.drainCmpxchgDirect cb) .release (.drainRelease cb) .mark
  | directFail {a} (cb : Bool) (h : a.deactivated) (h₀ : a.refs = 0) (hd : a ≠ .releaseDirect) :
      ThreadStep a (.drainCmpxchgDirect cb) a (.drainCmpxchgBias cb) .none
  | markBias (cb : Bool) :
      ThreadStep (.draining 0) (.drainCmpxchgBias cb) .release (.drainRelease cb) .mark
  | biasFail {a} (cb : Bool) (h : a = .release ∨ a = .drained) :
      ThreadStep a (.drainCmpxchgBias cb) a (.drainWaitDrained cb) .none
  | callback : ThreadStep .release (.drainRelease true) .release .drainCallback .callback
  | noCallback :
      ThreadStep .release (.drainRelease false) .release (.drainSetDrained false) .none
  | callbackDone : ThreadStep .release .drainCallback .release (.drainSetDrained true) .none
  | setDrained (cb : Bool) :
      ThreadStep .release (.drainSetDrained cb) .drained .idle (.ret (.drain true))
  | waitDrained (cb : Bool) :
      ThreadStep .drained (.drainWaitDrained cb) .drained .idle (.ret (.drain false))

/-- The references held after a step that does `o`, from `n` before. -/
def Out.held : Out → Nat → Nat
  | .ret (.acquire true), n => n + 1
  | .ret .release, n => n - 1
  | _, n => n

section Sim

variable {p p' : Pc} {v v' : CInt} {o : Out} {a : ActiveState} {held : Prop}

/-- A negative counter value is not ACTIVE. -/
theorem not_active_of_neg (hv : Encodes v a) (h : ¬ 0 ≤ v.val) : ∀ k, a ≠ .active k :=
  fun k hk => h (hv.nonneg_iff.2 ⟨k, hk⟩)

/-- A non-negative counter value is ACTIVE with that many references. -/
theorem active_of_nonneg (hv : Encodes v a) (h : 0 ≤ v.val) : a = .active v.val.toNat := by
  obtain ⟨k, rfl⟩ := hv.nonneg_iff.1 h
  have := hv.1
  simp only [ActiveState.count] at this
  simp [this]

/-- The code's step from a position allowed by `PcOk` is a `ThreadStep`;
    `hheld` and `hb` bring in the references held before and after. -/
theorem Pc.step_sim (h : p.step v = some (p', v', o)) (hv : Encodes v a)
    (hp : PcOk a held p) (hheld : held → 0 < a.refs)
    (hb : o = .ret (.acquire true) → (a.refs : Int) + 1 < -BIAS.val) :
    ∃ a', Encodes v' a' ∧ ThreadStep a p a' p' o := by
  have hlt := v.val_lt
  have hge := v.le_val
  cases p with
  | idle => simp [Pc.step] at h
  | activateCmpxchg =>
    simp only [Pc.step, atomicCmpxchg] at h
    cases h
    by_cases hn : v = NEW
    · obtain rfl := hv.eq_NEW_iff.1 hn
      refine ⟨.active 0, ⟨?_, by simp [refs]⟩, by simpa [hn] using ThreadStep.activateNew⟩
      simp [hn, ActiveState.count]; rfl
    · exact ⟨a, by simpa [hn] using hv, by
        simpa [hn] using ThreadStep.activateOther (mt hv.eq_NEW_iff.2 hn)⟩
  | acquireInc =>
    simp only [Pc.step, atomicIncUnlessNegative] at h
    split_ifs at h with hn <;> cases h
    · obtain rfl := active_of_nonneg hv hn
      have hk := hb rfl
      simp only [refs, BIAS_val] at hk
      refine ⟨.active (v.val.toNat + 1), ⟨?_, by simp only [refs, BIAS_val]; omega⟩,
        .acquireOk _⟩
      rw [ofInt_val (by omega) (by omega)]
      simp [ActiveState.count]; omega
    · exact ⟨a, hv, .acquireFail (not_active_of_neg hv hn)⟩
  | releaseDec =>
    simp only [Pc.step] at h
    cases h
    have h0 := hheld hp
    obtain ⟨hc, hk⟩ := hv
    cases a with
    | active k =>
      obtain ⟨j, rfl⟩ : ∃ j, k = j + 1 := ⟨k - 1, by simp [refs] at h0; omega⟩
      refine ⟨.active j, ⟨?_, by simp [refs] at hk ⊢; omega⟩, .releaseActive j⟩
      simp only [atomicDecReturn, ActiveState.count] at hc ⊢
      rw [ofInt_val (by omega) (by omega)]; omega
    | draining k =>
      obtain ⟨j, rfl⟩ : ∃ j, k = j + 1 := ⟨k - 1, by simp [refs] at h0; omega⟩
      refine ⟨.draining j, ⟨?_, by simp [refs] at hk ⊢; omega⟩, .releaseDraining j⟩
      simp only [atomicDecReturn, ActiveState.count, BIAS_val] at hc ⊢
      rw [ofInt_val (by omega) (by omega)]; omega
    | _ => simp [refs] at h0
  | deactivateCmpxchg =>
    simp only [Pc.step, atomicCmpxchg, ne_eq] at h
    split_ifs at h with hn <;> cases h
    · obtain rfl := hv.eq_NEW_iff.1 hn
      exact ⟨.releaseDirect, ⟨rfl, by simp [refs]⟩, .deactivateNew⟩
    · exact ⟨a, hv, .deactivateOther (mt hv.eq_NEW_iff.2 hn)⟩
  | addRead add =>
    obtain ⟨rfl, hnew⟩ := hp
    simp only [Pc.step] at h
    split_ifs at h with hn <;> cases h
    · obtain rfl := active_of_nonneg hv hn
      exact ⟨_, hv, .addReadActive _ _ (by omega)⟩
    · exact ⟨a, hv, .addReadNeg (not_active_of_neg hv hn) hnew⟩
  | addCmpxchg add w =>
    obtain ⟨rfl, hw, hnew⟩ := hp
    simp only [Pc.step, atomicCmpxchg] at h
    split_ifs at h with he hn <;> cases h
    · subst he
      obtain rfl := active_of_nonneg hv hw
      have hk := hv.2
      simp only [refs] at hk
      refine ⟨.draining v.val.toNat, ⟨?_, by simpa [refs] using hk⟩, .addCmpxchgOk _ _⟩
      simp only [add_def, ActiveState.count, BIAS_val] at hk ⊢
      rw [ofInt_val (by omega) (by omega)]; omega
    · obtain rfl := active_of_nonneg hv hn
      exact ⟨_, hv, .addCmpxchgRetry _ _ _ (by omega)⟩
    · exact ⟨a, hv, .addCmpxchgNeg _ (not_active_of_neg hv hn) hnew⟩
  | drainCheck cb =>
    simp only [Pc.step, hv.isDeactivated_eq] at h
    split_ifs at h with hd <;> cases h
    · exact ⟨a, hv, .drainCheckOk cb hd⟩
    · exact ⟨a, hv, .drainCheckFail cb (by simpa using hd)⟩
  | drainWait cb =>
    simp only [Pc.step] at h
    split_ifs at h with hw
    cases h
    exact ⟨a, hv, .drainWait cb hp ((hv.le_BIAS_iff hp).1 hw)⟩
  | drainCmpxchgDirect cb =>
    obtain ⟨hd, h₀⟩ := hp
    simp only [Pc.step, atomicCmpxchg, ne_eq] at h
    split_ifs at h with hr <;> cases h
    · obtain rfl := hv.eq_RELEASE_DIRECT_iff.1 hr
      exact ⟨.release, ⟨rfl, by simp [refs]⟩, .markDirect cb⟩
    · exact ⟨a, hv, .directFail cb hd h₀ (mt hv.eq_RELEASE_DIRECT_iff.2 hr)⟩
  | drainCmpxchgBias cb =>
    obtain ⟨hd, h₀, hrd⟩ := hp
    have hnrd : v ≠ RELEASE_DIRECT := mt hv.eq_RELEASE_DIRECT_iff.1 hrd
    simp only [Pc.step, atomicCmpxchg, hnrd, or_false] at h
    split_ifs at h with hb' <;> cases h
    · obtain rfl := hv.eq_BIAS_iff.1 hb'
      exact ⟨.release, ⟨rfl, by simp [refs]⟩, .markBias cb⟩
    · have hnb := mt hv.eq_BIAS_iff.2 hb'
      refine ⟨a, hv, .biasFail cb ?_⟩
      cases a <;> simp_all [deactivated, refs]
  | drainRelease cb =>
    obtain rfl := hp
    cases cb <;> simp only [Pc.step, Bool.false_eq_true, ↓reduceIte] at h <;> cases h
    · exact ⟨_, hv, .noCallback⟩
    · exact ⟨_, hv, .callback⟩
  | drainCallback =>
    obtain rfl := hp
    cases h
    exact ⟨_, hv, .callbackDone⟩
  | drainSetDrained cb =>
    obtain rfl := hp
    cases h
    exact ⟨.drained, ⟨rfl, by simp [refs]⟩, .setDrained cb⟩
  | drainWaitDrained cb =>
    simp only [Pc.step] at h
    split_ifs at h with hdr
    cases h
    obtain rfl := hv.eq_DRAINED_iff.1 hdr
    exact ⟨_, hv, .waitDrained cb⟩

end Sim

/-! ## What a thread step does to the lifecycle and to the other threads -/

namespace ThreadStep

variable {a a' : ActiveState} {p p' : Pc} {o : Out}

/-- The abstract state stutters or takes one lifecycle transition. -/
theorem step_or_eq (h : ThreadStep a p a' p' o) : a' = a ∨ a.Step a' := by
  cases h <;> first | exact .inl rfl | exact .inr (by constructor)

/-- The thread lands at a position allowed in the new state. -/
theorem pcOk (h : ThreadStep a p a' p' o) (held : Prop) : PcOk a' held p' := by
  cases h <;> simp_all [PcOk, deactivated, refs]

/-- The references held change as the step's outcome says. -/
theorem refs_eq (h : ThreadStep a p a' p' o) : a'.refs = o.held a.refs := by
  cases h <;> rfl

/-- Only the winner moves the state out of RELEASE. -/
theorem winner_of_release (h : ThreadStep a p a' p' o) (ha : a = .release)
    (ha' : a' ≠ .release) : p.Winner := by
  cases h <;> simp_all [Pc.Winner]

/-- A thread becomes the winner only by its own cmpxchg, outside RELEASE. -/
theorem winner_new (h : ThreadStep a p a' p' o) (hw : p'.Winner) :
    p.Winner ∨ a ≠ .release := by
  cases h <;> simp_all [Pc.Winner]

/-- A release step is made from `bus1_active_release`'s access. -/
theorem releaseDec_of_ret (h : ThreadStep a p a' p' o) (ho : o = .ret .release) :
    p = .releaseDec := by
  cases h <;> simp_all

end ThreadStep

/-- The winner stands in RELEASE. -/
theorem PcOk.release_of_winner {a : ActiveState} {held : Prop} {p : Pc} (h : PcOk a held p)
    (hw : p.Winner) : a = .release := by
  cases p <;> simp_all [PcOk, Pc.Winner]

/-- A position stays allowed while another thread steps: the lifecycle only
    moves forward, and only the winner leaves RELEASE. -/
theorem PcOk.stable {a a' : ActiveState} {held held' : Prop} {p : Pc} (h : PcOk a held p)
    (hs : a' = a ∨ a.Step a') (hw : a = .release → a' ≠ .release → ¬ p.Winner)
    (hh : held → held') : PcOk a' held' p := by
  rcases hs with rfl | hs
  · cases p <;> simp_all [PcOk]
  · cases hs <;> cases p <;> simp_all [PcOk, deactivated, refs, Pc.Winner]

end Bus1.Active
