/-
  Bus1.Active.Lifecycle

  The lifecycle as the callers of `active.c` see it, along every run with
  fewer than `-BUS1_ACTIVE_BIAS` references held at once.  No step takes the
  state the counter decodes to back to an earlier phase (the law
  `ActiveState.rank_le_of_step`, carried along the runs by the refinement),
  so `bus1_active_is_new()` never becomes true again,
  `bus1_active_is_deactivated()` never false again, and once the counter is
  DRAINED `bus1_active_destroy()` no longer warns (`query_monotone`);
  `bus1_active_activate()` succeeds at most once, and never once a
  deactivation has returned (`activate_succeeds_once`).
-/
import Bus1.Active.Drain

namespace Bus1.Active

open CInt ActiveState

/-! ## The query functions on the abstract state -/

namespace Encodes

variable {v : CInt} {a : ActiveState}

theorem isNew_eq (h : Encodes v a) : isNew v = decide (a = .new) := by
  simp [isNew, h.eq_NEW_iff]

theorem destroyWarns_eq (h : Encodes v a) : destroyWarns v = decide (a ≠ .drained) := by
  simp [destroyWarns, h.eq_DRAINED_iff]

end Encodes

/-- Along every run within the bound, each step keeps or advances the
    lifecycle phase of the state the counter decodes to, so it keeps
    `bus1_active_is_new()` false once it is false,
    `bus1_active_is_deactivated()` true once it is true, and
    `bus1_active_destroy()` quiet once the counter is DRAINED. -/
theorem query_monotone {s s' : State} {es evs : List Ev} {act : Act} (h : Reachable Bounded s es)
    (ha : act.Allowed s) (hs : step s act = some (s', evs)) (hb : Bounded s') :
    (∃ a a', decode s.count = some a ∧ decode s'.count = some a' ∧ a.rank ≤ a'.rank) ∧
    (isNew s.count = false → isNew s'.count = false) ∧
    (isDeactivated s.count = true → isDeactivated s'.count = true) ∧
    (destroyWarns s.count = false → destroyWarns s'.count = false) := by
  obtain ⟨a, hi⟩ := reachable_countInv h
  obtain ⟨a', hi', hst⟩ := hi.step ha hs hb
  have hr : a.rank ≤ a'.rank := by
    rcases hst with rfl | hst
    · exact le_rfl
    · exact rank_le_of_step hst
  refine ⟨⟨a, a', decode_of_encodes hi.encodes, decode_of_encodes hi'.encodes, hr⟩, ?_⟩
  rw [hi.encodes.isNew_eq, hi'.encodes.isNew_eq, hi.encodes.isDeactivated_eq,
    hi'.encodes.isDeactivated_eq, hi.encodes.destroyWarns_eq, hi'.encodes.destroyWarns_eq]
  simp only [decide_eq_false_iff_not, ← rank_eq_zero_iff, deactivated_iff_two_le_rank, ne_eq,
    not_not, ← rank_eq_four_iff]
  have := rank_le_four a'
  omega

/-- Two steps past NEW: thread 1's release in the run of
    `reachable_release_pending`, after the deactivation, and an activation
    attempt in the DRAINED state of `reachable_drained`. -/
theorem query_monotone_past_new :
    (∃ s es s' evs, Reachable Bounded s es ∧ step s (.next 1) = some (s', evs) ∧
      isNew s.count = false ∧ isDeactivated s.count = true ∧
      isNew s'.count = false ∧ isDeactivated s'.count = true) ∧
    (∃ s es s' evs, Reachable Bounded s es ∧ step s (.next 1) = some (s', evs) ∧
      destroyWarns s.count = false ∧ destroyWarns s'.count = false) := by
  constructor
  · obtain ⟨s, es, h, hc, -, -, -, hs, hb⟩ := reachable_release_pending
    have hn : isNew s.count = false := by rw [hc]; decide
    have hd : isDeactivated s.count = true := by rw [hc]; decide
    obtain ⟨-, hn', hd', -⟩ := query_monotone h (show (Act.next 1).Allowed s from trivial) hs hb
    exact ⟨s, es, _, _, h, hs, hn, hd, hn' hn, hd' hd⟩
  · obtain ⟨s, h, hc, hp⟩ := reachable_drained
    have h₁ := h.call 1 .activate hp trivial h.bounded
    have hp₁ : ((s.invoke 1 .activate).threads 1).pc = .activateCmpxchg := by simp [Fn.entry]
    have hs := step_next_of (s := s.invoke 1 .activate) (t := 1) .idle DRAINED
      (.ret (.activate false)) (by rw [hp₁, State.invoke_count, hc]; decide)
    have hw : destroyWarns (s.invoke 1 .activate).count = false := by
      rw [State.invoke_count, hc]; decide
    exact ⟨_, _, _, _, h₁, hs, hw, (query_monotone h₁ (show (Act.next 1).Allowed _ from trivial)
      hs h₁.bounded).2.2.2 hw⟩

/-! ## Activation -/

def Ev.isActivateTrue : Ev → Bool
  | ret _ _ (.activate true) => true
  | _ => false

/-- The successful activations allowed in state `a`: none while NEW. -/
def ActiveState.activations (a : ActiveState) : Nat := if a = .new then 0 else 1

/-- Only the activation leaves NEW for ACTIVE, and it is the only step that
    returns true from `bus1_active_activate()`. -/
theorem ThreadStep.activations_le {a a' : ActiveState} {p p' : Pc} {o : Out}
    (h : ThreadStep a p a' p' o) (t c : Nat) :
    a.activations + (o.events t c).countP Ev.isActivateTrue ≤ a'.activations := by
  cases h <;> simp_all [ActiveState.activations, Out.events, Ev.isActivateTrue]

theorem reachable_activations {s : State} {es : List Ev} (h : Reachable Bounded s es) :
    ∃ a, CountInv s a ∧ es.countP Ev.isActivateTrue ≤ a.activations := by
  induction h with
  | init => exact ⟨_, countInv_init, le_rfl⟩
  | @step s s' es evs act _ ha hs hb ih =>
    obtain ⟨a, hi, hn⟩ := ih
    cases act with
    | call t f =>
      obtain ⟨-, rfl, rfl⟩ := step_call_inv hs
      exact ⟨a, hi.invoke ha, by simpa [Ev.isActivateTrue] using hn⟩
    | next t =>
      obtain ⟨p', c, o, hst, rfl, rfl⟩ := step_next_inv hs
      obtain ⟨a', he, hts⟩ := hi.sim hst hb
      have := hts.activations_le t (s.threads t).calls
      exact ⟨a', hi.after he hts, by rw [List.countP_append]; omega⟩

/-- Along every run within the bound, at most one `bus1_active_activate()`
    call returns true, and once a deactivate call has returned, every
    activation at its cmpxchg can step, and fails. -/
theorem activate_succeeds_once {s : State} {es : List Ev} (h : Reachable Bounded s es) :
    es.countP Ev.isActivateTrue ≤ 1 ∧
    ((∃ t n, Ev.ret t n .deactivate ∈ es) →
      ∀ t, (s.threads t).pc = .activateCmpxchg →
        ∃ s', step s (.next t) = some (s', [.ret t (s.threads t).calls (.activate false)])) := by
  obtain ⟨a, -, hn⟩ := reachable_activations h
  refine ⟨hn.trans (by unfold ActiveState.activations; split_ifs <;> decide),
    fun hd t ht => ⟨_, step_next_of .idle s.count (.ret (.activate false)) ?_⟩⟩
  obtain ⟨b, hi, hh⟩ := reachable_inv h
  have hne : s.count ≠ NEW := fun he => by
    have := hh.deactivated hd
    rw [hi.encodes.eq_NEW_iff.1 he] at this
    exact absurd this (by decide)
  simp [ht, Pc.step, atomicCmpxchg, hne]

/-- In the run of `reachable_drained`, the object was activated once. -/
theorem activate_succeeds_once_drained :
    ∃ s es, Reachable Bounded s es ∧ Ev.ret 0 0 (.activate true) ∈ es ∧
      es.countP Ev.isActivateTrue ≤ 1 :=
  let ⟨_, h, _⟩ := reachable_drained
  ⟨_, _, h, by decide, (activate_succeeds_once h).1⟩

end Bus1.Active
