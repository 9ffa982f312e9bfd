/-
  Bus1.Active.Refinement

  The counter of `active.c` refines the abstract lifecycle.

  `CountInv s a`: the counter encodes `a`, `a` counts exactly the references
  held, every thread stands where `PcOk` allows, and at most one thread holds
  the RELEASE it won.  It holds initially (`countInv_init`) and each step of
  any thread keeps it while moving `a` by at most one `ActiveState.Step`
  (`CountInv.step`), so along every run with fewer than `-BIAS` references
  held at once, the counter always decodes to the state that counts the
  references held, and the decoded state only moves forward.
-/
import Bus1.Active.ThreadStep

namespace Bus1.Active

open CInt ActiveState

/-- The counter-level invariant, at abstract state `a`. -/
structure CountInv (s : State) (a : ActiveState) : Prop where
  encodes : Encodes s.count a
  refs : a.refs = s.holders.length
  pcOk : ∀ t, PcOk a (t ∈ s.holders) (s.threads t).pc
  winner : ∀ t t', (s.threads t).pc.Winner → (s.threads t').pc.Winner → t = t'

theorem countInv_init : CountInv init .new where
  encodes := ⟨rfl, by decide⟩
  refs := rfl
  pcOk _ := trivial
  winner _ _ h := h.elim

/-! ## Bookkeeping of the ghost holders -/

namespace Out

theorem length_holders {o : Out} {t : Nat} {hs : List Nat}
    (h : o = .ret .release → t ∈ hs) : (o.holders t hs).length = o.held hs.length := by
  rcases o with _ | ((_ | _) | (_ | _) | _ | _ | _) | _ | _ <;>
    simp_all [holders, held, List.length_erase_of_mem]

theorem mem_holders {o : Out} {t t' : Nat} {hs : List Nat} (hne : t' ≠ t) (h : t' ∈ hs) :
    t' ∈ o.holders t hs := by
  rcases o with _ | ((_ | _) | (_ | _) | _ | _ | _) | _ | _ <;>
    simp_all [holders, List.mem_erase_of_ne]

end Out

/-! ## One step -/

section Step

variable {s s' : State} {a : ActiveState} {act : Act} {evs : List Ev}

theorem CountInv.invoke (hi : CountInv s a) {t : Nat} {f : Fn}
    (ha : (Act.call t f).Allowed s) : CountInv (s.invoke t f) a := by
  have hentry : PcOk a (t ∈ s.holders) f.entry := by
    cases f <;> simp_all [PcOk, Fn.entry, Act.Allowed]
  have hw : ¬ f.entry.Winner := by cases f <;> simp [Fn.entry, Pc.Winner]
  refine ⟨hi.encodes, hi.refs, fun t' => ?_, fun t₁ t₂ h₁ h₂ => ?_⟩
  · by_cases ht : t' = t
    · subst ht; simpa [State.invoke] using hentry
    · simpa [State.invoke, Function.update_noteq ht] using hi.pcOk t'
  · by_cases e₁ : t₁ = t <;> by_cases e₂ : t₂ = t <;> subst_vars <;>
      simp_all [State.invoke, Function.update_noteq]
    exact hi.winner _ _ h₁ h₂

variable {t : Nat} {p' : Pc} {c : CInt} {o : Out}

/-- The moving thread's step is a `ThreadStep`, as long as the references held
    after it stay below `-BIAS`. -/
theorem CountInv.sim (hi : CountInv s a) (hs : (s.threads t).pc.step s.count = some (p', c, o))
    (hb : ((o.holders t s.holders).length : Int) < -BIAS.val) :
    ∃ a', Encodes c a' ∧ ThreadStep a (s.threads t).pc a' p' o :=
  Pc.step_sim hs hi.encodes (hi.pcOk t) (fun hm => hi.refs ▸ List.length_pos_of_mem hm)
    (fun ho => by
      subst ho
      simp only [Out.holders, List.length_cons] at hb
      rw [hi.refs]; push_cast at hb; omega)

theorem CountInv.after (hi : CountInv s a) {a' : ActiveState} (he : Encodes c a')
    (hts : ThreadStep a (s.threads t).pc a' p' o) : CountInv (s.after t p' c o) a' := by
  have hrel : o = .ret .release → t ∈ s.holders := fun ho => by
    simpa [hts.releaseDec_of_ret ho, PcOk] using hi.pcOk t
  have hsa := hts.step_or_eq
  refine ⟨he, ?_, fun t' => ?_, fun t₁ t₂ h₁ h₂ => ?_⟩
  · rw [hts.refs_eq, hi.refs, State.after, Out.length_holders hrel]
  · by_cases ht : t' = t
    · subst ht; simpa [State.after] using hts.pcOk _
    · simp only [State.after, Function.update_noteq ht]
      refine (hi.pcOk t').stable hsa (fun hr hr' hw => ht ?_) (Out.mem_holders ht)
      exact hi.winner _ _ hw (hts.winner_of_release hr hr')
  · have key : ∀ t₀, t₀ ≠ t → (s.threads t₀).pc.Winner → p'.Winner → False := by
      intro t₀ hne hw₀ hw'
      rcases hts.winner_new hw' with hw | hr
      · exact hne (hi.winner _ _ hw₀ hw)
      · exact hr ((hi.pcOk t₀).release_of_winner hw₀)
    simp only [State.after] at h₁ h₂
    by_cases e₁ : t₁ = t <;> by_cases e₂ : t₂ = t
    · rw [e₁, e₂]
    · subst e₁
      simp only [Function.update_same, Function.update_noteq e₂] at h₁ h₂
      exact (key _ e₂ h₂ h₁).elim
    · subst e₂
      simp only [Function.update_same, Function.update_noteq e₁] at h₁ h₂
      exact (key _ e₁ h₁ h₂).elim
    · simp only [Function.update_noteq e₁, Function.update_noteq e₂] at h₁ h₂
      exact hi.winner _ _ h₁ h₂

/-- Every step keeps the invariant and moves the abstract state by at most one
    lifecycle transition. -/
theorem CountInv.step (hi : CountInv s a) (ha : act.Allowed s)
    (h : Bus1.Active.step s act = some (s', evs)) (hb : Bounded s') :
    ∃ a', CountInv s' a' ∧ (a' = a ∨ a.Step a') := by
  cases act with
  | call t f =>
    obtain ⟨-, rfl, -⟩ := step_call_inv h
    exact ⟨a, hi.invoke ha, .inl rfl⟩
  | next t =>
    obtain ⟨p', c, o, hs, rfl, -⟩ := step_next_inv h
    obtain ⟨a', he, hts⟩ := hi.sim hs hb
    exact ⟨a', hi.after he hts, hts.step_or_eq⟩

end Step

/-- Every reachable state satisfies the invariant, at the state its counter decodes to. -/
theorem reachable_countInv {s : State} {es : List Ev} (h : Reachable Bounded s es) :
    ∃ a, CountInv s a := by
  induction h with
  | init => exact ⟨_, countInv_init⟩
  | step _ ha hs hb ih =>
    obtain ⟨a, hi⟩ := ih
    obtain ⟨a', hi', -⟩ := hi.step ha hs hb
    exact ⟨a', hi'⟩


/-- The encoding is unambiguous: one state has a given counter value and
    number of references. -/
theorem Encodes.unique {v : CInt} {a b : ActiveState} (h : Encodes v a)
    (hb : v.val = b.count) (hr : b.refs = a.refs) : b = a :=
  Option.some.inj ((decode_of_encodes ⟨hb, hr ▸ h.2⟩).symm.trans (decode_of_encodes h))

/-- Along every run in which fewer than `-BUS1_ACTIVE_BIAS` references are
    held at once, the counter decodes to exactly one lifecycle state, whose
    `k` is the number of references held (none outside ACTIVE and DRAINING),
    and every step moves that state by at most one lifecycle transition. -/
theorem counter_refines_lifecycle {s : State} {es : List Ev} (h : Reachable Bounded s es) :
    (∃ a, decode s.count = some a ∧ a.refs = s.holders.length ∧
        ∀ b : ActiveState, b.count = s.count.val → b.refs = s.holders.length → b = a) ∧
    ∀ act s' evs, act.Allowed s → step s act = some (s', evs) → Bounded s' →
      ∃ a a', decode s.count = some a ∧ decode s'.count = some a' ∧ (a' = a ∨ a.Step a') := by
  obtain ⟨a, hi⟩ := reachable_countInv h
  refine ⟨⟨a, decode_of_encodes hi.encodes, hi.refs, fun b hb hr =>
    hi.encodes.unique hb.symm (hr.trans hi.refs.symm)⟩, fun act s' evs ha hs hb => ?_⟩
  obtain ⟨a', hi', hsa⟩ := hi.step ha hs hb
  exact ⟨a, a', decode_of_encodes hi.encodes, decode_of_encodes hi'.encodes, hsa⟩

/-- In the run of `reachable_release_pending` the counter decodes to
    DRAINING(1), with the one reference thread 1 holds, and thread 1's
    decrement is the transition to DRAINING(0). -/
theorem counter_refines_lifecycle_release :
    ∃ s es, Reachable Bounded s es ∧ s.holders = [1] ∧
      (∃ a, decode s.count = some a ∧ a.refs = s.holders.length ∧ a = .draining 1) ∧
      ∃ s' evs, step s (.next 1) = some (s', evs) ∧ Bounded s' ∧
        ∃ a a', decode s.count = some a ∧ decode s'.count = some a' ∧
          a.Step a' ∧ a' = .draining 0 := by
  obtain ⟨s, es, h, hc, hh, -, -, hs, hb⟩ := reachable_release_pending
  have hd : decode s.count = some (.draining 1) := by rw [hc]; decide
  obtain ⟨⟨a, ha, hr, -⟩, hstep⟩ := counter_refines_lifecycle h
  obtain ⟨b, b', hb₁, hb₂, hst⟩ := hstep (.next 1) _ _ trivial hs hb
  obtain rfl := Option.some.inj (ha.symm.trans hd)
  obtain rfl := Option.some.inj (hb₁.symm.trans hd)
  obtain rfl : b' = .draining 0 :=
    Option.some.inj (hb₂.symm.trans (show decode BIAS = some (.draining 0) by decide))
  exact ⟨s, es, h, hh, ⟨_, ha, hr, rfl⟩, _, _, hs, hb, _, _, hb₁, hb₂,
    hst.resolve_left (by decide), rfl⟩

end Bus1.Active
