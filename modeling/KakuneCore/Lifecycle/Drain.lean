import KakuneCore.Lifecycle.Admission

/-!
# Drain accounting

The invariant of a Core under every order of steps, and what a step may change: permits and phases
move, **but a sealed admission, a phase that stopped and a drain behind a sealed admission stay**.
-/

namespace KakuneCore

/-- Phases after which the Core is never ready again. -/
def LifecyclePhase.Stopped (phase : LifecyclePhase) : Prop := phase = .stopping ∨ phase = .failed

/-- Steps of `begin_stopping` and `mark_failed` behind the closing of admission. -/
def LifecycleStep.Stops : LifecycleStep → Prop
  | .requestShutdown _ | .publishStopping | .restoreFailed | .publishFailed => True
  | _ => False

namespace CoreLifecycle

/-- No permit is live. -/
def Idle (core : CoreLifecycle) : Prop := ∀ permit ∈ core.permits, permit.released = true

/-- The invariant of a Core. -/
structure Sound (core : CoreLifecycle) : Prop where
  accounts : core.admission.Accounts core.permits
  stopped : core.phase.Stopped → core.admission.sealed = true
  stopping : ∀ thread next, core.threads thread = some next → next.Stops →
    core.admission.sealed = true

/-- What no step undoes. -/
structure Keeps (core core' : CoreLifecycle) : Prop where
  closed : core.admission.sealed = true → core'.admission.sealed = true
  stopped : core.phase.Stopped → core'.phase.Stopped
  idle : core.admission.sealed = true → core.Idle → core'.Idle

variable {core core' core'' : CoreLifecycle} {thread : Nat} {next : LifecycleStep}
  {fault : Option LifecycleError}

theorem Keeps.refl (core : CoreLifecycle) : Keeps core core := ⟨id, id, fun _ => id⟩

theorem Keeps.trans (h : Keeps core core') (h' : Keeps core' core'') : Keeps core core'' :=
  ⟨fun hc => h'.closed (h.closed hc), fun hs => h'.stopped (h.stopped hs),
    fun hc hi => h'.idle (h.closed hc) (h.idle hc hi)⟩

/-- A thread may go on to a step of stopping once admission is closed. -/
theorem Sound.goTo (h : core.Sound) {after : Option LifecycleStep}
    (hafter : ∀ next, after = some next → next.Stops → core.admission.sealed = true) :
    (core.goTo thread after).Sound := by
  refine ⟨h.accounts, h.stopped, fun other next hnext hstops => ?_⟩
  change Function.update core.threads thread after other = some next at hnext
  by_cases heq : other = thread
  · subst heq
    rw [Function.update_self] at hnext
    exact hafter next hnext hstops
  · rw [Function.update_of_ne heq] at hnext
    exact h.stopping other next hnext hstops

/-- Opening and closing change neither permits nor counters. -/
theorem Sound.setAdmission (h : core.Sound) {admission : AdmissionCoordinator}
    (haccounts : admission.Accounts core.permits)
    (hclosed : core.admission.sealed = true → admission.sealed = true) :
    ({ core with admission } : CoreLifecycle).Sound ∧ Keeps core { core with admission } :=
  ⟨⟨haccounts, fun hs => hclosed (h.stopped hs), fun t n hn hs => hclosed (h.stopping t n hn hs)⟩,
    hclosed, id, fun _ => id⟩

/-- A phase may be published if it is final or the phase before was not. -/
theorem Sound.setPhase (h : core.Sound) (phase : LifecyclePhase)
    (hclosed : phase.Stopped → core.admission.sealed = true)
    (hfinal : core.phase.Stopped → phase.Stopped) :
    ({ core with phase } : CoreLifecycle).Sound ∧ Keeps core { core with phase } :=
  ⟨⟨h.accounts, hclosed, h.stopping⟩, id, hfinal, fun _ => id⟩

/-- **A step of a method.** -/
theorem Sound.take (h : core.Sound) (hnext : core.threads thread = some next) :
    (core.take thread fault next).1.Sound ∧ Keeps core (core.take thread fault next).1 := by
  have hleave : (core.goTo thread none).Sound ∧ Keeps core (core.goTo thread none) :=
    ⟨h.goTo fun _ hnone => (Option.some_ne_none _ hnone.symm).elim, id, id, fun _ => id⟩
  cases next with
  | openForReadiness =>
    rw [CoreLifecycle.take]
    cases hopen : core.admission.openAdmission with
    | error error => exact hleave
    | ok admission =>
      obtain ⟨hnot, rfl⟩ := AdmissionCoordinator.openAdmission_eq_ok hopen
      obtain ⟨hsound, hkeeps⟩ := h.setAdmission (h.accounts.openAdmission hopen) id
      refine ⟨hsound.goTo fun next hnext hstops => ?_, hkeeps.closed, hkeeps.stopped, hkeeps.idle⟩
      cases hnext
      exact hstops.elim
  | publishReady =>
    rw [CoreLifecycle.take]
    by_cases hstarting : core.phase = .starting
    · rw [if_pos hstarting]
      have hready : ¬ LifecyclePhase.ready.Stopped := by simp [LifecyclePhase.Stopped]
      have hnot : ¬ core.phase.Stopped := by simp [LifecyclePhase.Stopped, hstarting]
      obtain ⟨hsound, hkeeps⟩ :=
        h.setPhase .ready (fun hs => absurd hs hready) fun hs => absurd hs hnot
      exact ⟨hsound.goTo fun _ hnone => (Option.some_ne_none _ hnone.symm).elim, hkeeps.closed,
        hkeeps.stopped, hkeeps.idle⟩
    · rw [if_neg hstarting]
      exact hleave
  | close failed =>
    obtain ⟨hsound, hkeeps⟩ := h.setAdmission h.accounts.closeAdmission fun _ => rfl
    exact ⟨hsound.goTo fun _ _ _ => rfl, hkeeps.closed, hkeeps.stopped, hkeeps.idle⟩
  | requestShutdown failed =>
    have hclosed := h.stopping thread _ hnext trivial
    have hsound : ({ core with shutdownRequested := true } : CoreLifecycle).Sound :=
      ⟨h.accounts, h.stopped, h.stopping⟩
    exact ⟨hsound.goTo fun _ _ _ => hclosed, id, id, fun _ => id⟩
  | publishStopping =>
    have hclosed := h.stopping thread _ hnext trivial
    obtain ⟨hsound, hkeeps⟩ := h.setPhase .stopping (fun _ => hclosed) fun _ => .inl rfl
    rw [CoreLifecycle.take]
    by_cases hfailed : core.phase = .failed
    · rw [if_pos hfailed]
      exact ⟨hsound.goTo fun _ _ _ => hclosed, hkeeps.closed, hkeeps.stopped, hkeeps.idle⟩
    · rw [if_neg hfailed]
      exact ⟨hsound.goTo fun _ _ _ => hclosed, hkeeps.closed, hkeeps.stopped, hkeeps.idle⟩
  | restoreFailed | publishFailed =>
    have hclosed := h.stopping thread _ hnext trivial
    obtain ⟨hsound, hkeeps⟩ := h.setPhase .failed (fun _ => hclosed) fun _ => .inr rfl
    exact ⟨hsound.goTo fun _ _ _ => hclosed, hkeeps.closed, hkeeps.stopped, hkeeps.idle⟩
  | checkDrained =>
    rw [CoreLifecycle.take]
    by_cases hdrained : core.admission.snapshot.isDrained = true
    · rw [if_pos hdrained]
      refine ⟨h.goTo fun next hnext hstops => ?_, id, id, fun _ => id⟩
      cases hnext
      exact hstops.elim
    · rw [if_neg hdrained]
      exact hleave
  | removeRecord => cases fault <;> exact hleave

/-- **A step of the Core.** -/
theorem Sound.step (h : core.Sound) (event : LifecycleEvent) :
    (core.step event).1.Sound ∧ Keeps core (core.step event).1 := by
  have hstay : core.Sound ∧ Keeps core core := ⟨h, .refl core⟩
  cases event with
  | admitTask state =>
    rw [CoreLifecycle.step]
    cases htask : core.admission.admitTask state with
    | error error => exact hstay
    | ok result =>
      obtain ⟨permit, admission⟩ := result
      have haccounts := h.accounts.admitTask htask
      obtain ⟨haccepting, rfl, rfl⟩ := AdmissionCoordinator.admitTask_eq_ok htask
      refine ⟨⟨haccounts, h.stopped, h.stopping⟩, id, id, fun hclosed => ?_⟩
      -- a closed admission accepts nothing
      rw [h.accounts.closed hclosed] at haccepting
      cases haccepting
  | transition index next =>
    rw [CoreLifecycle.step]
    cases hpermit : core.permits[index]?.filter fun permit => !permit.released with
    | none => exact hstay
    | some permit =>
      obtain ⟨hindex, hlive⟩ := Option.filter_eq_some_iff.mp hpermit
      have hlive : permit.released = false := by simpa using hlive
      dsimp only
      cases htransition : permit.transition core.admission next with
      | error error => exact hstay
      | ok result =>
        obtain ⟨permit', admission⟩ := result
        have haccounts := h.accounts.transition hindex hlive htransition
        obtain ⟨rfl, rfl⟩ := AdmissionCoordinator.transition_eq_ok htransition
        refine ⟨⟨haccounts, h.stopped, h.stopping⟩, id, id, fun _ hidle => ?_⟩
        rw [hidle permit (List.mem_of_getElem? hindex)] at hlive
        cases hlive
  | release index =>
    rw [CoreLifecycle.step]
    cases hindex : core.permits[index]? with
    | none => exact hstay
    | some permit =>
      have haccounts := h.accounts.release hindex
      have hsame : (permit.release core.admission).2.sealed = core.admission.sealed ∧
          (permit.release core.admission).1.released = true := by
        unfold TaskPermit.release
        by_cases hreleased : permit.released = true
        · rw [if_pos hreleased]
          exact ⟨rfl, hreleased⟩
        · rw [if_neg hreleased]
          exact ⟨rfl, rfl⟩
      refine ⟨⟨haccounts, fun hs => ?_, fun t n hn hs => ?_⟩, fun hc => ?_, id, fun _ hidle => ?_⟩
      · exact hsame.1.trans (h.stopped hs)
      · exact hsame.1.trans (h.stopping t n hn hs)
      · exact hsame.1.trans hc
      · intro other hother
        obtain hmem | rfl := List.mem_or_eq_of_mem_set hother
        · exact hidle other hmem
        · exact hsame.2
  | openAdmission =>
    rw [CoreLifecycle.step]
    cases hopen : core.admission.openAdmission with
    | error error => exact hstay
    | ok admission =>
      obtain ⟨hnot, rfl⟩ := AdmissionCoordinator.openAdmission_eq_ok hopen
      exact h.setAdmission (h.accounts.openAdmission hopen) id
  | closeAdmission => exact h.setAdmission h.accounts.closeAdmission fun _ => rfl
  | call thread method =>
    rw [CoreLifecycle.step]
    cases hthread : core.threads thread with
    | some busy => exact hstay
    | none =>
      refine ⟨h.goTo fun next hnext hstops => ?_, id, id, fun _ => id⟩
      cases hnext
      cases method <;> exact hstops.elim
  | advance thread fault =>
    rw [CoreLifecycle.step]
    cases hthread : core.threads thread with
    | none => exact hstay
    | some next => exact h.take hthread

/-! ### Runs -/

/-- What is true of a Core at any moment. -/
structure Accounted (core : CoreLifecycle) : Prop where
  counted : ∀ state, core.admission.snapshot.count state =
    core.permits.countP (TaskPermit.isLiveIn state)
  /-- No decrement saturates. -/
  count_pos : ∀ permit ∈ core.permits, permit.released = false →
    0 < core.admission.snapshot.count permit.state
  isDrained_iff : core.admission.snapshot.isDrained = true ↔ core.Idle
  closed_of_stopped : core.phase.Stopped → core.admission.sealed = true
  open_refused : core.admission.sealed = true → core.admission.openAdmission =
    .error (.unsafeOwnership "execution admission cannot reopen after shutdown begins")
  admission_refused : core.admission.sealed = true → ∀ state, core.admission.admitTask state =
    .error (.unsafeOwnership "execution admission is closed")
  /-- Whoever closes admission finds it closed for good. -/
  closes : core.step .closeAdmission = ((core.step .closeAdmission).1, some (.ok ())) ∧
    (core.step .closeAdmission).1.admission.sealed = true ∧
    ∀ thread failed fault, core.threads thread = some (.close failed) →
      (core.step (.advance thread fault)).1.admission.sealed = true
  /-- `release_after_drain` goes on only if no permit is live. -/
  checked : ∀ thread fault, core.threads thread = some .checkDrained →
    (core.step (.advance thread fault)).1.threads thread = some .removeRecord → core.Idle

theorem Sound.accounted (h : core.Sound) : core.Accounted where
  counted := h.accounts.counted
  count_pos _ hmem hlive := h.accounts.count_pos hmem hlive
  isDrained_iff := h.accounts.isDrained_iff
  closed_of_stopped := h.stopped
  open_refused hclosed := (h.accounts.refuses hclosed).1
  admission_refused hclosed := (h.accounts.refuses hclosed).2
  closes := by
    refine ⟨rfl, rfl, fun thread failed fault hthread => ?_⟩
    rw [CoreLifecycle.step, hthread]
    rfl
  checked thread fault hthread hgoes := by
    rw [CoreLifecycle.step, hthread] at hgoes
    dsimp only at hgoes
    rw [CoreLifecycle.take] at hgoes
    by_cases hdrained : core.admission.snapshot.isDrained = true
    · exact h.accounts.isDrained_iff.mp hdrained
    · rw [if_neg hdrained] at hgoes
      change Function.update core.threads thread none thread = _ at hgoes
      rw [Function.update_self] at hgoes
      cases hgoes

theorem sound_starting : starting.Sound where
  accounts := ⟨fun state => by cases state <;> rfl, fun h => by cases h⟩
  stopped h := by simp [LifecyclePhase.Stopped, starting] at h
  stopping _ _ h := by cases h

theorem sound_ready : ready.Sound where
  accounts := ⟨fun state => by cases state <;> rfl, fun h => by cases h⟩
  stopped h := by simp [LifecyclePhase.Stopped, ready] at h
  stopping _ _ h := by cases h

theorem after_append (events later : List LifecycleEvent) :
    core.after (events ++ later) = (core.after events).after later := Runs.run_append

theorem Sound.after (h : core.Sound) (events : List LifecycleEvent) : (core.after events).Sound :=
  Runs.invariant events h fun _ event hsound => (hsound.step event).1

theorem Sound.keeps_after (h : core.Sound) (events : List LifecycleEvent) :
    Keeps core (core.after events) :=
  Runs.relates events Keeps.refl Keeps.trans h (fun _ event hsound => (hsound.step event).1)
    fun _ event hsound => (hsound.step event).2

/-- A thread comes to the removal of the record only from the check of the counters. -/
theorem threads_removeRecord {event : LifecycleEvent}
    (h : (core.step event).1.threads thread = some .removeRecord) :
    core.threads thread = some .removeRecord ∨
      core.threads thread = some .checkDrained ∧ ∃ fault, event = .advance thread fault := by
  have hother : ∀ {core' : CoreLifecycle} {other : Nat} {step : Option LifecycleStep},
      core'.threads = core.threads → step ≠ some .removeRecord →
      (core'.goTo other step).threads thread = some .removeRecord →
        core.threads thread = some .removeRecord := by
    intro core' other step hsame hne hgoes
    change Function.update core'.threads other step thread = _ at hgoes
    by_cases heq : thread = other
    · subst heq
      rw [Function.update_self] at hgoes
      exact absurd hgoes hne
    · rwa [Function.update_of_ne heq, hsame] at hgoes
  cases event with
  | admitTask state =>
    rw [CoreLifecycle.step] at h
    cases htask : core.admission.admitTask state <;> rw [htask] at h <;> exact .inl h
  | transition index next =>
    rw [CoreLifecycle.step] at h
    cases hpermit : core.permits[index]?.filter fun permit => !permit.released with
    | none =>
      rw [hpermit] at h
      exact .inl h
    | some permit =>
      rw [hpermit] at h
      dsimp only at h
      cases htransition : permit.transition core.admission next <;> rw [htransition] at h <;>
        exact .inl h
  | release index =>
    rw [CoreLifecycle.step] at h
    cases hindex : core.permits[index]? <;> rw [hindex] at h <;> exact .inl h
  | openAdmission =>
    rw [CoreLifecycle.step] at h
    cases hopen : core.admission.openAdmission <;> rw [hopen] at h <;> exact .inl h
  | closeAdmission => exact .inl h
  | call other method =>
    rw [CoreLifecycle.step] at h
    cases hthread : core.threads other with
    | some busy =>
      rw [hthread] at h
      exact .inl h
    | none =>
      rw [hthread] at h
      exact .inl (hother rfl (by cases method <;> simp [LifecycleMethod.start]) h)
  | advance other fault =>
    rw [CoreLifecycle.step] at h
    cases hthread : core.threads other with
    | none =>
      rw [hthread] at h
      exact .inl h
    | some next =>
      rw [hthread] at h
      dsimp only at h
      cases next with
      | openForReadiness =>
        rw [CoreLifecycle.take] at h
        cases hopen : core.admission.openAdmission <;> rw [hopen] at h <;>
          exact .inl (hother rfl (by simp) h)
      | publishReady =>
        rw [CoreLifecycle.take] at h
        split at h <;> exact .inl (hother rfl (by simp) h)
      | close failed => exact .inl (hother rfl (by simp) h)
      | requestShutdown failed => exact .inl (hother rfl (by cases failed <;> simp) h)
      | publishStopping =>
        rw [CoreLifecycle.take] at h
        split at h <;> exact .inl (hother rfl (by simp) h)
      | restoreFailed | publishFailed => exact .inl (hother rfl (by simp) h)
      | checkDrained =>
        by_cases heq : thread = other
        · subst heq
          exact .inr ⟨hthread, fault, rfl⟩
        · left
          rw [CoreLifecycle.take] at h
          split at h <;> exact (Function.update_of_ne heq _ _).symm.trans h
      | removeRecord => cases fault <;> exact .inl (hother rfl (by simp) h)

/-- Behind a sealed admission, the check of `release_after_drain` lasts. -/
theorem Sound.idle_after (h : core.Sound) (hclosed : core.admission.sealed = true)
    (hthread : core.threads thread = some .removeRecord → core.Idle)
    (events : List LifecycleEvent) :
    (core.after events).threads thread = some .removeRecord → (core.after events).Idle := by
  let Inv : CoreLifecycle → Prop := fun core => core.Sound ∧ core.admission.sealed = true ∧
    (core.threads thread = some .removeRecord → core.Idle)
  have hinv : Inv (core.after events) := by
    refine Runs.invariant events ⟨h, hclosed, hthread⟩ fun core event hcore => ?_
    obtain ⟨hsound, hclosed, hidle⟩ := hcore
    obtain ⟨hsound', hkeeps⟩ := hsound.step event
    refine ⟨hsound', hkeeps.closed hclosed, fun hremove => hkeeps.idle hclosed ?_⟩
    obtain hremoves | ⟨hchecks, fault, rfl⟩ := threads_removeRecord hremove
    · exact hidle hremoves
    · exact hsound.accounted.checked thread fault hchecks hremove
  exact hinv.2.2

end CoreLifecycle

/-- **Drain accounting**, over every order of steps: the counters are the numbers of live permits, a
sealed admission refuses and stays drained, phases that stopped are final, and what
`release_after_drain` saw behind a sealed admission is true until it returns. -/
theorem drain_accounting (start : CoreLifecycle) (hstart : start = .starting ∨ start = .ready)
    (events later : List LifecycleEvent) :
    (start.after events).Accounted ∧
      CoreLifecycle.Keeps (start.after events) (start.after (events ++ later)) ∧
      ((start.after events).admission.sealed = true → ∀ thread,
        (start.after events).threads thread ≠ some .removeRecord →
        (start.after (events ++ later)).threads thread = some .removeRecord →
          (start.after (events ++ later)).Idle) := by
  have hsound : start.Sound := by
    obtain rfl | rfl := hstart
    · exact CoreLifecycle.sound_starting
    · exact CoreLifecycle.sound_ready
  rw [CoreLifecycle.after_append]
  have hreached := hsound.after events
  refine ⟨hreached.accounted, hreached.keeps_after later, fun hclosed thread hnot hremove => ?_⟩
  exact hreached.idle_after hclosed (fun h => absurd h hnot) later hremove

/-- Work is accepted and the Core stops. -/
theorem ready_core_accounts :
    (CoreLifecycle.ready.after [.admitTask .queued, .call 0 .beginStopping,
      .advance 0 none]).Accounted :=
  (drain_accounting .ready (.inr rfl) _ []).1

/-- The counters are looked at while admission is open, and work is accepted before the record is
removed: the release succeeds, and the permit is live. -/
theorem release_beside_admission :
    let core := CoreLifecycle.ready.after
      [.call 0 .releaseAfterDrain, .advance 0 none, .admitTask .active]
    core.threads 0 = some .removeRecord ∧ (core.step (.advance 0 none)).2 = some (.ok ()) ∧
      ¬ (core.step (.advance 0 none)).1.Idle := by
  refine ⟨rfl, rfl, fun hidle => ?_⟩
  have hlive := hidle { state := .active } (List.mem_singleton.mpr rfl)
  cases hlive

end KakuneCore
