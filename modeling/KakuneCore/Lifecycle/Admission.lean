import KakuneCore.Lifecycle.Basic
import KakuneCore.Relational.Runs

/-!
# Execution admission and drain

`AdmissionCoordinator` counts the accepted work by its state, `TaskPermit` is the registration of
one piece of work, and `CoreLifecycle` publishes the phase of the Core. Every method is a sequence
of **atomic steps**: one critical section of the coordinator's lock, or one access of an atomic.
Threads take their steps in any order.

The counters are the numbers of live permits, a sealed admission stays sealed, and a phase that has
stopped or failed is final for readiness. `release_after_drain` looks at the counters once: what it
saw lasts until it returns only if admission had been closed before.
-/

namespace KakuneCore

/-! ### The coordinator -/

/-- The counters are `usize` in the code. Every permit holds a handle of the coordinator, and the
program is aborted before `2 ^ 63` handles exist, so that no counter overflows. -/
structure AdmissionSnapshot where
  accepting : Bool := false
  preparation : Nat := 0
  queued : Nat := 0
  active : Nat := 0
  deriving DecidableEq, Repr

namespace AdmissionSnapshot

/-- `usize::saturating_add`. -/
def saturatingAdd (m n : Nat) : Nat := min (m + n) (2 ^ 64 - 1)

def outstanding (snapshot : AdmissionSnapshot) : Nat :=
  saturatingAdd (saturatingAdd snapshot.preparation snapshot.queued) snapshot.active

def isDrained (snapshot : AdmissionSnapshot) : Bool := snapshot.outstanding = 0

def count (snapshot : AdmissionSnapshot) : TrackedExecutionState → Nat
  | .preparation => snapshot.preparation
  | .queued => snapshot.queued
  | .active => snapshot.active

def increment (snapshot : AdmissionSnapshot) : TrackedExecutionState → AdmissionSnapshot
  | .preparation => { snapshot with preparation := snapshot.preparation + 1 }
  | .queued => { snapshot with queued := snapshot.queued + 1 }
  | .active => { snapshot with active := snapshot.active + 1 }

/-- The subtraction saturates at zero. -/
def decrement (snapshot : AdmissionSnapshot) : TrackedExecutionState → AdmissionSnapshot
  | .preparation => { snapshot with preparation := snapshot.preparation - 1 }
  | .queued => { snapshot with queued := snapshot.queued - 1 }
  | .active => { snapshot with active := snapshot.active - 1 }

variable {snapshot : AdmissionSnapshot} {state state' : TrackedExecutionState}

theorem count_increment :
    (snapshot.increment state).count state' =
      snapshot.count state' + if state = state' then 1 else 0 := by
  cases state <;> cases state' <;> rfl

theorem count_decrement :
    (snapshot.decrement state).count state' =
      snapshot.count state' - if state = state' then 1 else 0 := by
  cases state <;> cases state' <;> rfl

@[simp]
theorem accepting_increment : (snapshot.increment state).accepting = snapshot.accepting := by
  cases state <;> rfl

@[simp]
theorem accepting_decrement : (snapshot.decrement state).accepting = snapshot.accepting := by
  cases state <;> rfl

theorem isDrained_iff : snapshot.isDrained = true ↔ ∀ state, snapshot.count state = 0 := by
  unfold isDrained outstanding saturatingAdd
  rw [decide_eq_true_iff]
  constructor
  · intro h state
    cases state <;> simp only [count] <;> omega
  · intro h
    have hpreparation := h .preparation
    have hqueued := h .queued
    have hactive := h .active
    simp only [count] at hpreparation hqueued hactive
    omega

end AdmissionSnapshot

/-- `State`, what the lock of the coordinator guards. -/
structure AdmissionCoordinator where
  snapshot : AdmissionSnapshot
  sealed : Bool := false
  deriving DecidableEq, Repr

/-- `TaskPermit`, but for its handle of the coordinator. -/
structure TaskPermit where
  state : TrackedExecutionState
  released : Bool := false
  deriving DecidableEq, Repr

namespace AdmissionCoordinator

def new : AdmissionCoordinator where
  snapshot := { accepting := true }

def closed : AdmissionCoordinator where
  snapshot := {}

variable (coordinator : AdmissionCoordinator)

def openAdmission : Except LifecycleError AdmissionCoordinator :=
  if coordinator.sealed then
    .error (.unsafeOwnership "execution admission cannot reopen after shutdown begins")
  else .ok { coordinator with snapshot := { coordinator.snapshot with accepting := true } }

/-- `AdmissionCoordinator::admit`. -/
def admitTask (state : TrackedExecutionState) :
    Except LifecycleError (TaskPermit × AdmissionCoordinator) :=
  if coordinator.snapshot.accepting = false then
    .error (.unsafeOwnership "execution admission is closed")
  else .ok ({ state }, { coordinator with snapshot := coordinator.snapshot.increment state })

def closeAdmission : AdmissionSnapshot × AdmissionCoordinator :=
  let snapshot := { coordinator.snapshot with accepting := false }
  (snapshot, { snapshot, sealed := true })

end AdmissionCoordinator

namespace TaskPermit

variable (permit : TaskPermit) (coordinator : AdmissionCoordinator)

def transition (next : TrackedExecutionState) :
    Except LifecycleError (TaskPermit × AdmissionCoordinator) :=
  if permit.state.mayMoveTo next = false then
    .error (.unsafeOwnership "invalid execution admission state transition")
  else .ok ({ permit with state := next },
    { coordinator with
      snapshot := (coordinator.snapshot.decrement permit.state).increment next })

/-- `release_inner`, of `release` and of `drop`. -/
def release : TaskPermit × AdmissionCoordinator :=
  if permit.released then (permit, coordinator)
  else ({ permit with released := true },
    { coordinator with snapshot := coordinator.snapshot.decrement permit.state })

end TaskPermit

/-! ### The lifecycle -/

inductive LifecyclePhase
  | starting
  | ready
  | stopping
  | failed
  deriving DecidableEq, Repr

/-- The atomic step that a method in flight takes next. -/
inductive LifecycleStep
  /-- `mark_ready`. -/
  | openForReadiness
  | publishReady
  /-- `begin_stopping`, or `mark_failed`. -/
  | close (failed : Bool)
  | requestShutdown (failed : Bool)
  | publishStopping
  | restoreFailed
  | publishFailed
  /-- `release_after_drain`. -/
  | checkDrained
  | removeRecord
  deriving DecidableEq, Repr

/-- The first steps of the methods. -/
inductive LifecycleMethod
  | markReady
  | beginStopping
  | markFailed
  | releaseAfterDrain
  deriving DecidableEq, Repr

def LifecycleMethod.start : LifecycleMethod → LifecycleStep
  | .markReady => .openForReadiness
  | .beginStopping => .close false
  | .markFailed => .close true
  | .releaseAfterDrain => .checkDrained

/-- A Core: its shared state, the permits that it has handed out, and the method each thread is
in. -/
structure CoreLifecycle where
  phase : LifecyclePhase
  admission : AdmissionCoordinator
  shutdownRequested : Bool := false
  permits : List TaskPermit := []
  threads : Nat → Option LifecycleStep := fun _ => none

inductive LifecycleEvent
  | admitTask (state : TrackedExecutionState)
  | transition (permit : Nat) (next : TrackedExecutionState)
  | release (permit : Nat)
  | openAdmission
  | closeAdmission
  /-- A thread that is in no method calls one. -/
  | call (thread : Nat) (method : LifecycleMethod)
  /-- A thread takes the next step. The removal of the record may fail. -/
  | advance (thread : Nat) (fault : Option LifecycleError)

/-- What a step returns to the caller of the method it completes: nothing while the method goes
on. -/
abbrev Returned : Type := Option (Except LifecycleError Unit)

namespace CoreLifecycle

def starting : CoreLifecycle where
  phase := .starting
  admission := .closed

def ready : CoreLifecycle where
  phase := .ready
  admission := .new

variable (core : CoreLifecycle)

/-- A thread goes on, or leaves its method. -/
def goTo (thread : Nat) (next : Option LifecycleStep) : CoreLifecycle :=
  { core with threads := Function.update core.threads thread next }

/-- The step of a method. -/
def take (thread : Nat) (fault : Option LifecycleError) :
    LifecycleStep → CoreLifecycle × Returned
  | .openForReadiness =>
    match core.admission.openAdmission with
    | .error error => (core.goTo thread none, some (.error error))
    | .ok admission => ({ core with admission }.goTo thread (some .publishReady), none)
  | .publishReady =>
    -- `compare_exchange`
    if core.phase = .starting then
      ({ core with phase := .ready }.goTo thread none, some (.ok ()))
    else
      (core.goTo thread none,
        some (.error (.unsafeOwnership "Core readiness can only be published while starting")))
  | .close failed =>
    ({ core with admission := core.admission.closeAdmission.2 }.goTo thread
      (some (.requestShutdown failed)), none)
  | .requestShutdown failed =>
    ({ core with shutdownRequested := true }.goTo thread
      (some (if failed then .publishFailed else .publishStopping)), none)
  | .publishStopping =>
    -- `swap`, which returns the phase before
    if core.phase = .failed then
      ({ core with phase := .stopping }.goTo thread (some .restoreFailed), none)
    else ({ core with phase := .stopping }.goTo thread none, some (.ok ()))
  | .restoreFailed => ({ core with phase := .failed }.goTo thread none, some (.ok ()))
  | .publishFailed => ({ core with phase := .failed }.goTo thread none, some (.ok ()))
  | .checkDrained =>
    if core.admission.snapshot.isDrained then (core.goTo thread (some .removeRecord), none)
    else
      (core.goTo thread none, some (.error (.unsafeOwnership
        "runtime ownership cannot be released while accepted work remains")))
  | .removeRecord =>
    match fault with
    | some error => (core.goTo thread none, some (.error error))
    | none => (core.goTo thread none, some (.ok ()))

/-- One event. A permit that was released is gone, and so is one that was never handed out. -/
def step : LifecycleEvent → CoreLifecycle × Returned
  | .admitTask state =>
    match core.admission.admitTask state with
    | .error error => (core, some (.error error))
    | .ok (permit, admission) =>
      ({ core with admission, permits := core.permits ++ [permit] }, some (.ok ()))
  | .transition index next =>
    match core.permits[index]?.filter fun permit => !permit.released with
    | none => (core, none)
    | some permit =>
      match permit.transition core.admission next with
      | .error error => (core, some (.error error))
      | .ok (permit, admission) =>
        ({ core with admission, permits := core.permits.set index permit }, some (.ok ()))
  | .release index =>
    match core.permits[index]? with
    | none => (core, none)
    | some permit =>
      let (permit, admission) := permit.release core.admission
      ({ core with admission, permits := core.permits.set index permit }, some (.ok ()))
  | .openAdmission =>
    match core.admission.openAdmission with
    | .error error => (core, some (.error error))
    | .ok admission => ({ core with admission }, some (.ok ()))
  | .closeAdmission => ({ core with admission := core.admission.closeAdmission.2 }, some (.ok ()))
  | .call thread method =>
    match core.threads thread with
    | none => (core.goTo thread (some method.start), none)
    | some _ => (core, none)
  | .advance thread fault =>
    match core.threads thread with
    | none => (core, none)
    | some next => core.take thread fault next

/-- The Core after a sequence of events. -/
def after (events : List LifecycleEvent) : CoreLifecycle :=
  Runs.run (fun core event => (core.step event).1) core events

end CoreLifecycle

/-! ### The coordinator keeps account -/

/-- The permits that are live in a state. -/
def TaskPermit.isLiveIn (state : TrackedExecutionState) (permit : TaskPermit) : Bool :=
  !permit.released && permit.state = state

/-- The counters are the numbers of live permits, and what was closed for good is closed. -/
structure AdmissionCoordinator.Accounts (coordinator : AdmissionCoordinator)
    (permits : List TaskPermit) : Prop where
  counted : ∀ state, coordinator.snapshot.count state = permits.countP (TaskPermit.isLiveIn state)
  closed : coordinator.sealed = true → coordinator.snapshot.accepting = false

namespace AdmissionCoordinator

variable {coordinator coordinator' : AdmissionCoordinator} {permits : List TaskPermit}
  {permit permit' : TaskPermit} {state next : TrackedExecutionState} {index : Nat}

theorem openAdmission_eq_ok (h : coordinator.openAdmission = .ok coordinator') :
    coordinator.sealed = false ∧ coordinator' =
      { coordinator with snapshot := { coordinator.snapshot with accepting := true } } := by
  unfold openAdmission at h
  by_cases hclosed : coordinator.sealed = true
  · rw [if_pos hclosed] at h
    cases h
  · rw [if_neg hclosed] at h
    exact ⟨Bool.not_eq_true _ ▸ hclosed, (Except.ok.inj h).symm⟩

theorem admitTask_eq_ok (h : coordinator.admitTask state = .ok (permit, coordinator')) :
    coordinator.snapshot.accepting = true ∧ permit = { state } ∧
      coordinator' = { coordinator with snapshot := coordinator.snapshot.increment state } := by
  unfold admitTask at h
  by_cases haccepting : coordinator.snapshot.accepting = false
  · rw [if_pos haccepting] at h
    cases h
  · rw [if_neg haccepting] at h
    cases h
    exact ⟨by simpa using haccepting, rfl, rfl⟩

theorem transition_eq_ok (h : permit.transition coordinator next = .ok (permit', coordinator')) :
    permit' = { permit with state := next } ∧ coordinator' = { coordinator with
      snapshot := (coordinator.snapshot.decrement permit.state).increment next } := by
  unfold TaskPermit.transition at h
  by_cases hallowed : permit.state.mayMoveTo next = false
  · rw [if_pos hallowed] at h
    cases h
  · rw [if_neg hallowed] at h
    cases h
    exact ⟨rfl, rfl⟩

/-- The counter of a live permit is positive, so that its decrement does not saturate. -/
theorem Accounts.count_pos (h : coordinator.Accounts permits) (hmem : permit ∈ permits)
    (hlive : permit.released = false) : 0 < coordinator.snapshot.count permit.state := by
  rw [h.counted, List.countP_pos_iff]
  exact ⟨permit, hmem, by simp [TaskPermit.isLiveIn, hlive]⟩

/-- The coordinator is drained when no permit is live. -/
theorem Accounts.isDrained_iff (h : coordinator.Accounts permits) :
    coordinator.snapshot.isDrained = true ↔ ∀ permit ∈ permits, permit.released = true := by
  rw [AdmissionSnapshot.isDrained_iff]
  constructor
  · intro hzero permit hmem
    by_contra hlive
    have hpos := h.count_pos hmem (by simpa using hlive)
    have := hzero permit.state
    omega
  · intro hall state
    rw [h.counted, List.countP_eq_zero]
    intro permit hmem
    simp [TaskPermit.isLiveIn, hall permit hmem]

theorem Accounts.admitTask (h : coordinator.Accounts permits)
    (htask : coordinator.admitTask state = .ok (permit, coordinator')) :
    coordinator'.Accounts (permits ++ [permit]) := by
  obtain ⟨haccepting, rfl, rfl⟩ := admitTask_eq_ok htask
  refine ⟨fun other => ?_, fun hclosed => ?_⟩
  · have hcounted := h.counted other
    rw [List.countP_append, ← hcounted, AdmissionSnapshot.count_increment]
    by_cases heq : state = other <;> simp [TaskPermit.isLiveIn, heq]
  · have hnot := h.closed hclosed
    rw [haccepting] at hnot
    cases hnot

/-- A live permit moves from one counter to another. -/
theorem Accounts.transition (h : coordinator.Accounts permits)
    (hpermit : permits[index]? = some permit)
    (hlive : permit.released = false)
    (htransition : permit.transition coordinator next = .ok (permit', coordinator')) :
    coordinator'.Accounts (permits.set index permit') := by
  obtain ⟨rfl, rfl⟩ := transition_eq_ok htransition
  obtain ⟨hindex, rfl⟩ := List.getElem?_eq_some_iff.mp hpermit
  refine ⟨fun other => ?_, fun hclosed => ?_⟩
  · have hcounted := h.counted other
    rw [List.countP_set hindex, ← hcounted, AdmissionSnapshot.count_increment,
      AdmissionSnapshot.count_decrement]
    simp only [TaskPermit.isLiveIn, hlive, Bool.not_false, Bool.true_and, decide_eq_true_eq]
  · rw [AdmissionSnapshot.accepting_increment, AdmissionSnapshot.accepting_decrement]
    exact h.closed hclosed

theorem Accounts.release (h : coordinator.Accounts permits)
    (hpermit : permits[index]? = some permit) :
    (permit.release coordinator).2.Accounts (permits.set index (permit.release coordinator).1) := by
  obtain ⟨hindex, rfl⟩ := List.getElem?_eq_some_iff.mp hpermit
  unfold TaskPermit.release
  by_cases hreleased : permits[index].released = true
  · rw [if_pos hreleased, List.set_getElem_self]
    exact h
  · rw [if_neg hreleased]
    refine ⟨fun other => ?_, fun hclosed => ?_⟩
    · have hcounted := h.counted other
      rw [List.countP_set hindex, ← hcounted, AdmissionSnapshot.count_decrement]
      simp [TaskPermit.isLiveIn, hreleased]
    · rw [AdmissionSnapshot.accepting_decrement]
      exact h.closed hclosed

theorem Accounts.openAdmission (h : coordinator.Accounts permits)
    (hopen : coordinator.openAdmission = .ok coordinator') : coordinator'.Accounts permits := by
  obtain ⟨hnot, rfl⟩ := openAdmission_eq_ok hopen
  refine ⟨fun other => ?_, fun hclosed => ?_⟩
  · rw [← h.counted other]
    cases other <;> rfl
  · exact absurd hclosed (Bool.eq_false_iff.mp hnot)

theorem Accounts.closeAdmission (h : coordinator.Accounts permits) :
    coordinator.closeAdmission.2.Accounts permits := by
  refine ⟨fun other => ?_, fun _ => rfl⟩
  rw [← h.counted other]
  cases other <;> rfl

/-- Closed admission refuses. -/
theorem Accounts.refuses (h : coordinator.Accounts permits)
    (hclosed : coordinator.sealed = true) :
    coordinator.openAdmission = .error (.unsafeOwnership
        "execution admission cannot reopen after shutdown begins") ∧
      ∀ state, coordinator.admitTask state =
        .error (.unsafeOwnership "execution admission is closed") :=
  ⟨if_pos hclosed, fun _ => if_pos (h.closed hclosed)⟩

end AdmissionCoordinator

end KakuneCore
