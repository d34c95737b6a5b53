import KakuneCore.Recovery.History
import KakuneCore.Runtime.ActivationCounts
import KakuneCore.Store.StatusMachine

/-!
# Effects over stops and restarts

A row of the checkpoint table that was begun and not completed stops the execution, and one that was
completed gives its result to whoever reads it. An activation that is begun **once** in a session is
therefore never begun again in a later one: this is what keeps the bodies of nodes, and the calls of
external nodes, from being repeated.
-/

namespace KakuneCore

open Proc

/-! ### The row of an id -/

namespace CheckpointTable

/-- What an event does to the row of an id. -/
theorem row_of_take {table table' : CheckpointTable} {now : Int} {e : RunEvent}
    (h : table.take now e = some table') (id : String) :
    (∃ status, e = ⟨.beginCheckpoint id status, .ok ()⟩ ∧ table'.statusOf id = some status) ∨
    (∃ result, e = ⟨.completeCheckpoint id result, .ok ()⟩ ∧
      ∀ row, StrMap.get? table id = some row → StrMap.get? table' id = some { row with
        status := if result.isSome then .completed else .unrecoverable, result }) ∨
    delays id e = true ∨ StrMap.get? table' id = StrMap.get? table id := by
  unfold take at h
  split at h
  · split at h
    · cases h
      exact .inr (.inr (.inr rfl))
    · cases h
  · next id' status =>
    cases h
    by_cases hid : id' = id
    · subst hid
      refine .inl ⟨status, rfl, ?_⟩
      rw [statusOf_beginCheckpoint, if_pos rfl]
    · refine .inr (.inr (.inr ?_))
      unfold beginCheckpoint
      split <;> exact StrMap.get?_insert_ne _ hid _
  · next id' result =>
    cases h
    by_cases hid : id' = id
    · subst hid
      refine .inr (.inl ⟨result, rfl, fun row hrow => ?_⟩)
      rw [completeCheckpoint, hrow]
      exact StrMap.get?_insert_self _ _ _
    · refine .inr (.inr (.inr ?_))
      unfold completeCheckpoint
      split
      · exact StrMap.get?_insert_ne _ hid _
      · rfl
  · next id' milliseconds remaining =>
    by_cases hid : id' = id
    · exact .inr (.inr (.inl (decide_eq_true hid)))
    · refine .inr (.inr (.inr ?_))
      split at h
      · next hdelay =>
        split at h
        · cases h
          unfold durableDelayRemaining at hdelay
          split at hdelay
          · cases hdelay
          · split at hdelay
            · cases hdelay
              exact StrMap.get?_insert_ne _ hid _
            · cases hdelay
        · cases h
      · cases h
  · cases h
    exact .inr (.inr (.inr rfl))

/-- An event that neither begins the checkpoint of an id nor comes after that leaves its row
alone. -/
theorem row_eq_of_take {table table' : CheckpointTable} {now : Int} {e : RunEvent} {id : String}
    (h : table.take now e = some table') (hbegins : begins id e = false)
    (hacts : acts id e = false) :
    StrMap.get? table' id = StrMap.get? table id := by
  obtain ⟨status, rfl, -⟩ | ⟨result, rfl, -⟩ | hdelay | hrow := row_of_take h id
  · exact absurd rfl (of_decide_eq_false hbegins)
  · exact absurd rfl (of_decide_eq_false hacts)
  · unfold delays at hdelay
    split at hdelay
    · exact absurd (of_decide_eq_true hdelay) (of_decide_eq_false hacts)
    · cases hdelay
  · exact hrow

end CheckpointTable

theorem eq_of_misses {id : String} {e : RunEvent} (h : misses id e = true) :
    e = ⟨.checkpointResult id, .ok none⟩ := by
  unfold misses at h
  split at h
  · rw [of_decide_eq_true h]
  · cases h

theorem Journal.concat {table table' : CheckpointTable} {t : RunTrace} {e : RunEvent}
    (h : Journal table (t ++ [e]) table') :
    ∃ mid now, Journal table t mid ∧ mid.take now e = some table' := by
  induction t generalizing table with
  | nil =>
    cases h with
    | cons now htake hrest =>
      cases hrest
      exact ⟨table, now, .nil table, htake⟩
  | cons first t ih =>
    cases h with
    | cons now htake hrest =>
      obtain ⟨mid, now', hjournal, hlast⟩ := ih hrest
      exact ⟨mid, now', .cons now htake hjournal, hlast⟩

theorem eq_of_beginsAs {id : String} {status : CheckpointStatus} {e : RunEvent}
    (h : beginsAs id status e = true) : e = ⟨.beginCheckpoint id status, .ok ()⟩ := by
  unfold beginsAs at h
  split at h
  · rw [Bool.and_eq_true, decide_eq_true_eq, decide_eq_true_eq] at h
    rw [h.1, h.2]
  · cases h

/-- A checkpoint is begun with one status. -/
theorem countP_beginsAs_add_le (id : String) (t : RunTrace) :
    t.countP (beginsAs id .running) + t.countP (beginsAs id .waiting) ≤ t.countP (begins id) := by
  induction t with
  | nil => rfl
  | cons e t ih =>
    have hone :
        (if beginsAs id .running e then 1 else 0) + (if beginsAs id .waiting e then 1 else 0) ≤
        if begins id e then 1 else 0 := by
      unfold beginsAs begins
      split
      · next id' status =>
        by_cases hid : id' = id
        · cases status <;> simp [hid]
        · simp [hid]
      · simp
    simp only [List.countP_cons]
    omega

section Sessions

variable {plan : ExecutionPlan} {plugins : PluginRegistry} {limits : ExecutionLimits}
  {serde : SerdeJson}

theorem Session.concat {start table : CheckpointTable} {t : RunTrace} {e : RunEvent}
    (h : Session plan plugins limits serde start (t ++ [e]) table) :
    ∃ mid now, Session plan plugins limits serde start t mid ∧ mid.take now e = some table := by
  obtain ⟨⟨r, hrun⟩, hjournal⟩ := h
  obtain ⟨mid, now, hbefore, htake⟩ := hjournal.concat
  exact ⟨mid, now, ⟨⟨none, hrun.cutAt⟩, hbefore⟩, htake⟩

/-- **A saved result is kept**: a session begins no activation whose result it finds saved. -/
theorem Session.keeps_saved (hfacts : ∀ g, Nested plan.graph g → GraphFacts g)
    {start table : CheckpointTable} {t : RunTrace}
    (h : Session plan plugins limits serde start t table) {id : String} {saved : Value}
    (hsaved : start.checkpointResult id = some saved) :
    t.countP (misses id) = 0 ∧ t.countP (begins id) = 0 ∧ t.countP (acts id) = 0 ∧
      StrMap.get? table id = StrMap.get? start id := by
  induction t using List.reverseRecOn generalizing table with
  | nil =>
    obtain ⟨-, hjournal⟩ := h
    cases hjournal
    exact ⟨rfl, rfl, rfl, rfl⟩
  | append_singleton t e ih =>
    obtain ⟨mid, now, hbefore, htake⟩ := h.concat
    obtain ⟨hmisses, hbegins, hacts, hrow⟩ := ih hbefore
    -- the result is still there when it is read
    have hmiss : misses id e = false := by
      rw [← Bool.not_eq_true]
      intro hmiss
      obtain rfl := eq_of_misses hmiss
      have hread : mid.checkpointResult id = some saved := by
        rw [← hsaved, CheckpointTable.checkpointResult, hrow]
        rfl
      simp [CheckpointTable.take, hread] at htake
    have hmisses' : (t ++ [e]).countP (misses id) = 0 := by
      simp [hmisses, hmiss]
    obtain ⟨⟨r, hrun⟩, -⟩ := h
    have hbegins' := countP_begins_le_misses hrun id
    have hacts' := countP_acts_le hrun id hfacts
    refine ⟨hmisses', by omega, by omega, ?_⟩
    have hnone : ∀ p : RunEvent → Bool, (t ++ [e]).countP p = 0 → p e = false := by
      intro p hp
      rw [← Bool.not_eq_true]
      exact List.countP_eq_zero.mp hp e (by simp)
    have hrow' := CheckpointTable.row_eq_of_take htake (hnone (begins id) (by omega))
      (hnone (acts id) (by omega))
    exact hrow'.trans hrow

/-- **A row that is begun once**, with the status of a node that is no container and no delay, is
left uncertain or with a saved result. -/
theorem Session.row_of_begun (hfacts : ∀ g, Nested plan.graph g → GraphFacts g)
    {start table : CheckpointTable} {t : RunTrace}
    (h : Session plan plugins limits serde start t table) {id : String}
    (honce : t.countP (begins id) ≤ 1) (hbegun : 0 < t.countP (beginsAs id .running)) :
    table.statusOf id = some .running ∨ table.statusOf id = some .unrecoverable ∨
      ∃ saved, table.checkpointResult id = some saved := by
  induction t using List.reverseRecOn generalizing table with
  | nil => exact absurd hbegun (Nat.lt_irrefl 0)
  | append_singleton t e ih =>
    obtain ⟨mid, now, hbefore, htake⟩ := h.concat
    obtain ⟨⟨r, hrun⟩, -⟩ := h
    by_cases hnow : beginsAs id .running e = true
    · obtain rfl := eq_of_beginsAs hnow
      obtain rfl : mid.beginCheckpoint id .running = table := by
        simpa [CheckpointTable.take] using htake
      rw [CheckpointTable.statusOf_beginCheckpoint, if_pos rfl]
      exact .inl rfl
    · -- the row was begun before this event, and this event is neither a begin nor a delay
      have hdelays := countP_delays_le hrun id hfacts
      have hstatuses := countP_beginsAs_add_le id (t ++ [e])
      have hearlier := countP_beginsAs_add_le id t
      have hnodelay : delays id e = false := by
        rw [← Bool.not_eq_true]
        intro hdelay
        have hsome : 0 < (t ++ [e]).countP (delays id) :=
          List.countP_pos_iff.mpr ⟨e, by simp, hdelay⟩
        omega
      rw [List.countP_append, List.countP_singleton] at honce hbegun
      rw [if_neg hnow] at hbegun
      have hnobegin : begins id e = false := by
        rw [← Bool.not_eq_true]
        intro hbegins
        rw [if_pos hbegins] at honce
        omega
      have hmid := ih hbefore (by omega) (by omega)
      obtain ⟨status, rfl, -⟩ | ⟨result, rfl, hrow⟩ | hdelay | hrow :=
        CheckpointTable.row_of_take htake id
      · exact absurd rfl (of_decide_eq_false hnobegin)
      · have hthere : ∃ row, StrMap.get? mid id = some row := by
          rw [← Option.isSome_iff_exists, Option.isSome_iff_ne_none]
          intro hnone
          simp [CheckpointTable.statusOf, CheckpointTable.checkpointResult, hnone] at hmid
        obtain ⟨row, hget⟩ := hthere
        have hafter := hrow row hget
        cases result with
        | some saved =>
          refine .inr (.inr ⟨saved, ?_⟩)
          rw [CheckpointTable.checkpointResult, hafter]
          rfl
        | none =>
          refine .inr (.inl ?_)
          rw [CheckpointTable.statusOf, hafter]
          rfl
      · rw [hnodelay] at hdelay
        cases hdelay
      · rw [CheckpointTable.statusOf, CheckpointTable.checkpointResult, hrow]
        exact hmid

end Sessions

/-! ### Histories -/

section Histories

variable (plan : ExecutionPlan) (plugins : PluginRegistry) (limits : ExecutionLimits)
  (serde : SerdeJson)

/-- `History ts table`: the runs of an execution since it was admitted, each of them taken from the
queue and stopped at some point, and the checkpoint table they have left. -/
inductive History : List RunTrace → CheckpointTable → Prop
  | admitted : History [] []
  | session {ts : List RunTrace} {t : RunTrace} {table table' : CheckpointTable} :
      History ts table →
      (Tables.recoveredStatus .running true table.isUncertain).1 = .queued →
      Session plan plugins limits serde table t table' → History (ts ++ [t]) table'

variable {plan plugins limits serde}

/-- **An event that goes with a checkpoint that is begun once** happens once in a history; it leaves
the row uncertain or with a saved result. -/
theorem History.once (hfacts : ∀ g, Nested plan.graph g → GraphFacts g) {id : String}
    {q : RunEvent → Bool} (hacts : ∀ e, q e = true → acts id e = true)
    (hsession : ∀ (start : CheckpointTable) (t : RunTrace) (table : CheckpointTable),
      Session plan plugins limits serde start t table → 0 < t.countP q →
        t.countP q = 1 ∧ t.countP (begins id) ≤ 1 ∧ 0 < t.countP (beginsAs id .running))
    {ts : List RunTrace} {table : CheckpointTable}
    (h : History plan plugins limits serde ts table) :
    ts.flatten.countP q = 0 ∨ ts.flatten.countP q = 1 ∧
      (table.statusOf id = some .running ∨ table.statusOf id = some .unrecoverable ∨
        ∃ saved, table.checkpointResult id = some saved) := by
  induction h with
  | admitted => exact .inl rfl
  | @session ts t table table' _ hqueued hnext ih =>
    have hflat : (ts ++ [t]).flatten.countP q = ts.flatten.countP q + t.countP q := by
      rw [List.flatten_append, List.countP_append, List.flatten_singleton]
    rw [hflat]
    have hcertain : table.isUncertain = false := recoveredStatus_running_eq_queued.mp hqueued
    obtain hzero | ⟨hone, hrow⟩ := ih
    · rw [hzero, Nat.zero_add]
      by_cases hsome : 0 < t.countP q
      · obtain ⟨hcount, honce, hbegun⟩ := hsession _ _ _ hnext hsome
        exact .inr ⟨hcount, hnext.row_of_begun hfacts honce hbegun⟩
      · exact .inl (by omega)
    · -- the execution was resumed, so the row has a result, which is kept
      have hsaved : ∃ saved, table.checkpointResult id = some saved := by
        obtain hrunning | hunrecoverable | hsaved := hrow
        · have := CheckpointTable.isUncertain_of_statusOf hrunning (.inl rfl)
          rw [hcertain] at this
          cases this
        · have := CheckpointTable.isUncertain_of_statusOf hunrecoverable (.inr rfl)
          rw [hcertain] at this
          cases this
        · exact hsaved
      obtain ⟨saved, hsaved⟩ := hsaved
      obtain ⟨-, -, hnone, hkept⟩ := hnext.keeps_saved hfacts hsaved
      have hcount : t.countP q = 0 := by
        refine List.countP_eq_zero.mpr fun e he hq => ?_
        exact List.countP_eq_zero.mp hnone e he (hacts e hq)
      refine .inr ⟨by omega, .inr (.inr ⟨saved, ?_⟩)⟩
      rw [← hsaved, CheckpointTable.checkpointResult, hkept]
      rfl

end Histories

section Accepted

variable {doc : WorkflowDocument} {plugins : PluginRegistry} {limits : ExecutionLimits}
  {serde : SerdeJson}

theorem graphFacts_of_validate (hvalid : doc.validate = .ok ()) :
    ∀ g, Nested (planOf doc).graph g → GraphFacts g := by
  rw [planOf_graph]
  exact fun g hg => (validated_of_validate hvalid).nested hg

theorem acts_of_enters {id : String} {e : RunEvent} (h : enters id e = true) :
    acts id e = true := by
  unfold enters at h
  split at h
  · rw [Bool.and_eq_true] at h
    exact h.1
  · cases h

theorem acts_of_affects {id : String} {e : RunEvent} (h : affects id e = true) :
    acts id e = true := by
  unfold affects at h
  split at h
  · rw [Bool.and_eq_true] at h
    exact h.1
  · cases h

theorem countP_misses_le_reads (id : String) (t : RunTrace) :
    t.countP (misses id) ≤ t.countP (reads id) := by
  refine List.countP_mono_left fun e _ h => ?_
  obtain rfl := eq_of_misses h
  exact decide_eq_true rfl

/-- **Crash safety of checkpoints.** Without retries, over any number of stops and resumed runs: the
body of a node that is no container and no delay is entered at most once; a node whose result is
saved is not executed again; and recovery interrupts or cancels an execution with a body that was
entered and whose result is not saved. -/
theorem bodies_are_entered_at_most_once (hvalid : doc.validate = .ok ())
    (hretry : ∀ g, Nested (planOf doc).graph g → ∀ node ∈ g.nodes, node.retry = none)
    {ts : List RunTrace} {table : CheckpointTable}
    (h : History (planOf doc) plugins limits serde ts table) (id : String) :
    ts.flatten.countP (enters id) ≤ 1 ∧
    (∀ saved, table.checkpointResult id = some saved → ∀ t table',
      Session (planOf doc) plugins limits serde table t table' →
        (∀ kind, (⟨.observe (.executing id kind), ()⟩ : RunEvent) ∉ t) ∧
          table'.checkpointResult id = some saved) ∧
    (0 < ts.flatten.countP (enters id) → table.checkpointResult id = none →
      ∀ tables : Tables, tables.UniqueIds → ∀ row ∈ tables.executions, row.status.isActive = true →
        tables.checkpointsOf row.id = table → ∀ now, ∃ row',
          (tables.recoverIncompleteExecutions now).2.execution row.id = some row' ∧
            (row'.status = .interrupted ∨ row'.status = .cancelled)) := by
  have hfacts := graphFacts_of_validate hvalid
  have honce : ∀ g, Nested (planOf doc).graph g → ∀ node ∈ g.nodes, node.attempts ≤ 1 := by
    intro g hg node hn
    rw [WorkflowNode.attempts, hretry g hg node hn]
    exact le_rfl
  have hhistory :=
    h.once hfacts (q := enters id) (fun e => acts_of_enters) fun _ t _ hsession hsome => by
    obtain ⟨⟨r, hrun⟩, -⟩ := hsession
    have hreads := countP_reads_le_one hrun id honce hfacts
    have hmisses := countP_misses_le_reads id t
    have hbegins := countP_begins_le_misses hrun id
    have henters := countP_enters_le hrun id honce
    have hstatuses := countP_beginsAs_add_le id t
    omega
  refine ⟨by omega, fun saved hsaved t table' hsession => ?_, fun hsome hnone tables hids row hrow
    hactive htable now => ?_⟩
  · obtain ⟨-, -, hacts, hkept⟩ := hsession.keeps_saved hfacts hsaved
    refine ⟨fun kind hmem => ?_, ?_⟩
    · exact List.countP_eq_zero.mp hacts _ hmem (decide_eq_true rfl)
    · rw [← hsaved, CheckpointTable.checkpointResult, hkept]
      rfl
  · refine ⟨recoveredRow now tables row, execution_recover hids hrow hactive now, ?_⟩
    have huncertain : (tables.checkpointsOf row.id).isUncertain = true := by
      rw [htable]
      obtain hzero | ⟨-, hrunning | hunrecoverable | ⟨saved, hsaved⟩⟩ := hhistory
      · omega
      · exact CheckpointTable.isUncertain_of_statusOf hrunning (.inl rfl)
      · exact CheckpointTable.isUncertain_of_statusOf hunrecoverable (.inr rfl)
      · rw [hnone] at hsaved
        cases hsaved
    change (tables.recoveryOf row).1 = .interrupted ∨ (tables.recoveryOf row).1 = .cancelled
    rw [Tables.recoveryOf, huncertain, Tables.recoveredStatus]
    split
    · exact .inr rfl
    · rw [Bool.not_true, Bool.and_false]
      exact .inl rfl

/-- **An effect is not repeated**: over any number of stops and resumed runs, an HTTP or process
node that is not declared idempotent is called at most once per activation, if no container around
such a node is retried. -/
theorem unsafe_calls_happen_at_most_once (hvalid : doc.validate = .ok ())
    (hcontainers : ∀ g, Nested (planOf doc).graph g → ∀ node ∈ g.nodes,
      (∃ g' ∈ node.subgraphs, HasEffect g') → node.attempts ≤ 1)
    {ts : List RunTrace} {table : CheckpointTable}
    (h : History (planOf doc) plugins limits serde ts table) (id : String) :
    ts.flatten.countP (affects id) ≤ 1 := by
  have hfacts := graphFacts_of_validate hvalid
  have hhistory :=
    h.once hfacts (q := affects id) (fun e => acts_of_affects) fun _ t _ hsession hsome => by
    obtain ⟨⟨r, hrun⟩, -⟩ := hsession
    obtain ⟨hcount, hbegins⟩ := countP_affects_eq_one hrun id hfacts hcontainers hsome
    have hbegun := countP_affects_le hrun id hfacts
    exact ⟨hcount, hbegins, by omega⟩
  omega

end Accepted

/-! ### Concrete histories -/

/-- The answers of an undisturbed run over a checkpoint table, with an answer for external nodes. -/
def answering (table : CheckpointTable) (result : Except String NodeResult) (o : Op) : Resp o :=
  match o with
  | .checkpointResult id => .ok (table.checkpointResult id)
  | o => (undisturbed (fun _ _ => result) () o).1

/-- A run over a table, stopped before an event. -/
def sessionUntil (plan : ExecutionPlan) (table : CheckpointTable)
    (result : Except String NodeResult)
    (stop : RunEvent → Bool) : RunTrace :=
  ((executePreparedWorkflow plan [] {} emptySerde).run.simulate
    (stateless (answering table result)) ()).1.takeWhile fun e => !stop e

theorem session_sessionUntil {plan : ExecutionPlan} {table table' : CheckpointTable}
    {result : Except String NodeResult} {stop : RunEvent → Bool}
    (h : table.takeAll 0 (sessionUntil plan table result stop) = some table') :
    Session plan [] {} emptySerde table (sessionUntil plan table result stop) table' := by
  refine ⟨⟨none, ?_⟩, journal_of_takeAll h⟩
  have hrun := runs_simulate (stateless (answering table result))
    (executePreparedWorkflow plan [] {} emptySerde).run ()
  rw [← List.takeWhile_append_dropWhile (p := fun e => !stop e) (l := Prod.fst _)] at hrun
  exact hrun.cutAt

/-- The second node of `chainDocument` starts. -/
def startsSecond : RunEvent → Bool
  | ⟨.observe (.starting _ "b" _ _ _), _⟩ => true
  | _ => false

/-- The table that a first run of `chainDocument` leaves when it stops before its second node. -/
def halfwayTable : CheckpointTable :=
  [("a", { status := .completed,
           result := some
             (NodeResult.toValue { route := "success", outputs := [("v", .bool true)] }) })]

/-- A first run that stops halfway and the run that is resumed from its table. -/
theorem history_chainDocument :
    ∃ table, History (planOf chainDocument) [] {} emptySerde
      [sessionUntil (planOf chainDocument) [] (.error "") startsSecond,
        sessionUntil (planOf chainDocument) halfwayTable (.error "") fun _ => false] table := by
  have hfirst : CheckpointTable.takeAll 0 []
      (sessionUntil (planOf chainDocument) [] (.error "") startsSecond) = some halfwayTable := by
    decide +kernel
  have hsecond : (CheckpointTable.takeAll 0 halfwayTable (sessionUntil (planOf chainDocument)
      halfwayTable (.error "") fun _ => false)).isSome = true := by decide +kernel
  obtain ⟨table, htable⟩ := Option.isSome_iff_exists.mp hsecond
  refine ⟨table, ?_⟩
  have hhalf : History (planOf chainDocument) [] {} emptySerde
      ([] ++ [sessionUntil (planOf chainDocument) [] (.error "") startsSecond]) halfwayTable :=
    .session .admitted rfl (session_sessionUntil hfirst)
  exact hhalf.session (by decide) (session_sessionUntil htable)

/-- The resumed run executes only the second node. -/
theorem chainDocument_resumed_without_repetition :
    ∃ table, History (planOf chainDocument) [] {} emptySerde
        [sessionUntil (planOf chainDocument) [] (.error "") startsSecond,
          sessionUntil (planOf chainDocument) halfwayTable (.error "") fun _ => false] table ∧
      ([sessionUntil (planOf chainDocument) [] (.error "") startsSecond,
        sessionUntil (planOf chainDocument) halfwayTable (.error "")
          fun _ => false].flatten.countP (enters "a")) ≤ 1 := by
  obtain ⟨table, hhistory⟩ := history_chainDocument
  refine ⟨table, hhistory,
    (bodies_are_entered_at_most_once (by rfl) (fun g hg node hn => ?_) hhistory
    "a").1⟩
  obtain rfl := hg.eq_of_flat (by decide)
  revert node
  decide

/-- One HTTP request. -/
def requestDocument : WorkflowDocument :=
  sampleDocument "c"
    [{ id := "c", nodeType := "kakune.http.request@1",
       inputs := [("url", .literal (.string "http://localhost/"))] }]

theorem requestDocument_calls_once :
    (sessionUntil (planOf requestDocument) [] (.error "refused") fun _ => false).countP
      (affects "c") = 1 ∧
    ([] ++ [sessionUntil (planOf requestDocument) [] (.error "refused")
      fun _ => false]).flatten.countP (affects "c") ≤ 1 := by
  have hleft : (CheckpointTable.takeAll 0 [] (sessionUntil (planOf requestDocument) []
      (.error "refused") fun _ => false)).isSome = true := by decide +kernel
  obtain ⟨table, htable⟩ := Option.isSome_iff_exists.mp hleft
  refine ⟨by decide +kernel, unsafe_calls_happen_at_most_once (by rfl) (fun g hg node hn _ => ?_)
    (.session .admitted rfl (session_sessionUntil htable)) "c"⟩
  obtain rfl := hg.eq_of_flat (by decide)
  have hall : ∀ node ∈ (planOf requestDocument).graph.nodes, node.attempts ≤ 1 := by decide
  exact hall node hn

/-- An HTTP request in a switch node that is retried. -/
def retriedContainerDocument : WorkflowDocument :=
  sampleDocument "a"
    [{ id := "a", nodeType := "kakune.flow.switch@1", inputs := [("value", .literal (.string "x"))],
       config := [("cases", .object [("x", .string "p")])],
       retry := some { maxAttempts := 2, initialBackoffMs := 1 },
       branches :=
        [("p",
          { entry := "c"
            nodes := [{ id := "c", nodeType := "kakune.http.request@1",
                        inputs := [("url", .literal (.string "http://localhost/"))] }] })] }]

/-- The request fails, the switch node is tried again, and the request is made a second time under
the same id. -/
theorem retried_container_repeats_the_call :
    compile retriedContainerDocument [] =
      .ok ⟨retriedContainerDocument, planOf retriedContainerDocument⟩ ∧
    ∃ t table, History (planOf retriedContainerDocument) [] {} emptySerde [t] table ∧
      [t].flatten.countP (affects "/a/p/c") = 2 := by
  have hleft : (CheckpointTable.takeAll 0 [] (sessionUntil (planOf retriedContainerDocument) []
      (.error "refused") fun _ => false)).isSome = true := by decide +kernel
  obtain ⟨table, htable⟩ := Option.isSome_iff_exists.mp hleft
  refine ⟨by rfl, sessionUntil (planOf retriedContainerDocument) []
    (.error "refused") fun _ => false,
    table, .session .admitted rfl (session_sessionUntil htable), by decide +kernel⟩

end KakuneCore
