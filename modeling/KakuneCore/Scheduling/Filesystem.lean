import KakuneCore.Encoding.Utf8
import KakuneCore.Relational.Runs
import KakuneCore.Scheduling.FirstSeen
import KakuneCore.Workflow.Document

/-!
# Filesystem triggers

`FilesystemScheduler` collects what the watcher of a trigger reports into one pending batch, whose
deadline every report moves, and hands the batch out at the first drain that finds the deadline
past. `batch_step` says once what a call does to the batch of a key.

The reports of a key in a run fall into consecutive **groups**, one for each batch (`Batches`). The
main result, `filesystem_batches_iff`: in every state that a run reaches, the batches list the
distinct paths of their groups exactly when every report that **opens** a batch has distinct paths.
Only the reports merged into a batch are checked against it.
-/

namespace KakuneCore

/-! ### Watcher events -/

/-- A path as the watcher reports it: its components, each a string of bytes. -/
abbrev OsPath : Type := List (List UInt8)

/-- `path.to_string_lossy().replace('\\', "/")`. -/
def OsPath.text (path : OsPath) : String :=
  .ofList ((Utf8.lossy ([0x2F].intercalate path)).map fun c => if c = '\\' then '/' else c)

theorem intercalate_encode (names : List (List Char)) :
    [0x2F].intercalate (names.map Utf8.encode) = Utf8.encode (['/'].intercalate names) := by
  induction names with
  | nil => rfl
  | cons name names ih =>
    cases names with
    | nil => simp
    | cons next names =>
      rw [List.intercalate_cons_cons, Utf8.encode_append, Utf8.encode_append, ← ih]
      exact List.intercalate_cons_cons

/-- A path of names that are text reads as they do. -/
theorem OsPath.text_encode (names : List (List Char)) :
    OsPath.text (names.map Utf8.encode) =
      .ofList ((['/'].intercalate names).map fun c => if c = '\\' then '/' else c) := by
  rw [OsPath.text, intercalate_encode, Utf8.lossy_encode]

/-- `Path::strip_prefix`. -/
def OsPath.stripPrefix (path base : OsPath) : Option OsPath :=
  if base.isPrefixOf path then some (path.drop base.length) else none

inductive CreateKind
  | any | file | folder | other
  deriving DecidableEq, Repr

/-- The kinds of modifications, without their details. -/
inductive ModifyKind
  | any | data | metadata | name | other
  deriving DecidableEq, Repr

inductive RemoveKind
  | any | file | folder | other
  deriving DecidableEq, Repr

inductive EventKind
  | any
  | access
  | create (kind : CreateKind)
  | modify (kind : ModifyKind)
  | remove (kind : RemoveKind)
  | other
  deriving DecidableEq, Repr

structure WatchEvent where
  kind : EventKind
  paths : List OsPath
  deriving DecidableEq, Repr

/-! ### Triggers -/

inductive FilesystemEventKind
  | created | modified | removed | renamed
  deriving DecidableEq, Repr

/-- The configuration of a trigger; its root resolves inside the workspace. -/
structure FilesystemConfig where
  workspace : OsPath
  root : OsPath
  events : List FilesystemEventKind
  debounce : Nat
  inside : workspace <+: root
  deriving DecidableEq

/-- What a batch is executed with, besides its values. -/
structure FilesystemTrigger where
  workflow : WorkflowDocument
  source : String
  revision : String
  trigger : WorkflowTrigger

structure RegisteredFilesystemTrigger extends FilesystemTrigger where
  config : FilesystemConfig

/-- A trigger that should be watched. -/
structure FilesystemSpec extends RegisteredFilesystemTrigger where
  key : String

/-- The object `{ "type": "filesystem", "path": path, "paths": paths }`. -/
structure FilesystemValues where
  path : Option String
  paths : List String
  deriving DecidableEq, Repr

structure PendingFilesystemTrigger extends FilesystemTrigger where
  values : FilesystemValues
  dueAt : Nat

def filesystemEventMatches (kind : EventKind) (events : List FilesystemEventKind) : Bool :=
  match kind with
  | .create _ => FilesystemEventKind.created ∈ events
  | .modify .name => FilesystemEventKind.renamed ∈ events
  | .modify _ => FilesystemEventKind.modified ∈ events
  | .remove _ => FilesystemEventKind.removed ∈ events
  | .any | .access | .other => false

def filesystemTriggerValues (event : WatchEvent) (config : FilesystemConfig) : FilesystemValues :=
  let paths := ((event.paths.filter config.root.isPrefixOf).filterMap
    (OsPath.stripPrefix · config.workspace)).map OsPath.text
  { path := paths.getLast?, paths }

/-! ### The scheduler -/

/-- `FilesystemScheduler`, without its channel. The maps are kept in the order of the keys. -/
structure FilesystemScheduler where
  watchers : StrMap RegisteredFilesystemTrigger := []
  pending : StrMap PendingFilesystemTrigger := []

/-- `coalesce_pending`. -/
def coalescePending (pending : StrMap PendingFilesystemTrigger) (key : String)
    (incoming : PendingFilesystemTrigger) : StrMap PendingFilesystemTrigger :=
  match pending.get? key with
  | some existing =>
    pending.insert key
      { incoming with
        values :=
          { path := incoming.values.path
            paths := appendNew existing.values.paths incoming.values.paths } }
  | none => pending.insert key incoming

/-- `HashMap::remove`. -/
def removeKey {α : Type} (m : StrMap α) (key : String) : StrMap α :=
  m.filter fun entry => entry.1 ≠ key

namespace FilesystemScheduler

/-- The event is of a configured kind and has a path below the root. -/
def accepts (watcher : RegisteredFilesystemTrigger) (event : WatchEvent) : Bool :=
  filesystemEventMatches event.kind watcher.config.events &&
    event.paths.any watcher.config.root.isPrefixOf

/-- `handle_event`. An error of the watcher is reported, and changes nothing. -/
def handleEvent (scheduler : FilesystemScheduler) (key : String)
    (event : Except String WatchEvent) (now : Nat) : FilesystemScheduler :=
  match scheduler.watchers.get? key, event with
  | none, _ => scheduler
  | some _, .error _ => scheduler
  | some watcher, .ok event =>
    if accepts watcher event then
      { scheduler with
        pending := coalescePending scheduler.pending key
          { watcher.toFilesystemTrigger with
            values := filesystemTriggerValues event watcher.config
            dueAt := now + watcher.config.debounce } }
    else scheduler

/-- The keys of the batches that are due. -/
def dueKeys (scheduler : FilesystemScheduler) (now : Nat) : List String :=
  scheduler.pending.keys.filter fun key =>
    (scheduler.pending.get? key).any fun pending => pending.dueAt ≤ now

/-- `take_due`: the batches that are due, with their keys, and the scheduler without them. -/
def takeDue (scheduler : FilesystemScheduler) (now : Nat) :
    List (String × PendingFilesystemTrigger) × FilesystemScheduler :=
  ((scheduler.dueKeys now).filterMap fun key =>
      (scheduler.pending.get? key).map fun pending => (key, pending),
    { scheduler with
      pending := scheduler.pending.filter fun entry => entry.1 ∉ scheduler.dueKeys now })

/-- The body of the loop of `sync`; `watched` says whether a new watcher can be made. -/
def syncSpec (scheduler : FilesystemScheduler) (spec : FilesystemSpec) (watched : Bool) :
    FilesystemScheduler :=
  let replaced : FilesystemScheduler :=
    { watchers :=
        if watched then
          (removeKey scheduler.watchers spec.key).insert spec.key spec.toRegisteredFilesystemTrigger
        else removeKey scheduler.watchers spec.key
      pending := removeKey scheduler.pending spec.key }
  match scheduler.watchers.get? spec.key with
  | some existing =>
    if existing.config = spec.config then
      { watchers := scheduler.watchers.insert spec.key spec.toRegisteredFilesystemTrigger
        pending :=
          if existing.revision ≠ spec.revision then removeKey scheduler.pending spec.key
          else scheduler.pending }
    else replaced
  | none => replaced

/-- `FilesystemScheduler::sync`. -/
def sync (scheduler : FilesystemScheduler) (specs : List (FilesystemSpec × Bool)) :
    FilesystemScheduler :=
  let desired := specs.map fun entry => entry.1.key
  let kept : FilesystemScheduler :=
    { watchers := scheduler.watchers.filter fun entry => entry.1 ∈ desired
      pending := scheduler.pending.filter fun entry => entry.1 ∈ desired }
  specs.foldl (fun scheduler entry => scheduler.syncSpec entry.1 entry.2) kept

end FilesystemScheduler

/-- What the loop of the scheduler does with its filesystem triggers. -/
inductive FilesystemCall
  | sync (specs : List (FilesystemSpec × Bool))
  | event (key : String) (event : Except String WatchEvent) (now : Nat)
  | drain (now : Nat)

/-- The time of an event or of a drain. -/
def FilesystemCall.time : FilesystemCall → Option Nat
  | sync _ => none
  | event _ _ now | drain now => some now

namespace FilesystemScheduler

def step (scheduler : FilesystemScheduler) : FilesystemCall → FilesystemScheduler
  | .sync specs => scheduler.sync specs
  | .event key event now => scheduler.handleEvent key event now
  | .drain now => (scheduler.takeDue now).2

/-! ### Reports and batches -/

/-- What an event reports for a trigger. -/
structure Report where
  values : FilesystemValues
  time : Nat
  debounce : Nat

/-- A batch that a drain hands out. -/
structure Firing where
  batch : PendingFilesystemTrigger
  time : Nat

variable (scheduler : FilesystemScheduler) (key : String)

/-- The report of a call for a key, if the key is watched and the event accepted. -/
def report : FilesystemCall → Option Report
  | .event key' (.ok event) now =>
    if key' = key then
      ((scheduler.watchers.get? key).filter (accepts · event)).map fun watcher =>
        { values := filesystemTriggerValues event watcher.config, time := now
          debounce := watcher.config.debounce }
    else none
  | _ => none

/-- The batches of a key that a call hands out. -/
def fired : FilesystemCall → List Firing
  | .drain now =>
    ((scheduler.takeDue now).1.filter fun entry => entry.1 = key).map fun entry =>
      { batch := entry.2, time := now }
  | _ => []

/-- The reports of a key in a run, in order. -/
def reports : FilesystemScheduler → List FilesystemCall → List Report
  | _, [] => []
  | scheduler, call :: calls =>
    (scheduler.report key call).toList ++ reports (scheduler.step call) calls

/-- The batches of a key that a run hands out, in order. -/
def firings : FilesystemScheduler → List FilesystemCall → List Firing
  | _, [] => []
  | scheduler, call :: calls => scheduler.fired key call ++ firings (scheduler.step call) calls

variable {scheduler key} {call : FilesystemCall} {now : Nat}

/-! ### The batch of one key -/

theorem ordered_filter {α : Type} {m : StrMap α} (h : m.Ordered) (keep : String × α → Bool) :
    StrMap.Ordered (m.filter keep) :=
  List.Pairwise.sublist ((List.filter_sublist (p := keep)).map Prod.fst) h

theorem mem_dueKeys : key ∈ scheduler.dueKeys now ↔
    ∃ pending, scheduler.pending.get? key = some pending ∧ pending.dueAt ≤ now := by
  rw [dueKeys, List.mem_filter, StrMap.mem_keys_iff]
  constructor
  · rintro ⟨-, hdue⟩
    simpa [Option.any_eq_true] using hdue
  · rintro ⟨pending, hget, hdue⟩
    exact ⟨⟨pending, hget⟩, by simp [hget, hdue]⟩

/-- Of the entries looked up for distinct keys, one key has at most one. -/
theorem filter_filterMap_lookup {α : Type} {keys : List String} (hnodup : keys.Nodup)
    (lookup : String → Option α) (key : String) :
    (keys.filterMap fun k => (lookup k).map fun a => (k, a)).filter (fun entry => entry.1 = key) =
      if key ∈ keys then ((lookup key).map fun a => (key, a)).toList else [] := by
  induction keys with
  | nil => rfl
  | cons k keys ih =>
    obtain ⟨hk, hrest⟩ := List.nodup_cons.mp hnodup
    have hnext := ih hrest
    by_cases heq : k = key
    · subst heq
      rw [if_neg hk] at hnext
      cases hlookup : lookup k with
      | none => simpa [hlookup] using hnext
      | some a => simpa [hlookup] using hnext
    · cases hlookup : lookup k with
      | none => simpa [hlookup, heq, Ne.symm heq] using hnext
      | some a => simpa [hlookup, heq, Ne.symm heq] using hnext

/-- A drain hands a key's batch out once, when it is due. -/
theorem fired_drain (hordered : scheduler.pending.Ordered) :
    scheduler.fired key (.drain now) =
      (((scheduler.pending.get? key).filter fun pending => pending.dueAt ≤ now).map fun pending =>
        { batch := pending, time := now }).toList := by
  have hnodup : (scheduler.dueKeys now).Nodup :=
    (List.Pairwise.imp (fun hlt => ne_of_lt hlt) hordered).sublist List.filter_sublist
  rw [fired, takeDue, filter_filterMap_lookup hnodup]
  cases hget : scheduler.pending.get? key with
  | none => simp
  | some pending =>
    by_cases hdue : pending.dueAt ≤ now
    · have hmem : key ∈ scheduler.dueKeys now := mem_dueKeys.mpr ⟨pending, hget, hdue⟩
      simp [hmem, hdue, Option.filter]
    · have hmem : key ∉ scheduler.dueKeys now := fun hmem => by
        obtain ⟨pending', hget', hdue'⟩ := mem_dueKeys.mp hmem
        obtain rfl := Option.some.inj (hget.symm.trans hget')
        exact hdue hdue'
      simp [hmem, hdue, Option.filter]

theorem get?_takeDue :
    (scheduler.takeDue now).2.pending.get? key =
      (scheduler.pending.get? key).filter fun pending => ¬ pending.dueAt ≤ now := by
  refine (StrMap.get?_filter scheduler.pending (fun k => k ∉ scheduler.dueKeys now) key).trans ?_
  cases hget : scheduler.pending.get? key with
  | none => simp
  | some pending =>
    have hmem : key ∈ scheduler.dueKeys now ↔ pending.dueAt ≤ now := by
      rw [mem_dueKeys]
      simp [hget]
    by_cases hdue : pending.dueAt ≤ now
    · simp [hmem, hdue, Option.filter]
    · simp [hmem, hdue, Option.filter]

/-- One specification removes entries from the pending batches at most. -/
theorem pending_syncSpec (spec : FilesystemSpec) (watched : Bool) :
    (scheduler.syncSpec spec watched).pending = scheduler.pending ∨
      (scheduler.syncSpec spec watched).pending = removeKey scheduler.pending spec.key := by
  rw [syncSpec]
  split
  · split
    · split
      · exact .inr rfl
      · exact .inl rfl
    · exact .inr rfl
  · exact .inr rfl

/-- What every step of a synchronisation keeps, the synchronisation keeps. -/
theorem sync_induction {P : StrMap PendingFilesystemTrigger → Prop}
    (hfilter : ∀ m, P m → ∀ keep : String → Bool, P (m.filter fun entry => keep entry.1))
    (h : P scheduler.pending) (specs : List (FilesystemSpec × Bool)) :
    P (scheduler.sync specs).pending := by
  rw [sync]
  have hkept := hfilter _ h fun k => k ∈ specs.map fun entry => entry.1.key
  -- the specifications are taken one after another from what is kept
  generalize hstart : FilesystemScheduler.mk _ _ = start
  have hpending : P start.pending := hstart ▸ hkept
  clear hstart hkept h
  induction specs generalizing start with
  | nil => exact hpending
  | cons entry specs ih =>
    refine ih _ ?_
    rcases @pending_syncSpec start entry.1 entry.2 with heq | heq
    · rw [heq]
      exact hpending
    · rw [heq]
      exact hfilter _ hpending fun k => k ≠ entry.1.key

/-- Synchronising keeps the batch of a key or drops it. -/
theorem get?_sync (specs : List (FilesystemSpec × Bool)) :
    (scheduler.sync specs).pending.get? key = scheduler.pending.get? key ∨
      (scheduler.sync specs).pending.get? key = none := by
  refine sync_induction (P := fun m => StrMap.get? m key = scheduler.pending.get? key ∨
    StrMap.get? m key = none) (fun m hm keep => ?_) (.inl rfl) specs
  rw [StrMap.get?_filter]
  split
  · exact hm
  · exact .inr rfl

theorem ordered_coalescePending {pending : StrMap PendingFilesystemTrigger} (h : pending.Ordered)
    (key : String) (incoming : PendingFilesystemTrigger) :
    (coalescePending pending key incoming).Ordered := by
  rw [coalescePending]
  split
  · exact h.insert _ _
  · exact h.insert _ _

theorem get?_coalescePending (pending : StrMap PendingFilesystemTrigger) (key key' : String)
    (incoming : PendingFilesystemTrigger) :
    (coalescePending pending key incoming).get? key' =
      if key = key' then
        some { incoming with
          values :=
            { path := incoming.values.path
              paths := ((pending.get? key).map fun existing =>
                appendNew existing.values.paths incoming.values.paths).getD
                  incoming.values.paths } }
      else pending.get? key' := by
  rw [coalescePending]
  cases hget : pending.get? key with
  | none => rw [StrMap.get?_insert]; rfl
  | some existing => rw [StrMap.get?_insert]; rfl

/-! ### One step -/

theorem ordered_step (h : scheduler.pending.Ordered) (call : FilesystemCall) :
    (scheduler.step call).pending.Ordered := by
  cases call with
  | sync specs =>
    exact sync_induction (P := StrMap.Ordered) (fun _ hm _ => ordered_filter hm _) h specs
  | event key event now =>
    rw [step, handleEvent.eq_def]
    split
    · exact h
    · exact h
    · split
      · exact ordered_coalescePending h _ _
      · exact h
  | drain now => exact ordered_filter h _

/-- **What a call does to the batch of a key.** A report is merged into the batch or opens one, a
drain hands the batch out when it is due, a synchronisation may drop it, and any other call leaves
it alone. -/
inductive BatchStep (call : FilesystemCall) (before : Option PendingFilesystemTrigger) :
    Option Report → List Firing → Option PendingFilesystemTrigger → Prop
  | reported {r : Report} {after : PendingFilesystemTrigger} :
      after.dueAt = r.time + r.debounce → after.values.path = r.values.path →
      after.values.paths = ((before.map fun batch =>
        appendNew batch.values.paths r.values.paths).getD r.values.paths) →
      BatchStep call before (some r) [] (some after)
  | fired {batch : PendingFilesystemTrigger} {now : Nat} : before = some batch →
      batch.dueAt ≤ now → BatchStep call before none [⟨batch, now⟩] none
  | kept : BatchStep call before none [] before
  | dropped {specs : List (FilesystemSpec × Bool)} : call = .sync specs →
      BatchStep call before none [] none

theorem batch_step (hordered : scheduler.pending.Ordered) (key : String) (call : FilesystemCall) :
    BatchStep call (scheduler.pending.get? key) (scheduler.report key call)
      (scheduler.fired key call) ((scheduler.step call).pending.get? key) := by
  cases call with
  | sync specs =>
    rcases @get?_sync scheduler key specs with heq | heq
    · rw [step, heq]
      exact .kept
    · rw [step, heq]
      exact .dropped rfl
  | drain now =>
    rw [fired_drain hordered, step, get?_takeDue]
    cases hget : scheduler.pending.get? key with
    | none => exact .kept
    | some batch =>
      by_cases hdue : batch.dueAt ≤ now
      · simp only [Option.filter, hdue, decide_true, not_true, decide_false, if_true]
        exact .fired rfl hdue
      · simp only [Option.filter, hdue, decide_false, not_false_eq_true, decide_true, if_true]
        exact .kept
  | event key' event now =>
    cases event with
    | error error =>
      have hsame : scheduler.handleEvent key' (.error error) now = scheduler := by
        rw [handleEvent.eq_def]
        cases scheduler.watchers.get? key' with
        | none => rfl
        | some watcher => rfl
      rw [step, hsame]
      exact .kept
    | ok event =>
      rw [step, handleEvent.eq_def, report]
      cases hwatcher : scheduler.watchers.get? key' with
      | none =>
        by_cases hkey : key' = key
        · subst hkey
          rw [if_pos rfl, hwatcher]
          exact .kept
        · rw [if_neg hkey]
          exact .kept
      | some watcher =>
        by_cases hkey : key' = key
        · subst hkey
          rw [if_pos rfl, hwatcher]
          by_cases haccepts : accepts watcher event = true
          · simp only [Option.filter, haccepts, if_true, Option.map_some]
            rw [get?_coalescePending, if_pos rfl]
            exact .reported rfl rfl rfl
          · simp only [Option.filter, haccepts, Bool.false_eq_true, if_false, Option.map_none]
            exact .kept
        · rw [if_neg hkey]
          by_cases haccepts : accepts watcher event = true
          · simp only [haccepts, if_true]
            rw [get?_coalescePending, if_neg hkey]
            exact .kept
          · simp only [haccepts, Bool.false_eq_true, if_false]
            exact .kept

/-- A report has the time of its event. -/
theorem time_of_report {r : Report} (h : scheduler.report key call = some r) :
    call.time = some r.time := by
  cases call with
  | sync specs => cases h
  | drain now => cases h
  | event key' event now =>
    cases event with
    | error error => cases h
    | ok event =>
      rw [report] at h
      split at h
      · obtain ⟨watcher, -, rfl⟩ := Option.map_eq_some_iff.mp h
        rfl
      · cases h

/-- The reports of a run come in the order of its calls. -/
theorem times_reports (key : String) (scheduler : FilesystemScheduler)
    (calls : List FilesystemCall) :
    ((reports key scheduler calls).map Report.time).Sublist
      (calls.filterMap FilesystemCall.time) := by
  induction calls generalizing scheduler with
  | nil => exact .slnil
  | cons call calls ih =>
    have hcalls : (call :: calls).filterMap FilesystemCall.time =
        call.time.toList ++ calls.filterMap FilesystemCall.time := by
      cases htime : call.time with
      | none => rw [List.filterMap_cons_none htime]; rfl
      | some time => rw [List.filterMap_cons_some htime]; rfl
    rw [hcalls, reports, List.map_append]
    refine List.Sublist.append ?_ (ih _)
    cases hreport : scheduler.report key call with
    | none => exact List.nil_sublist _
    | some r => rw [time_of_report hreport]; exact List.Sublist.refl _

/-! ### Groups of reports -/

/-- The paths that the reports of a group name, with repeats. -/
def reportedPaths (group : List Report) : List String := group.flatMap fun r => r.values.paths

/-- The batch that a group of reports has led to. -/
inductive Collected : List Report → Option PendingFilesystemTrigger → Prop
  | nothing : Collected [] none
  | batch {rs : List Report} {r : Report} {pending : PendingFilesystemTrigger} :
      pending.values.paths = firstSeen (reportedPaths (rs ++ [r])) →
      pending.values.path = r.values.path → pending.dueAt = r.time + r.debounce →
      Collected (rs ++ [r]) (some pending)

/-- A batch has a last report. -/
theorem Collected.exists_last {group : List Report} {pending : PendingFilesystemTrigger}
    (h : Collected group (some pending)) :
    ∃ rs last, group = rs ++ [last] ∧ pending.values.paths = firstSeen (reportedPaths group) ∧
      pending.values.path = last.values.path ∧ pending.dueAt = last.time + last.debounce := by
  cases h with
  | @batch rs last _ hpaths hpath hdue => exact ⟨rs, last, rfl, hpaths, hpath, hdue⟩

/-- A report is merged into the group of the pending batch. One that opens the group must not repeat
a path: nothing removes the repeat. -/
theorem Collected.concat {opened : List Report} {before : Option PendingFilesystemTrigger}
    (h : Collected opened before) {r : Report} {after : PendingFilesystemTrigger}
    (hopens : before = none → r.values.paths.Nodup)
    (hdue : after.dueAt = r.time + r.debounce) (hpath : after.values.path = r.values.path)
    (hpaths : after.values.paths = ((before.map fun batch =>
      appendNew batch.values.paths r.values.paths).getD r.values.paths)) :
    Collected (opened ++ [r]) (some after) := by
  refine .batch ?_ hpath hdue
  have hlast : reportedPaths (opened ++ [r]) = reportedPaths opened ++ r.values.paths := by
    rw [reportedPaths, List.flatMap_append, List.flatMap_singleton, ← reportedPaths]
  rw [hlast, firstSeen_append, hpaths]
  cases h with
  | nothing => exact (firstSeen_of_nodup (hopens rfl)).symm
  | batch hbatch => rw [← hbatch]; rfl

/-- A report that **opens a batch** has distinct paths. -/
def OpensDistinct (scheduler : FilesystemScheduler) (call : FilesystemCall) : Prop :=
  ∀ key r, scheduler.report key call = some r → scheduler.pending.get? key = none →
    r.values.paths.Nodup

/-- **The reports of a key in a run, in groups**, after those of the batch that is pending first: a
group for each batch that was handed out or dropped, and the reports of the batch that is pending at
the end. -/
structure Groups (key : String) (scheduler : FilesystemScheduler) (opened : List Report)
    (calls : List FilesystemCall) (groups : List (List Report × Option Firing))
    (rest : List Report) : Prop where
  reports : opened ++ reports key scheduler calls = groups.flatMap Prod.fst ++ rest
  firings : firings key scheduler calls = groups.filterMap Prod.snd
  collected : ∀ group ∈ groups, ∀ f, group.2 = some f →
    Collected group.1 (some f.batch) ∧ f.batch.dueAt ≤ f.time
  pending : Collected rest ((Runs.run step scheduler calls).pending.get? key)
  dropped : ∀ group ∈ groups, group.2 = none → ∃ specs, FilesystemCall.sync specs ∈ calls

variable {opened rest : List Report} {calls : List FilesystemCall}
  {groups : List (List Report × Option Firing)}

/-- The group of a batch that a call closes comes first. -/
theorem Groups.close {closing : Option Firing}
    (h : Groups key (scheduler.step call) [] calls groups rest)
    (hreport : scheduler.report key call = none)
    (hfired : scheduler.fired key call = closing.toList)
    (hcollected : ∀ f, closing = some f → Collected opened (some f.batch) ∧ f.batch.dueAt ≤ f.time)
    (hdropped : closing = none → ∃ specs, call = .sync specs) :
    Groups key scheduler opened (call :: calls) ((opened, closing) :: groups) rest where
  reports := by
    have hrest := h.reports
    rw [List.nil_append] at hrest
    rw [FilesystemScheduler.reports, hreport, Option.toList_none, List.nil_append, hrest,
      List.flatMap_cons, List.append_assoc]
  firings := by
    rw [FilesystemScheduler.firings, hfired, h.firings, List.filterMap_cons]
    cases closing with
    | none => rfl
    | some f => rfl
  collected := by
    rw [List.forall_mem_cons]
    exact ⟨hcollected, h.collected⟩
  pending := h.pending
  dropped := by
    rw [List.forall_mem_cons]
    refine ⟨fun hnone => ?_, fun group hgroup hnone => ?_⟩
    · obtain ⟨specs, rfl⟩ := hdropped hnone
      exact ⟨specs, List.mem_cons_self⟩
    · obtain ⟨specs, hmem⟩ := h.dropped group hgroup hnone
      exact ⟨specs, List.mem_cons_of_mem _ hmem⟩

/-- A call that closes no batch adds its report, if it has one, to the group that is open. -/
theorem Groups.extend {opened' : List Report}
    (h : Groups key (scheduler.step call) opened' calls groups rest)
    (hopened : opened' = opened ++ (scheduler.report key call).toList)
    (hfired : scheduler.fired key call = []) :
    Groups key scheduler opened (call :: calls) groups rest where
  reports := by
    rw [FilesystemScheduler.reports, ← List.append_assoc, ← hopened]
    exact h.reports
  firings := by
    rw [FilesystemScheduler.firings, hfired]
    exact h.firings
  collected := h.collected
  pending := h.pending
  dropped := fun group hgroup hnone => by
    obtain ⟨specs, hmem⟩ := h.dropped group hgroup hnone
    exact ⟨specs, List.mem_cons_of_mem _ hmem⟩

/-- **A run whose batches open without repeats is grouped**, by induction on its calls. -/
theorem exists_groups (key : String) {scheduler : FilesystemScheduler}
    (hordered : scheduler.pending.Ordered) {opened : List Report}
    (hopened : Collected opened (scheduler.pending.get? key)) {calls : List FilesystemCall}
    (hmeets : Runs.Meets step OpensDistinct scheduler calls) :
    ∃ groups rest, Groups key scheduler opened calls groups rest := by
  induction calls generalizing scheduler opened with
  | nil =>
    refine ⟨[], opened, ?_, rfl, ?_, hopened, ?_⟩
    · simp [reports]
    · simp
    · simp
  | cons call calls ih =>
    have hopens : ∀ r, scheduler.report key call = some r → scheduler.pending.get? key = none →
        r.values.paths.Nodup := hmeets.1 key
    have hnext : ∀ {opened'}, Collected opened' ((scheduler.step call).pending.get? key) →
        ∃ groups rest, Groups key (scheduler.step call) opened' calls groups rest :=
      fun hopened' => ih (ordered_step hordered call) hopened' hmeets.2
    have hstep := batch_step hordered key call
    generalize hreport : scheduler.report key call = report at hstep
    generalize hfired : scheduler.fired key call = fired at hstep
    generalize hafter : (scheduler.step call).pending.get? key = after at hstep hnext
    generalize hbefore : scheduler.pending.get? key = before at hstep hopened hopens
    cases hstep with
    | @reported r _ hdue hpath hpaths =>
      obtain ⟨groups, rest, hgroups⟩ :=
        hnext (hopened.concat (fun hnone => hopens r hreport hnone) hdue hpath hpaths)
      exact ⟨groups, rest, hgroups.extend (by simp [hreport]) hfired⟩
    | kept =>
      obtain ⟨groups, rest, hgroups⟩ := hnext hopened
      exact ⟨groups, rest, hgroups.extend (by simp [hreport]) hfired⟩
    | @fired batch now hsome hdue =>
      obtain ⟨groups, rest, hgroups⟩ := hnext .nothing
      subst hsome
      refine ⟨(opened, some ⟨batch, now⟩) :: groups, rest, hgroups.close hreport hfired ?_ ?_⟩
      · rintro f hf
        obtain rfl := Option.some.inj hf
        exact ⟨hopened, hdue⟩
      · intro hnone
        cases hnone
    | @dropped specs hsync =>
      obtain ⟨groups, rest, hgroups⟩ := hnext .nothing
      cases hopened with
      | nothing => exact ⟨groups, rest, hgroups.extend (by simp [hreport]) hfired⟩
      | @batch rs r _ _ _ _ =>
        refine ⟨(rs ++ [r], none) :: groups, rest, hgroups.close hreport hfired ?_ ?_⟩
        · rintro f hf
          cases hf
        · exact fun _ => ⟨specs, hsync⟩

/-! ### Batches -/

/-- The paths are the distinct ones that the reports name, in the order in which they are named
first. -/
structure ListsPaths (paths : List String) (group : List Report) : Prop where
  distinct : paths.Nodup
  mem_iff : ∀ path, path ∈ paths ↔ ∃ r ∈ group, path ∈ r.values.paths
  ordered : paths.Pairwise fun a b => (reportedPaths group).idxOf a < (reportedPaths group).idxOf b

theorem listsPaths_firstSeen (group : List Report) :
    ListsPaths (firstSeen (reportedPaths group)) group where
  distinct := nodup_firstSeen _
  mem_iff path := by rw [mem_firstSeen, reportedPaths, List.mem_flatMap]
  ordered := pairwise_firstSeen _

/-- What is handed out for a group of reports, after the `earlier` ones: its paths are those of the
group, its path is the last one's, and no report came within the debounce window before it. -/
structure IsBatchOf (earlier group : List Report) (f : Firing) : Prop where
  paths : ListsPaths f.batch.values.paths group
  last : ∃ last ∈ group.getLast?, f.batch.values.path = last.values.path ∧
    ∀ r ∈ earlier ++ group, r.time + last.debounce ≤ f.time

/-- **The batches of a key in a run.** Its reports fall into consecutive groups: one for each batch
that is handed out, in order, one for each that a synchronisation drops, and the reports of the
batch that is pending. -/
structure Batches (key : String) (scheduler : FilesystemScheduler) (calls : List FilesystemCall)
    (groups : List (List Report × Option Firing)) (rest : List Report) : Prop where
  reports : reports key scheduler calls = groups.flatMap Prod.fst ++ rest
  firings : firings key scheduler calls = groups.filterMap Prod.snd
  handedOut : ∀ before group f after, groups = before ++ (group, some f) :: after →
    IsBatchOf (before.flatMap Prod.fst) group f
  pending : ∀ batch, (Runs.run step scheduler calls).pending.get? key = some batch →
    ListsPaths batch.values.paths rest
  nothing_pending : (Runs.run step scheduler calls).pending.get? key = none → rest = []
  dropped : ∀ group ∈ groups, group.2 = none → ∃ specs, FilesystemCall.sync specs ∈ calls

theorem Groups.batches (h : Groups key scheduler [] calls groups rest)
    (htimes : (calls.filterMap FilesystemCall.time).Pairwise (· ≤ ·)) :
    Batches key scheduler calls groups rest where
  reports := h.reports
  firings := h.firings
  handedOut before group f after hgroups := by
    have hmem : (group, some f) ∈ groups := by
      rw [hgroups]
      exact List.mem_append_right _ List.mem_cons_self
    obtain ⟨hcollected, hdue⟩ := h.collected _ hmem f rfl
    -- the reports up to the last one of the group are the first ones of the run
    have hfirst : before.flatMap Prod.fst ++ group <+:
        FilesystemScheduler.reports key scheduler calls := by
      have hreports := h.reports
      rw [List.nil_append] at hreports
      rw [hreports, hgroups, List.flatMap_append, List.flatMap_cons, List.append_assoc,
        List.append_assoc, ← List.append_assoc]
      exact List.prefix_append _ _
    have hsorted := (htimes.sublist (times_reports key scheduler calls)).sublist
      (hfirst.sublist.map Report.time)
    rw [List.pairwise_map] at hsorted
    obtain ⟨rs, last, rfl, hpaths, hpath, hlastDue⟩ := hcollected.exists_last
    refine ⟨hpaths ▸ listsPaths_firstSeen _, last, by simp, hpath, fun r hr => ?_⟩
    rw [← List.append_assoc] at hsorted hr
    have hle : r.time ≤ last.time := by
      rcases List.mem_append.mp hr with hr | hr
      · exact (List.pairwise_append.mp hsorted).2.2 r hr last List.mem_cons_self
      · rw [List.mem_singleton.mp hr]
    omega
  pending batch hbatch := by
    have hcollected := h.pending
    rw [hbatch] at hcollected
    obtain ⟨rs, last, -, hpaths, -⟩ := hcollected.exists_last
    exact hpaths ▸ listsPaths_firstSeen _
  nothing_pending hnone := by
    have hcollected := h.pending
    rw [hnone] at hcollected
    cases hcollected with
    | nothing => rfl
  dropped := h.dropped

/-- A batch that is handed out has distinct paths. -/
theorem Batches.distinct_of_mem (h : Batches key scheduler calls groups rest) {f : Firing}
    (hf : f ∈ FilesystemScheduler.firings key scheduler calls) : f.batch.values.paths.Nodup := by
  rw [h.firings] at hf
  obtain ⟨⟨group, closing⟩, hgroup, rfl⟩ := List.mem_filterMap.mp hf
  obtain ⟨before, after, hgroups⟩ := List.append_of_mem hgroup
  exact (h.handedOut before group f after hgroups).paths.distinct

/-- **The batches are the reports, each in one batch, exactly when every batch opens without
repeats.** In a run at times that do not go back, from a scheduler with nothing pending: every state
that the run reaches has the batches of all its keys, if and only if every report that finds no
batch has distinct paths. -/
theorem filesystem_batches_iff {scheduler : FilesystemScheduler} (hpending : scheduler.pending = [])
    {calls : List FilesystemCall}
    (htimes : (calls.filterMap FilesystemCall.time).Pairwise (· ≤ ·)) :
    (∀ n key, ∃ groups rest, Batches key scheduler (calls.take n) groups rest) ↔
      Runs.Meets step OpensDistinct scheduler calls := by
  have hordered : scheduler.pending.Ordered := hpending ▸ List.Pairwise.nil
  constructor
  · intro hbatches
    rw [Runs.meets_iff_getElem?]
    intro n call hcall key r hreport hnone
    have hreached : (Runs.run step scheduler (calls.take n)).pending.Ordered :=
      @Runs.invariant _ _ step (fun s => s.pending.Ordered) scheduler (calls.take n) hordered
        fun _ c hs => ordered_step hs c
    -- the batch that the report opens has the paths of the report
    have hstep := batch_step hreached key call
    obtain ⟨groups, rest, hnext⟩ := hbatches (n + 1) key
    have hlists := hnext.pending
    rw [Runs.exists_step_of_getElem? hcall] at hlists
    rw [hreport, hnone] at hstep
    generalize (Runs.run step scheduler (calls.take n)).fired key call = fired at hstep
    generalize hafter : ((Runs.run step scheduler (calls.take n)).step call).pending.get? key =
      after at hstep
    cases hstep with
    | @reported _ after _ _ hpaths =>
      have hdistinct := (hlists after hafter).distinct
      rwa [hpaths] at hdistinct
  · intro hmeets n key
    have hopened : Collected [] (scheduler.pending.get? key) := by
      rw [hpending]
      exact .nothing
    obtain ⟨groups, rest, hgroups⟩ := exists_groups key hordered hopened (hmeets.take n)
    have hfirst : ((calls.take n).filterMap FilesystemCall.time).Pairwise (· ≤ ·) :=
      htimes.sublist ((List.take_sublist n calls).filterMap _)
    exact ⟨groups, rest, hgroups.batches hfirst⟩

/-- An event of one path opens its batch without repeats. -/
theorem opensDistinct_of_length_le_one {event : WatchEvent} (h : event.paths.length ≤ 1) :
    OpensDistinct scheduler (.event key (.ok event) now) := by
  intro key' r hreport hnone
  rw [report] at hreport
  split at hreport
  · obtain ⟨watcher, -, rfl⟩ := Option.map_eq_some_iff.mp hreport
    have hlength : (filesystemTriggerValues event watcher.config).paths.length ≤ 1 := by
      rw [filesystemTriggerValues, List.length_map]
      exact (List.length_filterMap_le _ _).trans ((List.length_filter_le _ _).trans h)
    generalize (filesystemTriggerValues event watcher.config).paths = paths at hlength
    rcases paths with _ | ⟨path, _ | ⟨path', paths⟩⟩
    · exact List.nodup_nil
    · exact List.nodup_singleton path
    · simp at hlength
  · cases hreport

theorem opensDistinct_drain : OpensDistinct scheduler (.drain now) := by
  intro key r hreport
  cases hreport

/-- A watcher of `in` in the workspace `ws`. -/
def inboxWatcher : RegisteredFilesystemTrigger where
  workflow := sampleDocument "read" [{ id := "read", nodeType := "kakune.flow.pass@1" }]
  source := ""
  revision := "r1"
  trigger := { id := "incoming", nodeType := "kakune.trigger.filesystem@1" }
  config :=
    { workspace := [Utf8.encode ['w', 's']]
      root := [Utf8.encode ['w', 's'], Utf8.encode ['i', 'n']]
      events := [.created, .renamed]
      debounce := 500
      inside := List.prefix_append [Utf8.encode ['w', 's']] [Utf8.encode ['i', 'n']] }

def inbox : FilesystemScheduler := { watchers := [("sample/incoming", inboxWatcher)] }

/-- A path below the root of the watcher. -/
def inboxPath (names : List (List Char)) : OsPath :=
  inboxWatcher.config.root ++ names.map Utf8.encode

/-- Two files are created, one of them twice. -/
def createdFiles : List FilesystemCall :=
  [.event "sample/incoming" (.ok ⟨.create .file, [inboxPath [['a']]]⟩) 0,
    .event "sample/incoming" (.ok ⟨.create .file, [inboxPath [['b']]]⟩) 100,
    .event "sample/incoming" (.ok ⟨.create .file, [inboxPath [['a']]]⟩) 200,
    .drain 650, .drain 700]

theorem createdFiles_are_batched :
    ∃ groups rest, Batches "sample/incoming" inbox (createdFiles.take 5) groups rest :=
  have hmeets : Runs.Meets step OpensDistinct inbox createdFiles := by
    refine ⟨?_, ?_, ?_, ?_, ?_, trivial⟩
    · exact opensDistinct_of_length_le_one (Nat.le_refl 1)
    · exact opensDistinct_of_length_le_one (Nat.le_refl 1)
    · exact opensDistinct_of_length_le_one (Nat.le_refl 1)
    · exact opensDistinct_drain
    · exact opensDistinct_drain
  (filesystem_batches_iff rfl (by decide)).mpr hmeets 5 "sample/incoming"

/-- A file whose name has a backslash is moved to the path that reads the same. -/
def renamedFile : List FilesystemCall :=
  [.event "sample/incoming"
      (.ok ⟨.modify .name, [inboxPath [['a', '\\', 'b']], inboxPath [['a'], ['b']]]⟩) 0,
    .drain 500]

/-- The two paths of one event are listed as they are: the batch has a path twice. -/
theorem renamedFile_is_listed_twice :
    ((firings "sample/incoming" inbox renamedFile).map fun f => f.batch.values.paths) =
        [["in/a/b", "in/a/b"]] ∧
      ¬ ∃ groups rest, Batches "sample/incoming" inbox renamedFile groups rest := by
  have hfirings :
      ((firings "sample/incoming" inbox renamedFile).map fun f => f.batch.values.paths) =
      [[OsPath.text ([['i', 'n'], ['a', '\\', 'b']].map Utf8.encode),
        OsPath.text ([['i', 'n'], ['a'], ['b']].map Utf8.encode)]] := rfl
  rw [OsPath.text_encode, OsPath.text_encode] at hfirings
  have hpaths : ((firings "sample/incoming" inbox renamedFile).map fun f => f.batch.values.paths) =
      [["in/a/b", "in/a/b"]] := hfirings.trans (by decide)
  refine ⟨hpaths, ?_⟩
  rintro ⟨groups, rest, hbatches⟩
  have hmem : ["in/a/b", "in/a/b"] ∈
      (firings "sample/incoming" inbox renamedFile).map fun f => f.batch.values.paths := by
    rw [hpaths]
    exact List.mem_cons_self
  obtain ⟨f, hf, heq⟩ := List.mem_map.mp hmem
  have hdistinct := hbatches.distinct_of_mem hf
  rw [heq] at hdistinct
  simp at hdistinct

end FilesystemScheduler

end KakuneCore
