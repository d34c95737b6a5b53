import KakuneCore.Api.Pages
import KakuneCore.Store.StatusMachine

/-!
# Going from page to page

A client asks for the first page of a list, and goes on with the cursor of every page until there is
none. The store may do anything between two pages.

Each list is a `Keyset` reading of its rows: what a client is shown is in the order of the list and
has no repeats, and **a row that stays in the list is shown exactly once**, whatever happens to the
others. The events of an execution are read within the history as it was when the first page was
read, and later events do not show.
-/

namespace KakuneCore

/-- A client goes from page to page: the states that it finds, the pages that it is shown, and
whether the last one had no cursor. -/
inductive PageWalk {σ α : Type}
    (call : σ → Option String → Except ManagementError (ManagementPage α)) :
    Option String → List σ → List (List α) → Bool → Prop
  | stop {cursor : Option String} : PageWalk call cursor [] [] false
  | last {cursor : Option String} {state : σ} {page : ManagementPage α}
      (h : call state cursor = .ok page) (hnext : page.nextCursor = none) :
      PageWalk call cursor [state] [page.items] true
  | more {cursor : Option String} {state : σ} {page : ManagementPage α} {next : String}
      {states : List σ} {pages : List (List α)} {done : Bool}
      (h : call state cursor = .ok page) (hnext : page.nextCursor = some next)
      (hrest : PageWalk call (some next) states pages done) :
      PageWalk call cursor (state :: states) (page.items :: pages) done

/-- The walk over some states, if every page is given and the last one is reached with them. -/
def walkPages {σ α : Type} (call : σ → Option String → Except ManagementError (ManagementPage α)) :
    Option String → List σ → Option (List (List α) × Bool)
  | _, [] => some ([], false)
  | cursor, state :: states =>
    match call state cursor with
    | .error _ => none
    | .ok ⟨items, some next⟩ =>
      (walkPages call (some next) states).map fun (pages, done) => (items :: pages, done)
    | .ok ⟨items, none⟩ => if states.isEmpty then some ([items], true) else none

theorem pageWalk_of_walkPages {σ α : Type}
    {call : σ → Option String → Except ManagementError (ManagementPage α)} {cursor : Option String}
    {states : List σ} {pages : List (List α)} {done : Bool}
    (h : walkPages call cursor states = some (pages, done)) :
    PageWalk call cursor states pages done := by
  induction states generalizing cursor pages with
  | nil =>
    cases h
    exact .stop
  | cons state states ih =>
    unfold walkPages at h
    split at h
    · cases h
    · next hcall =>
      obtain ⟨⟨rest, _⟩, hrest, heq⟩ := Option.map_eq_some_iff.mp h
      cases heq
      exact .more hcall rfl (ih hrest)
    · next hcall =>
      split at h
      · next hstates =>
        obtain rfl := List.isEmpty_iff.mp hstates
        cases h
        exact .last hcall rfl
      · cases h

/-! ### Cursors -/

section Cursors

variable {json : Json.Library}

theorem length_of_decode {text : String} {cursor : ManagementCursor}
    (h : ManagementCursor.decode json text = .ok cursor) :
    (Utf8.encode text.toList).length ≤ 16384 := by
  unfold ManagementCursor.decode at h
  dsimp only at h
  split at h
  · cases h
  · next haccepted =>
    rw [not_or, not_or] at haccepted
    exact not_lt.mp haccepted.2.2

/-- A cursor that is accepted is the one that was handed out. -/
theorem decode_nextCursor (hjson : json.Conforms 127) {cursor read : ManagementCursor}
    {text : String} (h : nextCursor json cursor = some text)
    (hread : ManagementCursor.decode json text = .ok read) : read = cursor := by
  have hencode : cursor.encode json = .ok text := by
    rw [nextCursor, ManagementCursor.encode] at h
    cases h
    rfl
  have hdecode := ManagementCursor.decode_of_encode hjson hencode (length_of_decode hread)
  rw [hread] at hdecode
  exact Except.ok.inj hdecode

theorem orInvalid_eq_ok {ε α : Type} {message : String} {result : Except ε α} {a : α} :
    orInvalid message result = .ok a ↔ result = .ok a := by
  cases result with
  | ok b =>
    constructor
    · rintro ⟨⟩
      rfl
    · rintro ⟨⟩
      rfl
  | error e =>
    refine iff_of_false ?_ ?_
    · rintro ⟨⟩
    · rintro ⟨⟩

theorem cursorPosition_nextCursor (hjson : json.Conforms 127) {cursor : ManagementCursor}
    {text list mismatch : String} {filters : Filters} {order : CursorOrder}
    {position : List String} (h : nextCursor json cursor = some text)
    (hread : cursorPosition json list mismatch filters order text = .ok position) :
    position = cursor.position := by
  obtain ⟨read, hdecode, hread⟩ := except_bind_eq_ok hread
  obtain ⟨_, -, hread⟩ := except_bind_eq_ok hread
  obtain rfl := decode_nextCursor hjson h (orInvalid_eq_ok.mp hdecode)
  exact (Except.ok.inj hread).symm

theorem pageLimit_eq_ok {list : String} {default count : Nat} {limit : Option Nat}
    (h : pageLimit list default limit = .ok count) : count = limit.getD default ∧ 0 < count := by
  unfold pageLimit at h
  split at h
  · next hrange =>
    cases h
    exact ⟨rfl, hrange.1⟩
  · cases h

end Cursors

/-! ### Keyset readings -/

section Readings

variable {σ α ρ κ : Type} {json : Json.Library}
  {call : σ → Option String → Except ManagementError (ManagementPage α)} {key : ρ → κ}
  {rows : σ → List ρ} {view : ρ → α} {cursorOf : α → ManagementCursor} {limit : Nat}

/-- A cursor names where a row lies; no cursor names the start. -/
def CursorNames (json : Json.Library) (cursorOf : α → ManagementCursor) (view : ρ → α) (key : ρ → κ)
    (cursor : Option String) (after : Option κ) : Prop :=
  cursor = none ∧ after = none ∨ ∃ row text, cursor = some text ∧
    nextCursor json (cursorOf (view row)) = some text ∧ after = some (key row)

/-- A page is a keyset reading of some rows. -/
def ReadsPage [LinearOrder κ] (json : Json.Library)
    (call : σ → Option String → Except ManagementError (ManagementPage α)) (key : ρ → κ)
    (rows : σ → List ρ) (view : ρ → α) (cursorOf : α → ManagementCursor) (limit : Nat)
    (cursor : Option String) (after : Option κ) (state : σ) : Prop :=
  ∀ page, call state cursor = .ok page → 0 < limit ∧ page = pageOf json cursorOf
    ((Keyset.page key (rows state) after limit).1.map view)
    (Keyset.page key (rows state) after limit).2

/-- The next cursor of a page names the last of its rows. -/
theorem names_next (key : ρ → κ) {items : List ρ} {hasMore : Bool} {next : String}
    (h : (pageOf json cursorOf (items.map view) hasMore).nextCursor = some next) :
    hasMore = true ∧ CursorNames json cursorOf view key (some next) (Keyset.next key items) := by
  unfold pageOf at h
  dsimp only at h
  split at h
  · next hmore =>
    refine ⟨hmore, ?_⟩
    rw [List.getLast?_map] at h
    obtain ⟨item, hitem, hnext⟩ := Option.bind_eq_some_iff.mp h
    obtain ⟨row, hrow, rfl⟩ := Option.map_eq_some_iff.mp hitem
    exact .inr ⟨row, next, rfl, hnext, by rw [Keyset.next, hrow]; rfl⟩
  · cases h

/-- A page without a cursor is the last one. -/
theorem eq_false_of_nextCursor {items : List α} {hasMore : Bool}
    (hitems : hasMore = true → items ≠ [])
    (h : (pageOf json cursorOf items hasMore).nextCursor = none) : hasMore = false := by
  rw [← Bool.not_eq_true]
  intro hmore
  obtain ⟨item, hitem⟩ := Option.isSome_iff_exists.mp
    (List.getLast?_isSome.mpr (hitems hmore))
  simp [pageOf, hmore, hitem, nextCursor, ManagementCursor.encode, Except.toOption] at h

/-- **Walks over the pages are walks over the rows.** -/
theorem PageWalk.keyset [LinearOrder κ]
    (hreads : ∀ text after state, CursorNames json cursorOf view key (some text) after →
      ReadsPage json call key rows view cursorOf limit (some text) after state)
    {cursor : Option String} {states : List σ} {pages : List (List α)} {done : Bool}
    (h : PageWalk call cursor states pages done) {after : Option κ}
    (hstart : ∀ state ∈ states.head?,
      ReadsPage json call key rows view cursorOf limit cursor after state) :
    ∃ shown, Keyset.Walk key limit after (states.map rows) shown done ∧
      pages = shown.map (List.map view) := by
  induction h generalizing after with
  | stop => exact ⟨[], .stop, rfl⟩
  | @last cursor state page hcall hnext =>
    obtain ⟨hlimit, rfl⟩ := hstart state rfl page hcall
    have hlast : (Keyset.page key (rows state) after limit).2 = false :=
      eq_false_of_nextCursor (fun hmore => by
        rw [Ne, List.map_eq_nil_iff, ← List.length_eq_zero_iff, Keyset.length_page hmore]
        exact hlimit.ne') hnext
    exact ⟨_, .last hlast, rfl⟩
  | @more cursor state page next states pages done hcall hnext hrest ih =>
    obtain ⟨-, rfl⟩ := hstart state rfl page hcall
    obtain ⟨hmore, hnames⟩ := names_next key hnext
    obtain ⟨shown, hwalk, rfl⟩ := ih fun state _ => hreads next _ state hnames
    exact ⟨_, .more hmore hwalk, rfl⟩

/-- What the pages of a walk show, by the rows that they are read from. -/
structure Reading [LinearOrder κ] (key : ρ → κ) (rows : σ → List ρ) (limit : Nat)
    (after : Option κ) (states : List σ) (shown : List (List ρ)) (done : Bool) : Prop where
  increasing : shown.flatten.Pairwise fun a b => key a < key b
  limited : ∀ items ∈ shown, items.length ≤ limit
  current : List.Forall₂ (fun items state => ∀ row ∈ items, row ∈ rows state) shown states
  complete : done = true → ∀ k : κ, (∀ start ∈ after, start < k) →
    (∀ state ∈ states, ∃ row ∈ rows state, key row = k) → ∃ row ∈ shown.flatten, key row = k

theorem Reading.exists_state [LinearOrder κ] {after : Option κ} {states : List σ}
    {shown : List (List ρ)} {done : Bool} {row : ρ}
    (h : Reading key rows limit after states shown done) (hrow : row ∈ shown.flatten) :
    ∃ state ∈ states, row ∈ rows state := by
  have htables : List.Forall₂ (fun items table => ∀ row ∈ items, row ∈ table) shown
      (states.map rows) := List.forall₂_map_right_iff.mpr h.current
  obtain ⟨items, hitems, hrow⟩ := List.mem_flatten.mp hrow
  obtain ⟨table, htable, hall⟩ := Table.exists_of_mem_forall₂ htables.flip hitems
  obtain ⟨state, hstate, rfl⟩ := List.mem_map.mp htable
  exact ⟨state, hstate, hall row hrow⟩

theorem PageWalk.reading [LinearOrder κ]
    (hreads : ∀ text after state, CursorNames json cursorOf view key (some text) after →
      ReadsPage json call key rows view cursorOf limit (some text) after state)
    {cursor : Option String} {states : List σ} {pages : List (List α)} {done : Bool}
    (h : PageWalk call cursor states pages done) {after : Option κ}
    (hstart : ∀ state ∈ states.head?,
      ReadsPage json call key rows view cursorOf limit cursor after state)
    (hunique : ∀ state ∈ states, Keyset.UniqueKeys key (rows state)) :
    ∃ shown, pages = shown.map (List.map view) ∧
      Reading key rows limit after states shown done := by
  have hlimit : states = [] ∨ 0 < limit := by
    cases h with
    | stop => exact .inl rfl
    | last hcall _ => exact .inr (hstart _ rfl _ hcall).1
    | more hcall _ _ => exact .inr (hstart _ rfl _ hcall).1
  obtain rfl | hlimit := hlimit
  · cases h
    exact ⟨[], rfl, List.Pairwise.nil, by simp, .nil, by rintro ⟨⟩⟩
  obtain ⟨shown, hwalk, hpages⟩ := h.keyset hreads hstart
  have htables : ∀ table ∈ states.map rows, Keyset.UniqueKeys key table :=
    List.forall_mem_map.mpr hunique
  refine ⟨shown, hpages, ⟨(hwalk.increasing hlimit htables).1, hwalk.length_le, ?_, ?_⟩⟩
  · exact List.forall₂_map_right_iff.mp hwalk.shown
  · intro hdone k hafter hstays
    exact hwalk.complete hlimit htables hdone hafter (List.forall_mem_map.mpr hstays)

end Readings

/-! ### Executions -/

/-- The order of an execution list: the latest first. -/
def ExecutionRow.key (row : ExecutionRow) : Stringᵒᵈ ×ₗ String :=
  toLex (OrderDual.toDual row.createdAt, row.id)

section Executions

theorem ExecutionRow.key_lt_iff {a b : ExecutionRow} : a.key < b.key ↔
    b.createdAt < a.createdAt ∨ a.createdAt = b.createdAt ∧ a.id < b.id := by
  rw [key, key, Prod.Lex.toLex_lt_toLex]
  exact Iff.rfl

theorem ExecutionRow.key_le_iff {a b : ExecutionRow} :
    a.key ≤ b.key ↔ ExecutionRow.Precedes a b := by
  rw [key, key, Prod.Lex.toLex_le_toLex]
  exact Iff.rfl

theorem ExecutionRow.isAfter_eq (start row : ExecutionRow) :
    row.isAfter (some (start.createdAt, start.id)) = Keyset.isBehind key (some start.key) row := by
  rw [Bool.eq_iff_iff, Keyset.isBehind_some, key_lt_iff, @eq_comm String start.createdAt]
  simp only [isAfter, Option.all_some, Bool.or_eq_true, Bool.and_eq_true, decide_eq_true_eq]

variable {json : Json.Library} {workflowId status : Option String} {limit : Option Nat}

/-- The rows of an execution list. -/
def Tables.listed (workflowId status : Option String) (tables : Tables) : List ExecutionRow :=
  tables.executions.filter fun row => row.meets workflowId status

/-- **The query is a keyset reading** of the rows that meet the filters. -/
theorem Tables.listExecutionPage_eq (tables : Tables) {before : Option (String × String)}
    {after : Option (Stringᵒᵈ ×ₗ String)} (count : Nat)
    (h : ∀ row : ExecutionRow, row.isAfter before = Keyset.isBehind ExecutionRow.key after row) :
    tables.listExecutionPage workflowId status before count =
      Keyset.page ExecutionRow.key (tables.listed workflowId status) after count := by
  have hrows : (tables.executions.filter fun row =>
      row.meets workflowId status && row.isAfter before) =
        (tables.listed workflowId status).filter (Keyset.isBehind ExecutionRow.key after) := by
    rw [listed, List.filter_filter]
    exact List.filter_congr fun row _ => by rw [h, Bool.and_comm]
  have hselect : (((tables.executions.filter fun row =>
      row.meets workflowId status && row.isAfter before).insertionSort
        ExecutionRow.Precedes).take (count + 1)) =
      Keyset.select ExecutionRow.key (tables.listed workflowId status) after (count + 1) := by
    rw [hrows, Keyset.select, Keyset.sorted,
      Keyset.insertionSort_congr fun a b => ExecutionRow.key_le_iff.symm]
  simp only [listExecutionPage, hselect, Keyset.page]

theorem Tables.UniqueIds.uniqueKeys {tables : Tables} (h : tables.UniqueIds) :
    Keyset.UniqueKeys ExecutionRow.key (tables.listed workflowId status) := by
  have hids : ((tables.listed workflowId status).map fun row => row.id).Nodup :=
    List.Nodup.sublist (List.filter_sublist.map _) h
  refine List.Nodup.of_map (fun key => (ofLex key).2) ?_
  rw [List.map_map]
  exact hids

/-- A position that a cursor of the list names. -/
theorem executionPosition_eq_ok {position : List String} {before : String × String}
    (h : executionPosition position = .ok before) : position = [before.1, before.2] := by
  unfold executionPosition at h
  split at h
  · cases h
    rfl
  · cases h

theorem reads_executions (hjson : json.Conforms 127) {cursor : Option String}
    {after : Option (Stringᵒᵈ ×ₗ String)} (hnames : CursorNames json
      (executionCursor (executionFilters workflowId status)) ExecutionRow.summary ExecutionRow.key
      cursor after) (tables : Tables) :
    ReadsPage json
      (fun tables cursor => listExecutionPage json tables workflowId status limit cursor)
      ExecutionRow.key (Tables.listed workflowId status) ExecutionRow.summary
      (executionCursor (executionFilters workflowId status)) (limit.getD defaultPageSize) cursor
      after tables := by
  intro page h
  obtain ⟨count, hcount, h⟩ := except_bind_eq_ok h
  obtain ⟨rfl, hpos⟩ := pageLimit_eq_ok hcount
  refine ⟨hpos, ?_⟩
  split at h
  · cases h
  dsimp only at h
  obtain ⟨before, hbefore, h⟩ := except_bind_eq_ok h
  have hafter : ∀ row : ExecutionRow,
      row.isAfter before = Keyset.isBehind ExecutionRow.key after row := by
    obtain ⟨rfl, rfl⟩ | ⟨start, text, rfl, htext, rfl⟩ := hnames
    · cases hbefore
      exact fun row => rfl
    · obtain ⟨read, hread, hsome⟩ := except_bind_eq_ok hbefore
      cases hsome
      obtain ⟨position, hposition, hread⟩ := except_bind_eq_ok hread
      have hstart := executionPosition_eq_ok hread
      rw [cursorPosition_nextCursor hjson htext hposition] at hstart
      obtain ⟨hcreated, hid⟩ : start.createdAt = read.1 ∧ start.id = read.2 := by
        simpa [executionCursor, ExecutionRow.summary] using hstart
      intro row
      rw [← ExecutionRow.isAfter_eq, hcreated, hid]
  rw [Tables.listExecutionPage_eq tables _ hafter] at h
  exact (Except.ok.inj h).symm

/-- **A list of executions** that is read page by page is in order and has no repeats; each item is
an execution that was in the list when its page was read, and an execution that is in the list at
every read is shown before the reader is told that there is no more. -/
theorem listed_executions_are_shown (hjson : json.Conforms 127) {histories : List (List StoreCall)}
    {pages : List (List ExecutionSummary)} {done : Bool}
    (h : PageWalk (fun tables cursor =>
        listExecutionPage json tables workflowId status limit cursor)
      none (histories.map runCalls) pages done) :
    pages.flatten.Pairwise (fun a b =>
      b.createdAt < a.createdAt ∨ a.createdAt = b.createdAt ∧ a.id < b.id) ∧
    (∀ page ∈ pages, page.length ≤ limit.getD defaultPageSize) ∧
    List.Forall₂ (fun page history => ∀ item ∈ page, ∃ row ∈ (runCalls history).executions,
      row.meets workflowId status = true ∧ row.summary = item) pages histories ∧
    (done = true → ∀ createdAt id, (∀ history ∈ histories, ∃ row ∈ (runCalls history).executions,
      row.meets workflowId status = true ∧ row.createdAt = createdAt ∧ row.id = id) →
      ∃ item ∈ pages.flatten, item.createdAt = createdAt ∧ item.id = id) := by
  obtain ⟨shown, rfl, hreading⟩ : ∃ shown, pages = shown.map (List.map ExecutionRow.summary) ∧
      Reading ExecutionRow.key (Tables.listed workflowId status) (limit.getD defaultPageSize) none
        (histories.map runCalls) shown done :=
    h.reading (fun text after tables hnames => reads_executions hjson hnames tables)
      (fun tables _ => reads_executions hjson (.inl ⟨rfl, rfl⟩) tables)
      (List.forall_mem_map.mpr fun history _ => (uniqueIds_runCalls history).uniqueKeys)
  rw [← List.map_flatten]
  refine ⟨?_, ?_, ?_, ?_⟩
  · rw [List.pairwise_map]
    exact hreading.increasing.imp ExecutionRow.key_lt_iff.mp
  · rw [List.forall_mem_map]
    intro items hitems
    rw [List.length_map]
    exact hreading.limited items hitems
  · rw [List.forall₂_map_left_iff]
    refine (List.forall₂_map_right_iff.mp hreading.current).imp fun items history hrows => ?_
    rw [List.forall_mem_map]
    intro row hrow
    obtain ⟨hmem, hmeets⟩ := List.mem_filter.mp (hrows row hrow)
    exact ⟨row, hmem, hmeets, rfl⟩
  · rintro hdone createdAt id hstays
    obtain ⟨row, hrow, hkey⟩ := hreading.complete hdone
      (toLex (OrderDual.toDual createdAt, id)) (by rintro _ ⟨⟩) (by
        rw [List.forall_mem_map]
        intro history hhistory
        obtain ⟨row, hrow, hmeets, rfl, rfl⟩ := hstays history hhistory
        exact ⟨row, List.mem_filter.mpr ⟨hrow, hmeets⟩, rfl⟩)
    cases hkey
    exact ⟨row.summary, List.mem_map_of_mem hrow, rfl, rfl⟩

/-- Two executions, and the first comes to an end between the two pages. -/
def pagedHistories : List (List StoreCall) :=
  [[.create (sampleAdmission "e1" "w" none), .create (sampleAdmission "e2" "w" none)],
    [.create (sampleAdmission "e1" "w" none), .create (sampleAdmission "e2" "w" none),
      .finish "e1" .succeeded none "2026-01-01T00:00:01Z"]]

theorem listed_executions_are_shown_pagedHistories :
    ∃ pages, PageWalk (fun tables cursor => listExecutionPage (Json.reference 127) tables (some "w")
        none (some 1) cursor) none (pagedHistories.map runCalls) pages true ∧
      ∃ item ∈ pages.flatten, item.createdAt = "2026-01-01T00:00:00Z" ∧ item.id = "e2" := by
  have hdone : (walkPages (fun tables cursor => listExecutionPage (Json.reference 127) tables
      (some "w") none (some 1) cursor) none (pagedHistories.map runCalls)).map Prod.snd =
        some true := by
    decide +kernel
  obtain ⟨⟨pages, _⟩, hwalk, rfl⟩ := Option.map_eq_some_iff.mp hdone
  have hwalk := pageWalk_of_walkPages hwalk
  have hshown := listed_executions_are_shown (Json.reference_conforms 127) hwalk
  refine ⟨pages, hwalk, hshown.2.2.2 rfl _ _ ?_⟩
  decide +kernel

end Executions

end KakuneCore
