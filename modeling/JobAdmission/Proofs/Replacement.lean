import JobAdmission.Proofs.AccountRows
import JobAdmission.Proofs.Binding

/-!
# Batches that replace

This module proves what a batch of queues or of projects does to a world (`World.replacement`):
the queues are those of its rows, of two rows on one queue the later one counts, and the known
projects are those of its rows. Rows that are refused are reported with their positions. What was
there before does not matter, so a batch undoes all earlier ones of its kind; accounts, what their
jobs take up, what jobs are bound to and default banks stay. As nothing else touches queues and
projects, they are at any time those of the last batch (`World.queues_afterAll`,
`World.projects_afterAll`).
-/

namespace JobAdmission

/-! ### What rows tell -/

namespace QueueRecord

/-- The definition of the row's queue. -/
def definition (r : QueueRecord) : QueueDef :=
  ⟨r.queue, r.minNodesPerJob, r.maxNodesPerJob, r.maxTimePerJob, r.priority⟩

/-- The last of these rows that is on a queue is this record. -/
def LastOf (rows : List Json) (name : String) (r : QueueRecord) : Prop :=
  ∃ before row after, rows = before ++ row :: after ∧ decode row = .ok r ∧ r.queue = name ∧
    ∀ row' ∈ after, ∀ r', decode row' = .ok r' → r'.queue ≠ name

theorem readDef_eq_ok_iff {v : Json} {q : QueueDef} :
    readDef v = .ok q ↔ ∃ r, decode v = .ok r ∧ r.queue ≠ "" ∧ r.definition = q := by
  unfold readDef
  cases decode v with
  | error e => simp
  | ok r =>
    by_cases unnamed : r.queue = ""
    · simp [toDef, unnamed]
    · simp [toDef, definition, unnamed]

end QueueRecord

theorem ProjectRecord.readName_eq_ok_iff {v : Json} {name : String} :
    readName v = .ok name ↔ ∃ r, decode v = .ok r ∧ name ≠ "" ∧ r.project = name := by
  unfold readName
  cases decode v with
  | error e => simp
  | ok r =>
    by_cases unnamed : r.project = ""
    · simp [toName, unnamed, eq_comm]
    · have named : r.project = name → ¬ name = "" := fun same => same ▸ unnamed
      simpa [toName, unnamed] using named

section

variable {α : Type} {read : Json → Except RecordError α} {rows : List Json} {x : α}

/-- The last of the accepted things of a kind is what the last row that stands for one of them
stands for. -/
theorem getLast?_filter_accepted {kind : α → Prop} [DecidablePred kind] :
    ((accepted read rows).filter kind).getLast? = some x ↔
      ∃ before row after, rows = before ++ row :: after ∧ (read row = .ok x ∧ kind x) ∧
        ∀ row' ∈ after, ∀ y, read row' = .ok y → ¬ kind y := by
  have taken : ∀ row, ((read row).toOption.filter fun y => kind y) = some x ↔
      read row = .ok x ∧ kind x := by
    intro row
    cases read row with
    | error e => simp [Except.toOption]
    | ok y => simp +contextual [Except.toOption, Option.filter_some, and_comm]
  have passed : ∀ row, ((read row).toOption.filter fun y => kind y) = none ↔
      ∀ y, read row = .ok y → ¬ kind y := by
    intro row
    cases read row with
    | error e => simp [Except.toOption]
    | ok y => simp [Except.toOption]
  rw [accepted, List.filter_filterMap, List.getLast?_filterMap, List.findSome?_eq_some_iff]
  simp only [taken, passed]
  -- the rows after the last one are those before it in the reversed list
  constructor
  · rintro ⟨after, row, before, split, last, others⟩
    refine ⟨before.reverse, row, after.reverse, ?_, last, ?_⟩
    · simpa using List.reverse_eq_iff.mp split
    · simpa using others
  · rintro ⟨before, row, after, rfl, last, others⟩
    refine ⟨after.reverse, row, before.reverse, by simp, last, ?_⟩
    simpa using others

/-- The report covers rows: every row is applied, or it is skipped. -/
structure FeedReport.Covers (report : FeedReport) (read : Json → Except RecordError α)
    (rows : List Json) : Prop where
  /-- Every row is counted once. -/
  counted : report.applied + report.skipped.length = rows.length
  /-- The rows that are skipped are those that are refused. -/
  skipped : ∀ err, err ∈ report.skipped ↔
    ∃ i row reason, rows[i]? = some row ∧ read row = .error reason ∧ err = .record i reason
  /-- They are reported in their order. -/
  ascending : report.skipped.Pairwise fun err err' => err.position < err'.position

theorem covers_reportOn (read : Json → Except RecordError α) (rows : List Json) :
    (reportOn read rows).Covers read rows where
  counted := length_accepted_add_refused read 0 rows
  skipped err := by
    change err ∈ refused read 0 rows ↔ _
    simp [mem_refused]
  ascending := pairwise_refused read 0 rows

end

/-! ### Tables -/

namespace QueueTable

/-- Of the definitions under one name the last one is found. -/
theorem getElem?_ofList (defs : List QueueDef) (name : String) :
    (ofList defs)[name]? = (defs.filter (·.name = name)).getLast? := by
  have later : ∀ table : QueueTable,
      (defs.foldl (fun table q => table.insert q.name q) table)[name]? =
        (defs.filter (·.name = name)).getLast?.or table[name]? := by
    induction defs with
    | nil => exact fun _ => rfl
    | cons q defs ih =>
      intro table
      rw [List.foldl_cons, ih, Std.ExtTreeMap.getElem?_insert]
      by_cases hq : q.name = name
      · rw [List.filter_cons_of_pos (by simpa using hq), List.getLast?_cons]
        cases (defs.filter (·.name = name)).getLast? with
        | none => simp [hq]
        | some q' => rfl
      · rw [List.filter_cons_of_neg (by simpa using hq)]
        simp [hq]
  rw [ofList, later ∅, Std.ExtTreeMap.getElem?_empty, Option.or_none]

/-- A batch defines a queue by its last row on it. -/
theorem ofList_eq_some_iff {rows : List Json} {name : String} {q : QueueDef} :
    (ofList (accepted QueueRecord.readDef rows))[name]? = some q ↔
      name ≠ "" ∧ ∃ r, QueueRecord.LastOf rows name r ∧ r.definition = q := by
  rw [getElem?_ofList, getLast?_filter_accepted]
  simp only [QueueRecord.readDef_eq_ok_iff]
  constructor
  · rintro ⟨before, row, after, rfl, ⟨⟨r, hr, named, rfl⟩, same⟩, others⟩
    refine ⟨same ▸ named, r, ⟨before, row, after, rfl, hr, same, ?_⟩, rfl⟩
    intro row' hrow' r' hr' same'
    exact others row' hrow' r'.definition ⟨r', hr', (same'.trans same.symm) ▸ named, rfl⟩ same'
  · rintro ⟨named, r, ⟨before, row, after, rfl, hr, rfl, others⟩, rfl⟩
    refine ⟨before, row, after, rfl, ⟨⟨r, hr, named, rfl⟩, rfl⟩, ?_⟩
    rintro row' hrow' q ⟨r', hr', -, rfl⟩
    exact others row' hrow' r' hr'

theorem ofList_eq_none_iff {rows : List Json} {name : String} :
    (ofList (accepted QueueRecord.readDef rows))[name]? = none ↔
      name = "" ∨ ∀ row ∈ rows, ∀ r, QueueRecord.decode row = .ok r → r.queue ≠ name := by
  rw [getElem?_ofList, List.getLast?_eq_none_iff, List.filter_eq_nil_iff]
  simp only [mem_accepted, QueueRecord.readDef_eq_ok_iff, decide_eq_true_eq]
  constructor
  · intro none
    refine or_iff_not_imp_left.mpr fun named row hrow r hr same => ?_
    exact none r.definition ⟨row, hrow, r, hr, same ▸ named, rfl⟩ same
  · rintro h q ⟨row, hrow, r, hr, named, rfl⟩ same
    obtain rfl | others := h
    · exact named same
    · exact others row hrow r hr same

end QueueTable

theorem mem_ofList_readName {rows : List Json} {name : String} :
    name ∈ Std.ExtTreeSet.ofList (accepted ProjectRecord.readName rows) compare ↔
      name ≠ "" ∧ ∃ row ∈ rows, ∃ r, ProjectRecord.decode row = .ok r ∧ r.project = name := by
  rw [Std.ExtTreeSet.mem_ofList, List.contains_iff_mem, mem_accepted]
  simp only [ProjectRecord.readName_eq_ok_iff]
  constructor
  · rintro ⟨row, hrow, r, hr, named, same⟩
    exact ⟨named, row, hrow, r, hr, same⟩
  · rintro ⟨named, row, hrow, r, hr, same⟩
    exact ⟨row, hrow, r, hr, named, same⟩

/-! ### Batches -/

/-- The rows of an event that is a batch of this kind. -/
def Event.rowsOf {H : Type} (kind : FeedKind) : Event H → Option (List Json)
  | .feed kind' rows => if kind' = kind then some rows else none
  | _ => none

namespace World

variable {H : Type}

/-- Accounts, and jobs with their accounts, are the same in both worlds. -/
structure SameAccounts (w w' : World H) : Prop where
  /-- The accounts, with what their jobs take up. -/
  objects : w'.engine.ledger.objects = w.engine.ledger.objects
  /-- The accounts that are kept under keys. -/
  serials : w'.engine.ledger.serials = w.engine.ledger.serials
  /-- The default banks. -/
  defaultBanks : w'.engine.ledger.defaultBanks = w.engine.ledger.defaultBanks
  /-- The jobs that were announced. -/
  arrived : w'.arrived = w.arrived
  /-- The live jobs, with what is kept for them. -/
  live : w'.live = w.live
  /-- The accounts that jobs are bound to. -/
  bound : ∀ j, w'.engine.boundAccount (w'.storage j) = w.engine.boundAccount (w.storage j)
  /-- The configuration. -/
  config : w'.engine.config = w.engine.config
  /-- The scheduler. -/
  host : w'.engine.host = w.engine.host
  /-- The audit trail. -/
  audit : w'.engine.audit = w.engine.audit

variable [Scheduler H]

/-- What a batch of queue rows makes of a world, and what is reported on it. -/
structure ReplacesQueues (w : World H) (rows : List Json) (report : FeedReport) (w' : World H) :
    Prop where
  /-- The report. -/
  report : report.Covers QueueRecord.readDef rows
  /-- A queue is defined by the last row on it. -/
  defined : ∀ name q, w'.engine.ledger.queues[name]? = some q ↔
    name ≠ "" ∧ ∃ r, QueueRecord.LastOf rows name r ∧ r.definition = q
  /-- There are no other queues, and none without a name. -/
  undefined : ∀ name, w'.engine.ledger.queues[name]? = none ↔
    name = "" ∨ ∀ row ∈ rows, ∀ r, QueueRecord.decode row = .ok r → r.queue ≠ name
  /-- The known projects stay. -/
  projects : w'.engine.ledger.projects = w.engine.ledger.projects
  /-- The accounts stay. -/
  others : w.SameAccounts w'

/-- What a batch of project rows makes of a world, and what is reported on it. -/
structure ReplacesProjects (w : World H) (rows : List Json) (report : FeedReport)
    (w' : World H) : Prop where
  /-- The report. -/
  report : report.Covers ProjectRecord.readName rows
  /-- The projects with a row on them are known, and no others. -/
  known : ∀ name, name ∈ w'.engine.ledger.projects ↔
    name ≠ "" ∧ ∃ row ∈ rows, ∃ r, ProjectRecord.decode row = .ok r ∧ r.project = name
  /-- The queues stay. -/
  queues : w'.engine.ledger.queues = w.engine.ledger.queues
  /-- The accounts stay. -/
  others : w.SameAccounts w'

theorem sameAccounts_feed {kind : FeedKind} (h : kind ≠ .accounts) (w : World H)
    (rows : List Json) : w.SameAccounts (w.after (.feed kind rows)) := by
  cases kind with
  | accounts => exact absurd rfl h
  | queues | projects => exact ⟨rfl, rfl, rfl, rfl, rfl, fun _ => rfl, rfl, rfl, rfl⟩

/-- Whatever world it meets, a batch of queues or projects replaces all of them, and an earlier
one leaves no trace. -/
theorem replacement (w : World H) (earlier rows : List Json) :
    w.ReplacesQueues rows (w.engine.ingest .queues rows).1 (w.after (.feed .queues rows)) ∧
    w.ReplacesProjects rows (w.engine.ingest .projects rows).1 (w.after (.feed .projects rows)) ∧
    (w.after (.feed .queues earlier)).after (.feed .queues rows) = w.after (.feed .queues rows) ∧
    (w.after (.feed .projects earlier)).after (.feed .projects rows) =
      w.after (.feed .projects rows) := by
  refine ⟨?_, ?_, rfl, rfl⟩
  · exact ⟨covers_reportOn _ rows, fun _ _ => QueueTable.ofList_eq_some_iff,
      fun _ => QueueTable.ofList_eq_none_iff, rfl, w.sameAccounts_feed (by decide) rows⟩
  · exact ⟨covers_reportOn _ rows, fun _ => mem_ofList_readName, rfl,
      w.sameAccounts_feed (by decide) rows⟩

/-- Of the two rows on one queue the later one counts, and the row without a name is refused. -/
example :
    let rows := [QueueRecord.encode ⟨"batch", 1, 2, 3, 4⟩, QueueRecord.encode ⟨"", 0, 0, 0, 7⟩,
      QueueRecord.encode ⟨"batch", 0, 0, 0, 5⟩]
    (Ledger.apply {} .queues rows).2.queues["batch"]? = some ⟨"batch", 0, 0, 0, 5⟩ ∧
      (Ledger.apply {} .queues rows).1 = ⟨2, [.record 1 .emptyQueueName]⟩ := by
  decide +kernel

/-! ### Along a run -/

/-- A batch of queues replaces them, and no other event changes them. -/
theorem queues_after (w : World H) (ev : Event H) :
    (w.after ev).engine.ledger.queues =
      ((ev.rowsOf .queues).map fun rows => QueueTable.ofList
        (accepted QueueRecord.readDef rows)).getD w.engine.ledger.queues := by
  cases ev with
  | feed kind rows =>
    cases kind with
    | accounts => exact Ledger.queues_updates ..
    | queues | projects => rfl
  | reprioritize | scheduler | call => exact (w.growsTo_after rfl).queues

/-- A batch of projects replaces them, and no other event changes them. -/
theorem projects_after (w : World H) (ev : Event H) :
    (w.after ev).engine.ledger.projects =
      ((ev.rowsOf .projects).map fun rows => Std.ExtTreeSet.ofList
        (accepted ProjectRecord.readName rows)).getD w.engine.ledger.projects := by
  cases ev with
  | feed kind rows =>
    cases kind with
    | accounts => exact Ledger.projects_updates ..
    | queues | projects => rfl
  | reprioritize | scheduler | call => exact (w.growsTo_after rfl).projects

/-- What each event either makes anew of a batch of one kind or leaves as it is, is after events
what the last of these batches made it. -/
theorem part_afterAll {β : Type} (part : World H → β) {made : List Json → β} {kind : FeedKind}
    (step : ∀ (w : World H) (ev : Event H),
      part (w.after ev) = ((ev.rowsOf kind).map made).getD (part w))
    (w : World H) (es : List (Event H)) :
    part (w.afterAll es) =
      ((es.filterMap (Event.rowsOf kind)).getLast?.map made).getD (part w) := by
  induction es generalizing w with
  | nil => rfl
  | cons ev es ih =>
    change part ((w.after ev).afterAll es) = _
    rw [ih, step w ev]
    cases hev : ev.rowsOf kind with
    | none => rw [List.filterMap_cons_none hev]; rfl
    | some rows =>
      rw [List.filterMap_cons_some hev, List.getLast?_cons]
      cases (es.filterMap (Event.rowsOf kind)).getLast? with
      | none => rfl
      | some rows' => rfl

/-- The queues are those of the last batch of queues. -/
theorem queues_afterAll (w : World H) (es : List (Event H)) :
    (w.afterAll es).engine.ledger.queues =
      ((es.filterMap (Event.rowsOf .queues)).getLast?.map fun rows => QueueTable.ofList
        (accepted QueueRecord.readDef rows)).getD w.engine.ledger.queues :=
  part_afterAll (fun w => w.engine.ledger.queues) queues_after w es

/-- The known projects are those of the last batch of projects. -/
theorem projects_afterAll (w : World H) (es : List (Event H)) :
    (w.afterAll es).engine.ledger.projects =
      ((es.filterMap (Event.rowsOf .projects)).getLast?.map fun rows => Std.ExtTreeSet.ofList
        (accepted ProjectRecord.readName rows)).getD w.engine.ledger.projects :=
  part_afterAll (fun w => w.engine.ledger.projects) projects_after w es

end World

end JobAdmission
