import JobAdmission.Feed.Record
import JobAdmission.Ledger
import JobAdmission.Record.Text

/-!
# Batches of the accounting feed

This module holds batches of rows and what applying one does to the ledger. A row that
is refused is skipped and reported, and the others are applied. Account rows are applied
in turn and leave other accounts alone. A batch of queues or projects replaces all of
them.
-/

namespace JobAdmission

/-- Why rows are not applied. -/
inductive FeedError where
  /-- The row at a position of its batch is refused. -/
  | record (index : Nat) (reason : RecordError)
  /-- The text of a batch is not well-formed. -/
  | syntaxError
  /-- The data of a batch is none. -/
  | envelope (reason : DecodeError)
  /-- The feed service has stopped. -/
  | serviceStopped
  deriving DecidableEq, Repr

/-- The wording of an error. -/
def FeedError.message : FeedError → String
  | .record index reason => "record " ++ toString index ++ ": " ++ reason.message
  | .syntaxError => "malformed batch"
  | .envelope reason => "malformed batch: " ++ reason.message
  | .serviceStopped => "ingestion service stopped"

/-! ### Envelopes -/

/-- A batch: its rows, which are decoded one by one. -/
structure Batch where
  /-- The rows. -/
  data : List Json
  deriving Repr

namespace Batch

/-- The one field of a batch. -/
def fields : Fields Batch := Batch.mk <$> .optional "data" [] (Decoder.list Decoder.any)

/-- What a batch is called where one was expected. -/
def kind : String := "struct Batch"

/-- Reads a batch. -/
def decode : Decoder Batch := fields.decode kind

/-- The written field of a batch. -/
def entries (b : Batch) : List (String × Json) := [("data", .array b.data)]

/-- The written form of a batch. -/
def encode (b : Batch) : Json := .ofEntries b.entries

/-- The batch that a text holds, with its rows in normal form. A sequence with more
than the rows is no well-formed text of a batch. -/
def ofText (text : String) : Except FeedError Batch :=
  match fields.readText kind text with
  | .ok b => .ok ⟨b.data.map Json.normalize⟩
  | .error (.data reason) => .error (.envelope reason)
  | .error _ => .error .syntaxError

end Batch

/-! ### Application -/

/-- What became of the rows of a batch. -/
structure FeedReport where
  /-- The number of applied rows. -/
  applied : Nat := 0
  /-- The refusals, in the order of the rows. -/
  skipped : List FeedError := []
  deriving DecidableEq, Repr

/-- What the good rows stand for, in order. -/
def accepted (read : Json → Except RecordError α) (rows : List Json) : List α :=
  rows.filterMap fun v => (read v).toOption

/-- The refusals of the bad rows, in order. The first row has the given index. -/
def refused (read : Json → Except RecordError α) : Nat → List Json → List FeedError
  | _, [] => []
  | index, v :: rows => match read v with
    | .error e => .record index e :: refused read (index + 1) rows
    | .ok _ => refused read (index + 1) rows

/-- The report on a batch. -/
def reportOn (read : Json → Except RecordError α) (rows : List Json) : FeedReport :=
  ⟨(accepted read rows).length, refused read 0 rows⟩

namespace Ledger

/-- Applies account rows in turn. -/
def applyAccounts (l : Ledger) (rows : List Json) : Ledger :=
  (accepted AccountRecord.readUpdate rows).foldl update l

/-- Replaces the queues. -/
def replaceQueues (l : Ledger) (rows : List Json) : Ledger :=
  { l with queues := .ofList (accepted QueueRecord.readDef rows) }

/-- Replaces the known projects. -/
def replaceProjects (l : Ledger) (rows : List Json) : Ledger :=
  { l with projects := .ofList (accepted ProjectRecord.readName rows) }

end Ledger

/-- What the rows of a batch are about. -/
inductive FeedKind where
  /-- Accounts. -/
  | accounts
  /-- Queues. -/
  | queues
  /-- Projects. -/
  | projects
  deriving DecidableEq, Repr

/-- Applies rows to the ledger. -/
def Ledger.apply (l : Ledger) (kind : FeedKind) (rows : List Json) : FeedReport × Ledger :=
  match kind with
  | .accounts => (reportOn AccountRecord.readUpdate rows, l.applyAccounts rows)
  | .queues => (reportOn QueueRecord.readDef rows, l.replaceQueues rows)
  | .projects => (reportOn ProjectRecord.readName rows, l.replaceProjects rows)

end JobAdmission
