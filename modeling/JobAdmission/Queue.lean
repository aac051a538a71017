import JobAdmission.Record.Fields
import Std.Data.ExtTreeMap

/-!
# Queues

This module holds the queues that jobs are submitted under, and what a queue means
for a job of an account (`QueueTable.resolve`): a queue that is not defined blocks
nothing, a defined one has to be permitted to the account.
-/

namespace JobAdmission

/-- The definition of a queue. -/
structure QueueDef where
  /-- The name of the queue. -/
  name : String
  /-- The least number of nodes of a job, for information. -/
  minNodesPerJob : Int64
  /-- The greatest number of nodes of a job, for information. -/
  maxNodesPerJob : Int64
  /-- The greatest duration of a job, for information. -/
  maxTimePerJob : Int64
  /-- The factor of the queue in priorities. -/
  priority : Int64
  deriving DecidableEq, Repr

namespace QueueDef

/-- The fields of a definition, in declared order. -/
def fields : Fields QueueDef :=
  QueueDef.mk <$> .required "name" Decoder.string
    <*> .required "min_nodes_per_job" Decoder.int64
    <*> .required "max_nodes_per_job" Decoder.int64
    <*> .required "max_time_per_job" Decoder.int64
    <*> .required "priority" Decoder.int64

/-- Reads a definition. -/
def decode : Decoder QueueDef := fields.decode "struct QueueDef"

/-- The written fields of a definition, in declared order. -/
def entries (q : QueueDef) : List (String × Json) :=
  [("name", .string q.name),
   ("min_nodes_per_job", .ofInt64 q.minNodesPerJob),
   ("max_nodes_per_job", .ofInt64 q.maxNodesPerJob),
   ("max_time_per_job", .ofInt64 q.maxTimePerJob),
   ("priority", .ofInt64 q.priority)]

/-- The written form of a definition. -/
def encode (q : QueueDef) : Json := .ofEntries q.entries

end QueueDef

/-- The defined queues, by name. -/
abbrev QueueTable := Std.ExtTreeMap String QueueDef

/-- What the queue of a job means for it. -/
inductive QueueResolution where
  /-- The job names no queue. -/
  | noQueueRequested
  /-- The job names a queue that is not defined. -/
  | unknownQueue
  /-- The job names a queue that its account does not permit. -/
  | invalidQueue
  /-- The job names a permitted queue with this factor. -/
  | permitted (factor : Int64)
  deriving DecidableEq, Repr

/-- The factor of the queue in the job's priority; nothing if the queue is invalid. -/
def QueueResolution.factor : QueueResolution → Option Int64
  | .noQueueRequested => some 0
  | .unknownQueue => some 0
  | .invalidQueue => none
  | .permitted factor => some factor

namespace QueueTable

/-- The table of some definitions. Of two under one name the later one stays. -/
def ofList (defs : List QueueDef) : QueueTable :=
  defs.foldl (fun table q => table.insert q.name q) ∅

/-- What a queue, or none, means for a job of an account that permits some queues. -/
def resolve (table : QueueTable) (permitted : List String) :
    Option String → QueueResolution
  | none => .noQueueRequested
  | some name => match table[name]? with
    | none => .unknownQueue
    | some q => if permitted.contains name then .permitted q.priority else .invalidQueue

end QueueTable

end JobAdmission
