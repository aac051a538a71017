import JobAdmission.Engine.Admission
import JobAdmission.Engine.Prioritize

/-!
# Topics and replies

This module holds the events of jobs under the names that a host delivers them by, with
their arguments as JSON data, and the replies to them. An event of another name is
ignored, whatever its arguments are.
-/

namespace JobAdmission

/-- What an event of a job is about. -/
inductive Topic where
  /-- The job is to be validated. -/
  | validate
  /-- The job is new. -/
  | new
  /-- The job waits for dependencies. -/
  | depend
  /-- The job waits for a priority. -/
  | priority
  /-- The job's priority is asked for anew. -/
  | priorityGet
  /-- The job runs. -/
  | run
  /-- The job is finished. -/
  | inactive
  /-- The job asks for another queue. -/
  | updateQueue
  /-- The job has another queue. -/
  | queueUpdated
  deriving DecidableEq, Repr

namespace Topic

/-- All topics. -/
def all : List Topic :=
  [.validate, .new, .depend, .priority, .priorityGet, .run, .inactive, .updateQueue,
   .queueUpdated]

/-- The name that events of a topic come under. -/
def name : Topic → String
  | .validate => "job.validate"
  | .new => "job.new"
  | .depend => "job.state.depend"
  | .priority => "job.state.priority"
  | .priorityGet => "job.priority.get"
  | .run => "job.state.run"
  | .inactive => "job.state.inactive"
  | .updateQueue => "job.update.attributes.system.queue"
  | .queueUpdated => "job.event.update"

/-- The topic of a name. -/
def ofName? (name : String) : Option Topic := all.find? fun t => t.name = name

/-- The wording for a name of no topic. -/
def unknownMessage (name : String) : String := "unknown topic " ++ name

end Topic

/-- The reply to an event. -/
inductive Reply where
  /-- The event was accepted. -/
  | accepted
  /-- The job is held. -/
  | held
  /-- The priority of the job. -/
  | priority (value : Int64)
  /-- There is no priority yet. -/
  | unavailable
  /-- The event is none of a job. -/
  | ignored
  deriving DecidableEq, Repr

namespace Reply

/-- Reads a reply. -/
def decode : Decoder Reply :=
  Decoder.variant
    [("accepted", .plain .accepted), ("held", .plain .held),
     ("priority", .carrying fun v => (Decoder.int64 v).map .priority),
     ("unavailable", .plain .unavailable), ("ignored", .plain .ignored)]

/-- The written form of a reply. -/
def encode : Reply → Json
  | .accepted => .string "accepted"
  | .held => .string "held"
  | .priority value => .ofEntries [("priority", .ofInt64 value)]
  | .unavailable => .string "unavailable"
  | .ignored => .string "ignored"

/-- The reply to a job that waits for dependencies. -/
def ofDepend : Engine.DependOutcome → Reply
  | .proceed => .accepted
  | .held => .held

/-- The reply to a job that waits for a priority. -/
def ofPriority : Engine.PriorityOutcome → Reply
  | .value p => .priority (Int64.ofInt p)
  | .unavailable => .unavailable

end Reply

namespace Step

/-- The same step with another answer. -/
def map (f : α → β) (s : Step α H) : Step β H := ⟨s.outcome.map f, s.engine, s.storage⟩

end Step

namespace Engine

variable {H : Type} [Scheduler H]

/-- The error for arguments that are refused, which is no matter of the audit trail. -/
def unpackError (topic : Topic) (reason : DecodeError) : HandlerError :=
  if topic = .validate then .rejected (.unpack reason) else .fault (.unpack reason)

/-- The queue that the arguments of an event propose. -/
def proposedQueue (args : Json) : Option String := (args.get? "value").bind Json.asString?

/-- The step of a topic for a job, given the arguments that it was read from. -/
def stepOf (e : Engine H) (topic : Topic) (args : Json) (job : Job) (s : JobStorage) :
    Step Reply H :=
  match topic with
  | .validate => (e.validate job s).map fun _ => .accepted
  | .new => (e.newJob job s).map fun _ => .accepted
  | .depend => (e.depend job s).map .ofDepend
  | .priority => (e.priority job s).map .ofPriority
  | .priorityGet => (e.priority job s).map .ofPriority
  | .run => (e.run job s).map fun _ => .accepted
  | .inactive => (e.inactive job s).map fun _ => .accepted
  | .updateQueue => (e.updateQueue job s (proposedQueue args)).map fun _ => .accepted
  | .queueUpdated => (e.queueUpdated job s).map fun _ => .accepted

/-- Takes an event by its name and arguments, which are data in normal form. -/
def dispatch (e : Engine H) (name : String) (args : Json) (s : JobStorage) : Step Reply H :=
  match Topic.ofName? name with
  | none => e.done s .ignored
  | some topic => match Job.decode args with
    | .error reason => ⟨.error (unpackError topic reason), e, s⟩
    | .ok job => e.stepOf topic args job s

end Engine

end JobAdmission
