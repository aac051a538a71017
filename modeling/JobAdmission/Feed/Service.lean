import JobAdmission.Engine.Basic

/-!
# The feed service

This module holds the service that takes requests of the accounting feed and works them
off later, in the order of their arrival. Every request that was taken is answered once:
with its report, or, if the service stops before, with an error.
-/

namespace JobAdmission

/-- A request to the feed service. -/
inductive FeedRequest where
  /-- Rows of a kind. -/
  | rows (kind : FeedKind) (batch : Batch)
  /-- A demand for new priorities. -/
  | reprioritize

/-- The feed service. -/
structure FeedService where
  /-- The service has stopped. -/
  stopped : Bool := false
  /-- The requests that were taken and are not answered yet, oldest first. -/
  waiting : List FeedRequest := []

namespace FeedService

variable {H : Type} [Scheduler H]

/-- Takes a request. -/
def push (s : FeedService) (r : FeedRequest) : Except FeedError FeedService :=
  if s.stopped then .error .serviceStopped else .ok { s with waiting := s.waiting ++ [r] }

/-- Stops the service. -/
def stop (s : FeedService) : FeedService := { s with stopped := true }

/-- Works a request off. A demand for new priorities that the host refuses is reported
like one that it carries out. -/
def apply (e : Engine H) : FeedRequest → FeedReport × Engine H
  | .rows kind batch => e.ingest kind batch.data
  | .reprioritize => ({}, e.reprioritize.2)

/-- Works requests off in order. -/
def applyAll (e : Engine H) : List FeedRequest → List FeedReport × Engine H
  | [] => ([], e)
  | r :: rs =>
    let (report, e) := apply e r
    let (reports, e) := applyAll e rs
    (report :: reports, e)

/-- Answers all waiting requests, in order. -/
def settle (s : FeedService) (e : Engine H) :
    List (Except FeedError FeedReport) × Engine H :=
  if s.stopped then (s.waiting.map fun _ => .error .serviceStopped, e)
  else
    let (reports, e) := applyAll e s.waiting
    (reports.map .ok, e)

end FeedService

end JobAdmission
