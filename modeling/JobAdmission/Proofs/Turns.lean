import JobAdmission.Proofs.Keeping
import JobAdmission.Proofs.Locality

/-!
# Engines at work

This module follows an engine through whatever it is given to do. A turn is a batch of the
feed, a demand for new priorities, a change of the scheduler of its own, or a call on a job,
and a call may come in any order, on any job, and with anything kept for that job. An engine
is reached if turns lead to it from an empty ledger (`Engine.Reached`); on the way, another
engine may be set up over the ledger of an engine that was reached. No jobs are tracked here
(`World` does that), so what is proved of every reached engine rests on no promise of the host.
-/

namespace JobAdmission

/-! ### Turns -/

namespace Engine

/-- What an engine is given to do. -/
inductive Turn (H : Type) where
  /-- The feed delivers rows. -/
  | feed (kind : FeedKind) (rows : List Json)
  /-- New priorities are demanded. -/
  | reprioritize
  /-- The scheduler changes on its own. -/
  | scheduler (host : H)
  /-- The host calls on a job, for which it keeps this. -/
  | call (topic : Topic) (args : Json) (job : Job) (s : JobStorage)

variable {H : Type} [Scheduler H]

/-- The engine after a turn. -/
def take (e : Engine H) : Turn H → Engine H
  | .feed kind rows => (e.ingest kind rows).2
  | .reprioritize => e.reprioritize.2
  | .scheduler host => { e with host }
  | .call topic args job s => (e.stepOf topic args job s).engine

/-- The engine after turns, one by one. -/
def takeAll (e : Engine H) (ts : List (Turn H)) : Engine H := ts.foldl take e

/-- Turns lead to this engine, where every engine on the way was set up with an allowed
configuration: the first one over an empty ledger, and each other one over the ledger of one
before. -/
inductive Reached (allowed : Config → Prop) : Engine H → Prop where
  /-- An engine is set up. -/
  | built {config : Config} (ok : allowed config) (host : H) (audit : Option AuditTrail) :
    Reached allowed { config, host, audit }
  /-- An engine is set up over the ledger of another one. -/
  | rebuilt {e : Engine H} (h : Reached allowed e) {config : Config} (ok : allowed config)
    (host : H) (audit : Option AuditTrail) :
    Reached allowed { config, ledger := e.ledger, host, audit }
  /-- The engine takes a turn. -/
  | turn {e : Engine H} (h : Reached allowed e) (t : Turn H) : Reached allowed (e.take t)

variable {e : Engine H} {allowed : Config → Prop}

theorem take_config (e : Engine H) (t : Turn H) : (e.take t).config = e.config := by
  cases t with
  | feed | reprioritize | scheduler => rfl
  | call topic args job s => exact e.stepOf_config topic args job s

/-- A turn delivers rows, or lets the ledger grow by a call, or leaves it alone. -/
theorem take_ledger_cases (e : Engine H) (t : Turn H) :
    (∃ kind rows, (e.take t).ledger = (e.ledger.apply kind rows).2) ∨
    (∃ topic args job s, (e.take t).ledger = (e.stepOf topic args job s).engine.ledger) ∨
    (e.take t).ledger = e.ledger := by
  cases t with
  | feed kind rows => exact .inl ⟨kind, rows, rfl⟩
  | reprioritize | scheduler => exact .inr (.inr rfl)
  | call topic args job s => exact .inr (.inl ⟨topic, args, job, s, rfl⟩)

/-- Where the feed tells nothing, the ledger only grows. -/
theorem growsTo_take (e : Engine H) {t : Turn H} (quiet : ∀ kind rows, t ≠ .feed kind rows) :
    e.ledger.GrowsTo (e.take t).ledger := by
  cases t with
  | feed kind rows => exact absurd rfl (quiet kind rows)
  | reprioritize | scheduler => exact .refl _
  | call topic args job s => exact e.growsTo_stepOf topic args job s

theorem growsTo_takeAll (e : Engine H) {ts : List (Turn H)}
    (quiet : ∀ kind rows, .feed kind rows ∉ ts) : e.ledger.GrowsTo (e.takeAll ts).ledger := by
  induction ts generalizing e with
  | nil => exact .refl _
  | cons t ts ih =>
    have now : e.ledger.GrowsTo (e.take t).ledger := e.growsTo_take fun kind rows same =>
      quiet kind rows (same ▸ List.mem_cons_self)
    exact now.trans (ih (e.take t) fun kind rows h =>
      quiet kind rows (List.mem_cons_of_mem t h))

theorem Reached.takeAll (h : e.Reached allowed) (ts : List (Turn H)) :
    (e.takeAll ts).Reached allowed := by
  induction ts generalizing e with
  | nil => exact h
  | cons t ts ih => exact ih (h.turn t)

theorem Reached.allowed_config (h : e.Reached allowed) : allowed e.config := by
  induction h with
  | built ok | rebuilt _ ok => exact ok
  | turn _ t ih => exact (take_config _ t).symm ▸ ih

/-- What holds of the empty ledger and is kept by the rows of the feed and by every call holds of
the ledger of every engine that is reached. -/
theorem Reached.invariant {I : Ledger → Prop} (empty : I .empty)
    (feed : ∀ l kind rows, I l → I (l.apply kind rows).2)
    (call : ∀ (e : Engine H) topic args job s, allowed e.config → I e.ledger →
      I (e.stepOf topic args job s).engine.ledger)
    (h : e.Reached allowed) : I e.ledger := by
  induction h with
  | built => exact empty
  | rebuilt _ _ _ _ ih => exact ih
  | @turn e h t ih =>
    obtain ⟨kind, rows, same⟩ | ⟨topic, args, job, s, same⟩ | same := e.take_ledger_cases t
    · exact same ▸ feed _ kind rows ih
    · exact same ▸ call e topic args job s h.allowed_config ih
    · exact same ▸ ih

/-! ### A sample -/

/-- An engine with the default configuration, before its first turn. -/
def Sample.built : Engine Host := { config := .default, host := {} }

end Engine

end JobAdmission
