import JobAdmission.Proofs.Calls
import JobAdmission.Proofs.Counting

/-!
# Counters

This module proves that the counters of every account are exact in every world that a run
leads to (`World.Reached.counters_exact`), whatever the scheduler refuses: each is the
number of live jobs that are bound to the account and say of themselves that they are
counted, and the gate knows only live jobs of the account, each in one place. A counter has
32 bits and goes round, so it is exact in runs in which at no time more jobs are bound to the
account than it can tell (`World.LightOrder`). What the gate knows hangs on no counter.
-/

namespace JobAdmission

namespace World

variable {H : Type}

/-- The live jobs that are bound to the account of a key and whose binding has a property. -/
def boundJobs (w : World H) (k : AccountKey) (p : JobBinding → Bool) : Finset JobId :=
  w.arrived.filter fun j =>
    (w.live j).any fun l => l.storage.binding.any fun b => decide (b.account.key = k) && p b

/-- How many live jobs are bound to the account of a key. -/
def load (w : World H) (k : AccountKey) : ℕ := (w.boundJobs k fun _ => true).card

/-- The next event is allowed, and after it not more jobs are bound to the account of a key than
its counters can tell. -/
def LightOrder [Scheduler H] (k : AccountKey) (rule : World H → Event H → Prop) (w : World H)
    (ev : Event H) : Prop :=
  rule w ev ∧ (w.after ev).load k < UInt32.size

instance [Scheduler H] (k : AccountKey) (rule : World H → Event H → Prop) (w : World H)
    [DecidablePred (rule w)] : DecidablePred (LightOrder k rule w) := fun ev =>
  inferInstanceAs (Decidable (rule w ev ∧ (w.after ev).load k < UInt32.size))

/-- The job is live and bound to the account of the key, it came to the throttle and does not
run, and says of itself that it has no slot. -/
def WaitsAt (w : World H) (k : AccountKey) (j : JobId) : Prop :=
  ∃ l b, w.live j = some l ∧ l.storage.binding = some b ∧ b.account.key = k ∧
    (l.phase = .waiting ∨ l.phase = .ready) ∧ b.runReserved = false ∧ b.countedRunning = false

/-- The account's counters are exact: each is the number of the live jobs that it counts,
where a released job counts as one with a reserved slot. -/
structure Exact (w : World H) (k : AccountKey) (a : Account) : Prop where
  active : a.usage.active.toNat = (w.boundJobs k (·.countedActive)).card
  running : a.usage.running.toNat = (w.boundJobs k (·.countedRunning)).card
  reserved : a.usage.gate.reserved.toNat =
    (w.boundJobs k (·.runReserved)).card + a.usage.gate.released.size

/-- The account's gate holds no job twice and none that it released, and all its jobs are the
account's own. -/
structure Queued (w : World H) (k : AccountKey) (a : Account) : Prop where
  nodup : a.usage.gate.held.Nodup
  disjoint : ∀ j ∈ a.usage.gate.held, j ∉ a.usage.gate.released
  held : ∀ j ∈ a.usage.gate.held, w.WaitsAt k j
  released : ∀ j ∈ a.usage.gate.released, w.WaitsAt k j

/-! ### Jobs of an account -/

section Jobs

variable {w : World H} {k : AccountKey} {p : JobBinding → Bool} {j : JobId} {m : Member}

theorem member_eq_some :
    (w.scene k).member j = some m ↔
      ∃ l b, w.live j = some l ∧ l.storage.binding = some b ∧ b.account.key = k ∧
        m = ⟨l.phase, b, l.storage.hasDependency heldLabel⟩ := by
  simp only [scene, Option.bind_eq_some_iff, LiveJob.memberAt_eq_some]
  constructor
  · rintro ⟨l, hl, b, hb⟩
    exact ⟨l, b, hl, hb⟩
  · rintro ⟨l, b, hl, hb⟩
    exact ⟨l, hl, b, hb⟩

variable (known : ∀ j l, w.live j = some l → j ∈ w.arrived)

include known

/-- The set of a world's jobs misses none. -/
theorem mem_boundJobs : j ∈ w.boundJobs k p ↔
    ∃ l b, w.live j = some l ∧ l.storage.binding = some b ∧ b.account.key = k ∧ p b = true := by
  simp only [boundJobs, Finset.mem_filter, Option.any_eq_true, Bool.and_eq_true, decide_eq_true_iff]
  constructor
  · rintro ⟨-, l, hl, b, hb, hk, hp⟩
    exact ⟨l, b, hl, hb, hk, hp⟩
  · rintro ⟨l, b, hl, hb, hk, hp⟩
    exact ⟨known j l hl, l, hl, b, hb, hk, hp⟩

/-- The jobs of an account are those that it sees. -/
theorem mem_boundJobs_iff : j ∈ w.boundJobs k p ↔
    ∃ m, (w.scene k).member j = some m ∧ p m.binding = true := by
  simp only [mem_boundJobs known, member_eq_some]
  constructor
  · rintro ⟨l, b, hl, hb, hk, hp⟩
    exact ⟨_, ⟨l, b, hl, hb, hk, rfl⟩, hp⟩
  · rintro ⟨_, ⟨l, b, hl, hb, hk, rfl⟩, hp⟩
    exact ⟨l, b, hl, hb, hk, hp⟩

theorem card_boundJobs (k : AccountKey) (p : JobBinding → Bool) :
    (w.boundJobs k p).card = tally w.arrived (w.scene k).member p := by
  unfold tally
  congr 1
  ext j
  rw [mem_boundJobs_iff known, Finset.mem_filter, Option.any_eq_true, iff_and_self]
  rintro ⟨m, hm, -⟩
  obtain ⟨l, _, hl, -⟩ := member_eq_some.mp hm
  exact known j l hl

end Jobs

theorem waitsAt_of_fits {w : World H} {k : AccountKey} {g : Gate} {j : JobId} {m : Member}
    (hm : (w.scene k).member j = some m) (fits : m.Fits g j) (hs : m.Slotless)
    (hj : j ∈ g.held ∨ j ∈ g.released) : w.WaitsAt k j := by
  obtain ⟨l, b, hl, hb, hk, rfl⟩ := member_eq_some.mp hm
  refine ⟨l, b, hl, hb, hk, ?_, hs⟩
  have early : ¬(l.phase = .fresh ∨ l.phase = .stopped) := by
    intro hp
    obtain ⟨-, hheld, hreleased⟩ := fits.early hp
    exact hj.elim hheld hreleased
  have running : l.phase ≠ .running := by
    intro hp
    have counted : b.countedRunning = true := fits.counted.mpr hp
    simp [show b.countedRunning = false from hs.2] at counted
  cases hp : l.phase <;> simp_all

theorem Sound.queued {w : World H} (hs : w.Sound) {k : AccountKey} {a : Account}
    (ha : w.account k = some a) : w.Queued k a := by
  have books := (hs.scenes k).books a ha
  refine ⟨books.nodup, fun j hj => ?_, fun j hj => ?_, fun j hj => ?_⟩
  · obtain ⟨m, hm⟩ := books.held j hj
    exact ((books.fits j m hm).held hj).2
  · obtain ⟨m, hm⟩ := books.held j hj
    have fits := books.fits j m hm
    exact waitsAt_of_fits hm fits (fits.held hj).1 (.inl hj)
  · obtain ⟨m, hm⟩ := books.released j hj
    have fits := books.fits j m hm
    exact waitsAt_of_fits hm fits (fits.released hj) (.inr hj)

/-! ### Runs that the counters can follow -/

section Light

variable {w : World H} {k : AccountKey}

theorem Sound.load_eq (hs : w.Sound) (k : AccountKey) : w.load k = (w.scene k).load :=
  card_boundJobs hs.known k _

theorem Sound.exact_of_counted (hs : w.Sound) (C : (w.scene k).Counted) {a : Account}
    (ha : w.account k = some a) : w.Exact k a := by
  have counted := C a ha
  constructor
  · rw [card_boundJobs hs.known]
    exact counted.active
  · rw [card_boundJobs hs.known]
    exact counted.running
  · rw [card_boundJobs hs.known]
    exact counted.balanced

theorem start_load (config : Config) (host : H) (audit : Option AuditTrail) :
    (start config host audit).load k < UInt32.size := by
  simp [load, boundJobs, start]

theorem start_counted (config : Config) (host : H) (audit : Option AuditTrail) :
    ((start config host audit).scene k).Counted := fun a ha => by
  cases (account_start config host audit k).symm.trans ha

variable [Scheduler H] {rule : World H → Event H → Prop} {ev : Event H}

/-- The counters of an account stay exact in an event after which they can tell the number of its
jobs. -/
theorem Sound.counted_after (hs : w.Sound) (C : (w.scene k).Counted) (h : w.HostOrder ev)
    (few : (w.after ev).load k < UInt32.size) : ((w.after ev).scene k).Counted := by
  obtain ⟨rs, step⟩ := hs.scene_step h k
  exact step.counted (hs.scenes k) C ((hs.after h).load_eq k ▸ few)

theorem LightOrder.order (w : World H) (ev : Event H) (h : LightOrder k rule w ev) : rule w ev :=
  h.1

theorem Reached.load_lt (h : w.Reached (LightOrder k rule)) : w.load k < UInt32.size :=
  h.invariant (I := fun w => w.load k < UInt32.size) start_load fun _ _ _ light => light.2

/-- The counters of an account are exact in every world that a run leads to which they can
follow. -/
theorem Reached.counted (hrule : ∀ w ev, rule w ev → w.HostOrder ev)
    (h : w.Reached (LightOrder k rule)) : w.Sound ∧ (w.scene k).Counted := by
  refine h.invariant (I := fun w => w.Sound ∧ (w.scene k).Counted) ?_ ?_
  · exact fun config host audit =>
      ⟨start_sound config host audit, start_counted config host audit⟩
  · rintro w ev ⟨hs, C⟩ h
    have order := hrule w ev h.1
    exact ⟨hs.after order, hs.counted_after C order h.2⟩

/-- In every world that a run leads to, the gate of an account knows only live jobs of the account,
each in one place. The account's counters are exact if the run is one that they can follow. -/
theorem Reached.counters_exact (h : w.Reached HostOrder) {a : Account}
    (ha : w.account k = some a) :
    w.Queued k a ∧ (w.Reached (LightOrder k HostOrder) → w.Exact k a) := by
  refine ⟨h.sound.queued ha, fun light => ?_⟩
  obtain ⟨hs, C⟩ := light.counted fun _ _ order => order
  exact hs.exact_of_counted C ha

end Light

/-- The sample is a run that the counters of its account can follow. -/
theorem Sample.light : (Sample.start.afterAll Sample.events).Reached
    (LightOrder Sample.key ReleasingOrder) :=
  ⟨Config.default, {}, none, Sample.events, by decide +kernel, rfl⟩

/-- In the sample, one of two jobs runs and the other one is held. -/
theorem sample_exact : (Sample.start.afterAll Sample.events).Reached HostOrder ∧
    ∃ a, (Sample.start.afterAll Sample.events).account Sample.key = some a ∧
      (a.usage.active, a.usage.running, a.usage.gate.held) = (2, 1, [8]) ∧
      (Sample.start.afterAll Sample.events).Queued Sample.key a ∧
      (Sample.start.afterAll Sample.events).Exact Sample.key a := by
  have reached := Sample.reached.mono ReleasingOrder.hostOrder
  have light : (Sample.start.afterAll Sample.events).Reached (LightOrder Sample.key HostOrder) :=
    Sample.light.mono fun w ev h => ⟨ReleasingOrder.hostOrder w ev h.1, h.2⟩
  have seen : ((Sample.start.afterAll Sample.events).account Sample.key).map
      (fun a => (a.usage.active, a.usage.running, a.usage.gate.held)) = some (2, 1, [8]) := by
    decide +kernel
  obtain ⟨a, ha, hseen⟩ := Option.map_eq_some_iff.mp seen
  obtain ⟨queued, exact⟩ := reached.counters_exact ha
  exact ⟨reached, a, ha, hseen, queued, exact light⟩

end World

end JobAdmission
