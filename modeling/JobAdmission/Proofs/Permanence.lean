import JobAdmission.Proofs.AccountRows
import JobAdmission.Proofs.Binding

/-!
# Accounts that stay

This module proves that the ledger and the jobs fit together in every world, and that an
account, once it is there, stays for ever (`World.Reached.filed`). All that is asked of the
events is that a job keeps its user: the feed may tell anything, and calls may come in any
order. An account is kept under its key, a placeholder is in the placeholders' bank, a user
with an account has a default bank, and a job holds the very account that is kept under its
user and the bank of the account. No event removes an account or puts another one in its place,
so a handle never grows stale: the feed gives the account other terms, and a call changes what
its jobs take up. So an account that is real stays real, and once
the feed told of one, `validate` creates no placeholder any more and turns away every job for
which no account is found.
-/

namespace JobAdmission

namespace World

variable {H : Type} [Scheduler H] {owner : JobId → UserId} {w : World H} {ev : Event H}
  {es : List (Event H)} {k : AccountKey} {a : Account} {j : JobId}

/-- Every call on a job comes from the user that owns the job. -/
def KeepsUsers (owner : JobId → UserId) (_ : World H) : Event H → Prop
  | .call _ _ job => job.userid = owner job.id
  | _ => True

instance (owner : JobId → UserId) (w : World H) : DecidablePred (KeepsUsers owner w)
  | .feed _ _ | .reprioritize | .scheduler _ => .isTrue trivial
  | .call _ _ job => inferInstanceAs (Decidable (job.userid = owner job.id))

/-! ### What an event keeps -/

/-- The ledger and the jobs fit together. -/
structure Filed (owner : JobId → UserId) (w : World H) : Prop where
  /-- An account is kept under its key. -/
  keyed : ∀ k a, w.account k = some a → a.key = k
  /-- No account but the one that is kept under a key was ever created for it, so whoever holds
  an account holds the one that is kept. -/
  kept : ∀ h a, w.engine.ledger.objects[h]? = some a →
    a.handle = h ∧ w.engine.ledger.handle? h.key = some h ∧ w.account h.key = some a
  /-- A placeholder is in the placeholders' bank. -/
  standIns : ∀ k a, w.account k = some a → a.isPlaceholder = true →
    k.bank = Account.placeholderBank
  /-- A user with an account has a default bank. -/
  banked : ∀ k a, w.account k = some a →
    ∃ bank, w.engine.ledger.defaultBanks[k.userid]? = some bank
  /-- A job holds the very account that is kept under its user and the bank of the account. -/
  homes : ∀ j b, (w.storage j).binding = some b →
    ∃ a, w.engine.boundAccount (w.storage j) = some (b, a) ∧
      w.account ⟨owner j, a.key.bank⟩ = some a ∧
      w.engine.ledger.handle? ⟨owner j, a.key.bank⟩ = some b.account

/-- What an event keeps of that: placeholders are in their own bank, and a job is bound to an
account of its user's that is there and is the one that the job holds. -/
structure Homed (owner : JobId → UserId) (w : World H) : Prop where
  standIns : ∀ k a, w.account k = some a → a.isPlaceholder = true →
    k.bank = Account.placeholderBank
  homes : ∀ j b, (w.storage j).binding = some b →
    b.account.key.userid = owner j ∧ ∃ a, w.account b.account.key = some a ∧ a.handle = b.account

omit [Scheduler H] in
theorem start_homed (owner : JobId → UserId) (config : Config) (host : H)
    (audit : Option AuditTrail) : (start config host audit).Homed owner where
  standIns k a ha := by cases (account_start config host audit k).symm.trans ha
  homes j b hb := by cases hb

theorem Homed.after (hw : w.Homed owner) (h : KeepsUsers owner w ev) :
    (w.after ev).Homed owner where
  standIns := standIns_after hw.standIns
  homes j b hb := by
    have home : (w.after ev).handleOf j = some b.account := by rw [handleOf, hb]; rfl
    by_cases hbefore : w.handleOf j = some b.account
    · obtain ⟨b₀, hb₀, same⟩ := Option.map_eq_some_iff.mp hbefore
      obtain ⟨hu, a, ha, handle⟩ := hw.homes j b₀ hb₀
      obtain ⟨a', ha', handle'⟩ : ∃ a', (w.after ev).account b₀.account.key = some a' ∧
        a'.handle = a.handle := exists_account_after ha
      rw [same] at hu ha' handle
      exact ⟨hu, a', ha', handle'.trans handle⟩
    · obtain ⟨topic, args, job, rfl, rfl, -, hu, there⟩ := home_of_handleOf home hbefore
      exact ⟨hu.trans h, there⟩

omit [Scheduler H] in
/-- What events keep is that the ledger and the jobs fit together. -/
theorem filed_of_homed (hw : w.Homed owner) (keyed : w.engine.ledger.Keyed)
    (banked : w.engine.ledger.Banked) : w.Filed owner where
  keyed _ _ ha := Ledger.key_of_account? ha
  kept h a ha := by
    have handle := w.engine.ledger.own h a ha
    have there := keyed.kept ha
    exact ⟨handle, (Ledger.handle?_of_account? there).trans (congrArg some handle), there⟩
  standIns := hw.standIns
  banked := banked
  homes j b hb := by
    obtain ⟨hu, a, ha, handle⟩ := hw.homes j b hb
    have key : (⟨owner j, a.key.bank⟩ : AccountKey) = b.account.key := by
      rw [Ledger.key_of_account? ha, ← hu]
    refine ⟨a, Engine.boundAccount_eq_some.mpr ⟨hb, handle ▸ Ledger.object_of_account? ha⟩, ?_⟩
    rw [key]
    exact ⟨ha, (Ledger.handle?_of_account? ha).trans (congrArg some handle)⟩

/-! ### Runs -/

/-- An account stays along a run, and real if it is. -/
theorem account_stays (es : List (Event H)) (ha : w.account k = some a) :
    ∃ a', (w.afterAll es).account k = some a' ∧ a'.handle = a.handle ∧
      (a.isPlaceholder = false → a'.isPlaceholder = false) := by
  induction es generalizing w a with
  | nil => exact ⟨a, ha, rfl, id⟩
  | cons ev es ih =>
    obtain ⟨a₁, ha₁, evolves⟩ := account_evolves ev ha
    obtain ⟨a₂, ha₂, handle, real⟩ := ih ha₁
    exact ⟨a₂, ha₂, handle.trans evolves.stays.1, fun hreal => real (evolves.stays.2 hreal)⟩

/-- The rows tell of an account, and it is real then. -/
theorem real_after_rows {rows : List Json} {u : AccountUpdate}
    (hu : u ∈ accepted AccountRecord.readUpdate rows) :
    ∃ a, (w.after (.feed .accounts rows)).account u.key = some a ∧ a.isPlaceholder = false := by
  rw [account_after_feed]
  have told : u.terms ∈ (.feed .accounts rows : Event H).granted u.key :=
    List.mem_map_of_mem (List.mem_filter.mpr ⟨hu, decide_eq_true rfl⟩)
  cases hlast : ((.feed .accounts rows : Event H).granted u.key).getLast? with
  | none =>
    rw [List.getLast?_eq_none_iff] at hlast
    simp [hlast] at told
  | some terms =>
    refine ⟨_, rfl, ?_⟩
    cases w.account u.key with
    | none => rfl
    | some a => rfl

omit [Scheduler H] in
/-- Where an account is real, `validate` leaves the ledger alone and turns away a job that has no
account. -/
theorem validate_of_real {e : Engine H} (ha : e.ledger.account? k = some a)
    (real : a.isPlaceholder = false) (job : Job) (s : JobStorage) :
    (e.validate job s).engine.ledger = e.ledger ∧
      (e.ledger.lookup job.userid job.bank = .notFound →
        (e.validate job s).outcome = .error (.rejected (.unknownAccount job.userid))) := by
  have told : e.ledger.onlyPlaceholders ≠ true := fun only => by
    simp [Ledger.onlyPlaceholders_iff.mp only k a ha] at real
  unfold Engine.validate
  constructor
  · split
    · rfl
    · rw [if_neg told]
      rfl
    · split <;> rfl
  · intro absent
    rw [absent]
    exact congrArg Step.outcome (if_neg told)

/-- Whatever happens, as long as jobs keep their users, the ledger and the jobs fit together, and
accounts stay: an event changes them in place, so the account under a key is always the same one,
and real ones stay real. Once the feed told of an account, it is never again as if it had told of
none. -/
theorem Reached.filed (h : w.Reached (KeepsUsers owner)) :
    w.Filed owner ∧
    (∀ ev k a, w.account k = some a →
      ∃ a', (w.after ev).account k = some a' ∧ a'.handle = a.handle ∧ a.Evolves a' ev) ∧
    (∀ es k a, w.account k = some a → ∃ a', (w.afterAll es).account k = some a' ∧
      a'.handle = a.handle ∧ (a.isPlaceholder = false → a'.isPlaceholder = false)) ∧
    ∀ rows, (∃ row ∈ rows, ∃ u, AccountRecord.readUpdate row = .ok u) → ∀ es w',
      (w.after (.feed .accounts rows)).afterAll es = w' →
        w'.engine.ledger.onlyPlaceholders = false ∧
        ∀ job s, (w'.engine.validate job s).engine.ledger = w'.engine.ledger ∧
          (w'.engine.ledger.lookup job.userid job.bank = .notFound →
            (w'.engine.validate job s).outcome =
              .error (.rejected (.unknownAccount job.userid))) := by
  have homed : w.Homed owner :=
    h.invariant (I := Homed owner) (start_homed owner) fun _ _ hw rule => hw.after rule
  refine ⟨filed_of_homed homed h.keyed h.banked, fun ev k a ha => ?_,
    fun es k a ha => account_stays es ha, ?_⟩
  · obtain ⟨a', ha', evolves⟩ := account_evolves ev ha
    exact ⟨a', ha', evolves.stays.1, evolves⟩
  rintro rows ⟨row, hrow, u, hu⟩ es _ rfl
  obtain ⟨a, ha, real⟩ := real_after_rows (w := w) (mem_accepted.mpr ⟨row, hrow, hu⟩)
  obtain ⟨a', ha', -, stays⟩ := account_stays es ha
  refine ⟨?_, validate_of_real ha' (stays real)⟩
  by_contra only
  rw [Bool.not_eq_false, Ledger.onlyPlaceholders_iff] at only
  simp [only _ a' ha'] at stays
  exact absurd real (by simpa using stays)

/-! ### A sample -/

namespace Sample

/-- A job waits at the placeholder of its user, and then the feed tells of an account in the
placeholders' bank. -/
def takenOver : List (Event Host) :=
  [.call .new .null (job 7), .feed .accounts [recordIn Account.placeholderBank 0]]

/-- A job of another user. -/
def stranger : Job where
  id := 9
  userid := 2

theorem takenOver_reached :
    (start.afterAll takenOver).Reached (KeepsUsers fun _ => key.userid) :=
  ⟨Config.default, {}, none, takenOver, by decide +kernel, rfl⟩

end Sample

theorem sample_filed :
    (∃ a, (Sample.start.afterAll Sample.takenOver).account
        ⟨Sample.key.userid, Account.placeholderBank⟩ = some a) ∧
      ((Sample.start.afterAll Sample.takenOver).engine.validate Sample.stranger {}).outcome =
        .error (.rejected (.unknownAccount 2)) := by
  obtain ⟨filed, -, -, -⟩ := Sample.takenOver_reached.filed
  have first : (Sample.start.afterAll (Sample.takenOver.take 1)).Reached
      (KeepsUsers fun _ => Sample.key.userid) :=
    ⟨Config.default, {}, none, Sample.takenOver.take 1, by decide +kernel, rfl⟩
  have bound : ((Sample.start.afterAll Sample.takenOver).storage 7).binding =
      some { account := ⟨⟨Sample.key.userid, Account.placeholderBank⟩, 0⟩ } := by decide +kernel
  constructor
  · obtain ⟨a, -, ha, held⟩ := filed.homes 7 _ bound
    rw [← Ledger.key_of_handle? held] at ha
    exact ⟨a, ha⟩
  · have told : accepted AccountRecord.readUpdate
        [Sample.recordIn Account.placeholderBank 0] ≠ [] := by decide +kernel
    obtain ⟨u, hu⟩ := List.exists_mem_of_ne_nil _ told
    obtain ⟨row, hrow, hu⟩ := mem_accepted.mp hu
    have later := first.filed.2.2.2 _ ⟨row, hrow, u, hu⟩ []
      (Sample.start.afterAll Sample.takenOver) (by simp only [Sample.takenOver, List.take, afterAll,
        List.foldl])
    have noBank : (Sample.start.afterAll Sample.takenOver).engine.ledger.bankFor 2 none = none := by
      decide +kernel
    refine (later.2 Sample.stranger {}).2 ?_
    change Ledger.lookup _ 2 none = .notFound
    rw [Ledger.lookup, noBank]
    rfl

end World

end JobAdmission
