import JobAdmission.Engine.Dispatch
import JobAdmission.Proofs.ReadObjects

/-!
# Written forms

This module proves that every kind of data that is written is read back as what it was
(`writtenForms`): the rows of the feed and their batches, the definitions of queues, the snapshots
of accounts, configurations, states of jobs and replies. A record is read from its written form,
whose entries are in the order of their keys, and from the sequence of its written fields in their
declared order. The two fields of an account row that have a second name are read under either
name, and a row that gives both names of one field is refused. Only a number that is not finite
has no written form.
-/

namespace JobAdmission

/-! ### Records -/

/-- The value of a record type is read back. -/
structure ReadsBack {α : Type} (decode : Decoder α) (encode : α → Json)
    (entries : α → List (String × Json)) (a : α) : Prop where
  /-- From its written form. -/
  object : decode (encode a) = .ok a
  /-- From the sequence of its written fields, in declared order. -/
  sequence : decode (.array ((entries a).map (·.2))) = .ok a

namespace AccountRecord

theorem goBy : GoBy fields.columns (fields.columns.map (·.name)) := by decide +kernel

theorem apart : Apart fields.columns := by decide +kernel

theorem fills {r : AccountRecord} (finite : r.fairshare.isFinite = true) :
    fields.Fills (r.entries.map (·.2)) r :=
  (Fields.Fills.single (Decoder.uint32_ofUInt32 _)).map AccountRecord.mk
    |>.seq (.single (Decoder.string_string _))
    |>.seq (.single (Decoder.string_string _))
    |>.seq (.single (Decoder.float_ofFloat finite))
    |>.seq (.single (Decoder.int64_ofInt64 _))
    |>.seq (.single (Decoder.int64_ofInt64 _))
    |>.seq (.single (Decoder.string_string _))
    |>.seq (.single (Decoder.int64_ofInt64 _))
    |>.seq (.single (Decoder.string_string _))
    |>.seq (.single (Decoder.option_ofOption_string _))

theorem readsBack {r : AccountRecord} (finite : r.fairshare.isFinite = true) :
    ReadsBack decode encode entries r :=
  ⟨(fills finite).decode_ofEntries goBy _, (fills finite).decode_array _⟩

end AccountRecord

namespace QueueRecord

theorem goBy : GoBy fields.columns (fields.columns.map (·.name)) := by decide +kernel

theorem fills (r : QueueRecord) : fields.Fills (r.entries.map (·.2)) r :=
  (Fields.Fills.single (Decoder.string_string _)).map QueueRecord.mk
    |>.seq (.single (Decoder.int64_ofInt64 _))
    |>.seq (.single (Decoder.int64_ofInt64 _))
    |>.seq (.single (Decoder.int64_ofInt64 _))
    |>.seq (.single (Decoder.int64_ofInt64 _))

theorem readsBack (r : QueueRecord) : ReadsBack decode encode entries r :=
  ⟨r.fills.decode_ofEntries goBy _, r.fills.decode_array _⟩

end QueueRecord

namespace ProjectRecord

theorem goBy : GoBy fields.columns (fields.columns.map (·.name)) := by decide +kernel

theorem fills (r : ProjectRecord) : fields.Fills (r.entries.map (·.2)) r :=
  (Fields.Fills.single (Decoder.string_string _)).map ProjectRecord.mk

theorem readsBack (r : ProjectRecord) : ReadsBack decode encode entries r :=
  ⟨r.fills.decode_ofEntries goBy _, r.fills.decode_array _⟩

end ProjectRecord

namespace QueueDef

theorem goBy : GoBy fields.columns (fields.columns.map (·.name)) := by decide +kernel

theorem fills (q : QueueDef) : fields.Fills (q.entries.map (·.2)) q :=
  (Fields.Fills.single (Decoder.string_string _)).map QueueDef.mk
    |>.seq (.single (Decoder.int64_ofInt64 _))
    |>.seq (.single (Decoder.int64_ofInt64 _))
    |>.seq (.single (Decoder.int64_ofInt64 _))
    |>.seq (.single (Decoder.int64_ofInt64 _))

theorem readsBack (q : QueueDef) : ReadsBack decode encode entries q :=
  ⟨q.fills.decode_ofEntries goBy _, q.fills.decode_array _⟩

end QueueDef

namespace AccountSnapshot

theorem goBy : GoBy fields.columns (fields.columns.map (·.name)) := by decide +kernel

theorem fills {s : AccountSnapshot} (finite : s.fairshare.isFinite = true) :
    fields.Fills (s.entries.map (·.2)) s :=
  (Fields.Fills.single (Decoder.string_string _)).map AccountSnapshot.mk
    |>.seq (.single (Decoder.float_ofFloat finite))
    |>.seq (.single (Decoder.int64_ofInt64 _))
    |>.seq (.single (Decoder.uint32_ofUInt32 _))
    |>.seq (.single (Decoder.uint32_ofUInt32 _))
    |>.seq (.single (Decoder.uint32_ofUInt32 _))
    |>.seq (.single (Decoder.list_array fun _ _ => Decoder.word64_ofUInt64 _ _))
    |>.seq (.single (Decoder.list_ofStrings _))
    |>.seq (.single (Decoder.int64_ofInt64 _))
    |>.seq (.single (Decoder.boolean_boolean _))
    |>.seq (.single (Decoder.list_ofStrings _))
    |>.seq (.single (Decoder.option_ofOption_string _))

theorem readsBack {s : AccountSnapshot} (finite : s.fairshare.isFinite = true) :
    ReadsBack decode encode entries s :=
  ⟨(fills finite).decode_ofEntries goBy _, (fills finite).decode_array _⟩

end AccountSnapshot

namespace UserSnapshot

theorem goBy : GoBy fields.columns (fields.columns.map (·.name)) := by decide +kernel

theorem fills {s : UserSnapshot} (finite : ∀ b ∈ s.banks, b.fairshare.isFinite = true) :
    fields.Fills (s.entries.map (·.2)) s :=
  (Fields.Fills.single (Decoder.uint32_ofUInt32 _)).map UserSnapshot.mk
    |>.seq (.single (Decoder.list_array fun b hb =>
      (AccountSnapshot.readsBack (finite b hb)).object))

theorem readsBack {s : UserSnapshot} (finite : ∀ b ∈ s.banks, b.fairshare.isFinite = true) :
    ReadsBack decode encode entries s :=
  ⟨(fills finite).decode_ofEntries goBy _, (fills finite).decode_array _⟩

end UserSnapshot

namespace Config

theorem goBy : GoBy fields.columns (fields.columns.map (·.name)) := by decide +kernel

theorem fills {c : Config} (finite : c.placeholderFairshare.isFinite = true) :
    fields.Fills (c.entries.map (·.2)) c :=
  (Fields.Fills.single (Decoder.float_ofFloat finite)).map Config.mk
    |>.seq (.single (Decoder.boolean_boolean _))
    |>.seq (.single (Decoder.word64_ofUInt64 _ _))

theorem readsBack {c : Config} (finite : c.placeholderFairshare.isFinite = true) :
    ReadsBack decode encode entries c :=
  ⟨(fills finite).decode_ofEntries goBy _, (fills finite).decode_array _⟩

end Config

namespace Batch

theorem goBy : GoBy fields.columns (fields.columns.map (·.name)) := by decide +kernel

/-- The rows of a batch are read as they are. -/
theorem list_any (vs : List Json) : Decoder.list Decoder.any (.array vs) = .ok vs := by
  have same : ∀ v ∈ vs, Decoder.any (id v) = .ok v := fun _ _ => rfl
  simpa using Decoder.list_array same

theorem fills (b : Batch) : fields.Fills (b.entries.map (·.2)) b :=
  (Fields.Fills.single (list_any b.data)).map Batch.mk

theorem readsBack (b : Batch) : ReadsBack decode encode entries b :=
  ⟨b.fills.decode_ofEntries goBy _, b.fills.decode_array _⟩

end Batch

/-! ### Variants -/

theorem JobState.decode_encode (s : JobState) : decode s.encode = .ok s := by
  cases s <;> rfl

theorem Reply.decode_encode (r : Reply) : decode r.encode = .ok r := by
  cases r with
  | accepted | held | unavailable | ignored => rfl
  | priority value =>
    show (Decoder.int64 (.ofInt64 value)).map Reply.priority = _
    rw [Decoder.int64_ofInt64]
    rfl

/-! ### Second names -/

/-- The entries under other keys. -/
def renameKeys (rename : String → String) (entries : List (String × Json)) :
    List (String × Json) :=
  entries.map fun e => (rename e.1, e.2)

/-- Another key in place of one. -/
def insteadOf (key other : String) : String → String := fun k => if k = key then other else k

/-- All kinds of data are read back as what was written. -/
structure WrittenForms : Prop where
  /-- Rows on accounts. -/
  accountRecord : ∀ r : AccountRecord, r.fairshare.isFinite = true →
    ReadsBack AccountRecord.decode AccountRecord.encode AccountRecord.entries r
  /-- Rows on queues. -/
  queueRecord : ∀ r, ReadsBack QueueRecord.decode QueueRecord.encode QueueRecord.entries r
  /-- Rows on projects. -/
  projectRecord : ∀ r, ReadsBack ProjectRecord.decode ProjectRecord.encode ProjectRecord.entries r
  /-- Definitions of queues. -/
  queueDef : ∀ q, ReadsBack QueueDef.decode QueueDef.encode QueueDef.entries q
  /-- Accounts as they are shown. -/
  accountSnapshot : ∀ s : AccountSnapshot, s.fairshare.isFinite = true →
    ReadsBack AccountSnapshot.decode AccountSnapshot.encode AccountSnapshot.entries s
  /-- The accounts of a user as they are shown. -/
  userSnapshot : ∀ s : UserSnapshot, (∀ b ∈ s.banks, b.fairshare.isFinite = true) →
    ReadsBack UserSnapshot.decode UserSnapshot.encode UserSnapshot.entries s
  /-- Configurations. -/
  config : ∀ c : Config, c.placeholderFairshare.isFinite = true →
    ReadsBack Config.decode Config.encode Config.entries c
  /-- Batches, with any rows. -/
  batch : ∀ b, ReadsBack Batch.decode Batch.encode Batch.entries b
  /-- States of jobs. -/
  jobState : ∀ s : JobState, JobState.decode s.encode = .ok s
  /-- Replies. -/
  reply : ∀ r : Reply, Reply.decode r.encode = .ok r
  /-- A row on an account is written as an object with its entries in some order, where the default
  bank, the default project or both may stand under the second name instead, in any order. -/
  secondNames : ∀ r : AccountRecord, r.fairshare.isFinite = true →
    ∃ es, r.encode = .object es ∧ es.Perm r.entries ∧
      ∀ rename ∈ [insteadOf "default_bank" "def_bank", insteadOf "default_project" "def_project",
          insteadOf "default_bank" "def_bank" ∘ insteadOf "default_project" "def_project"],
        ∀ es' : List (String × Json), es'.Perm (renameKeys rename es) →
          AccountRecord.decode (.object es') = .ok r
  /-- Data with both names of one of these fields is no row, whatever else it holds. -/
  twoNames : ∀ (es : List (String × Json)) (v w : Json),
    ("default_bank", v) ∈ es ∧ ("def_bank", w) ∈ es ∨
      ("default_project", v) ∈ es ∧ ("def_project", w) ∈ es →
    ∃ e, AccountRecord.decode (.object es) = .error e

namespace AccountRecord

theorem map_fst_entries (r : AccountRecord) :
    r.entries.map (·.1) = fields.columns.map (·.name) := rfl

/-- The written form of a row holds its entries. -/
theorem exists_encode_perm (r : AccountRecord) : ∃ es, r.encode = .object es ∧ es.Perm r.entries :=
  Json.ofEntries_perm (GoBy.nodup goBy)

/-- A row is read from its entries under other keys that its fields go by. -/
theorem decode_of_renamed {r : AccountRecord} (finite : r.fairshare.isFinite = true)
    {es es' : List (String × Json)} (entries : es.Perm r.entries) {rename : String → String}
    (goBy : GoBy fields.columns ((fields.columns.map (·.name)).map rename))
    (same : es'.Perm (renameKeys rename es)) : decode (.object es') = .ok r := by
  have keys : (renameKeys rename r.entries).map (·.1) =
      (fields.columns.map (·.name)).map rename := by
    rw [← map_fst_entries r, renameKeys, List.map_map, List.map_map]
    rfl
  have values : (renameKeys rename r.entries).map (·.2) = r.entries.map (·.2) := by
    rw [renameKeys, List.map_map]
    rfl
  exact Fields.Fills.decode_object (values ▸ fills finite) (keys ▸ goBy)
    (same.trans (entries.map _)) _

end AccountRecord

/-- What is written is read back. -/
theorem writtenForms : WrittenForms where
  accountRecord _ finite := AccountRecord.readsBack finite
  queueRecord r := r.readsBack
  projectRecord r := r.readsBack
  queueDef q := q.readsBack
  accountSnapshot _ finite := AccountSnapshot.readsBack finite
  userSnapshot _ finite := UserSnapshot.readsBack finite
  config _ finite := Config.readsBack finite
  batch b := b.readsBack
  jobState s := s.decode_encode
  reply r := r.decode_encode
  secondNames r finite := by
    obtain ⟨es, written, entries⟩ := r.exists_encode_perm
    refine ⟨es, written, entries, fun rename h es' same => ?_⟩
    refine AccountRecord.decode_of_renamed finite entries ?_ same
    simp only [List.mem_cons, List.not_mem_nil, or_false] at h
    obtain rfl | rfl | rfl := h
    · decide +kernel
    · decide +kernel
    · decide +kernel
  twoNames es v w h := by
    obtain ⟨hv, hw⟩ | ⟨hv, hw⟩ := h
    · exact Fields.exists_error_of_two_names AccountRecord.apart (by decide +kernel) hv hw _
    · exact Fields.exists_error_of_two_names AccountRecord.apart (by decide +kernel) hv hw _

/-! ### A sample -/

namespace Sample

/-- A row with a default project, and with numbers at the ends of their ranges. -/
def row : AccountRecord where
  userid := 4294967295
  bank := "physics"
  defaultBank := ""
  fairshare := .ofRatio true 1 2
  maxRunningJobs := Int64.minValue
  maxActiveJobs := Int64.maxValue
  queues := "debug,batch"
  active := 0
  projects := ""
  defaultProject := some "*"

end Sample

/-- The sample is read back from its written form, an object with its ten entries, and from that
with both second names. It is refused if the default project stands there under both names. -/
theorem sample_writtenForms :
    AccountRecord.decode Sample.row.encode = .ok Sample.row ∧
      (∃ es, Sample.row.encode = .object es ∧ es.length = 10 ∧
        AccountRecord.decode (.object (renameKeys
          (insteadOf "default_bank" "def_bank" ∘ insteadOf "default_project" "def_project") es)) =
            .ok Sample.row) ∧
      ∃ e, AccountRecord.decode (.object (("def_project", .null) :: Sample.row.entries)) =
        .error e := by
  have finite : Sample.row.fairshare.isFinite = true := by decide +kernel
  refine ⟨(writtenForms.accountRecord _ finite).object, ?_, ?_⟩
  · obtain ⟨es, written, entries, readBack⟩ := writtenForms.secondNames _ finite
    exact ⟨es, written, entries.length_eq, readBack _ (by simp) _ (.refl _)⟩
  · exact writtenForms.twoNames _ (.string "*") .null (.inr (by simp [AccountRecord.entries,
      Sample.row, Json.ofOption]))

end JobAdmission
