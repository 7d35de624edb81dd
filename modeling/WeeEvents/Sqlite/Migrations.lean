import WeeEvents.Event
import WeeEvents.Foundation.Pool

/-!
# Schema migrations

`migrate_schema` run by any number of processes on one database. The recorded
version is read before the transaction that applies the missing migrations and
records the target, so another process may have migrated in between.
-/
namespace WeeEvents.Sqlite
open Foundation

/-- The committed schema: recorded versions by schema name, and the migrations
whose statements have run. -/
structure Schema where
  versions : String → Option Nat
  applied : List String

namespace Schema

def fresh : Schema := ⟨fun _ => none, []⟩

/-- What `current_schema_version` makes of the row: no row is version zero. -/
def version (schema : Schema) (versionKey : String) : Nat := (schema.versions versionKey).getD 0

def run (schema : Schema) (ddl : List String) : Schema :=
  { schema with applied := schema.applied ++ ddl }

def record (schema : Schema) (versionKey : String) (version : Nat) : Schema :=
  { schema with versions := Function.update schema.versions versionKey (some version) }

@[simp] theorem applied_run (schema : Schema) (ddl : List String) :
    (schema.run ddl).applied = schema.applied ++ ddl := rfl

@[simp] theorem version_run (schema : Schema) (ddl : List String) (versionKey : String) :
    (schema.run ddl).version versionKey = schema.version versionKey := rfl

@[simp] theorem applied_record (schema : Schema) (versionKey : String) (version : Nat) :
    (schema.record versionKey version).applied = schema.applied := rfl

@[simp] theorem version_record (schema : Schema) (versionKey : String) (version : Nat) :
    (schema.record versionKey version).version versionKey = version := by
  simp only [Schema.version, record, Function.update_self, Option.getD_some]

end Schema

/-- The statements of `migrate_schema`, each an exchange with the database. -/
inductive SchemaOp where
  | createVersionsTable
  | selectVersion (versionKey : String)
  | beginBatch (ddl : List String)
  | upsertVersion (versionKey : String) (version : Nat)
  | commit

/-- What a statement yields when it succeeds. -/
abbrev SchemaOp.Yield : SchemaOp → Type
  | createVersionsTable => Unit
  | selectVersion _ => Option Nat
  | beginBatch _ => Unit
  | upsertVersion _ _ => Unit
  | commit => Unit

abbrev SchemaOp.Res (op : SchemaOp) : Type := Except SqliteError op.Yield

abbrev SchemaProgram (α : Type) : Type := Program SchemaOp SchemaOp.Res (Except SqliteError α)

def statement (op : SchemaOp) : SchemaProgram op.Yield := .perform op

def currentSchemaVersion (versionKey : String) : SchemaProgram Nat :=
  (statement .createVersionsTable).andThen fun _ =>
  (statement (.selectVersion versionKey)).andThen fun row => .ret (.ok (row.getD 0))

/-- The migrations above the version that was read, in their order. -/
def missing (current : Nat) (migrations : List (Nat × String)) : List String :=
  (migrations.filter fun migration => current < migration.1).map Prod.snd

def migrateSchema (versionKey : String) (targetVersion : Nat) (migrations : List (Nat × String)) :
    SchemaProgram Unit :=
  (currentSchemaVersion versionKey).andThen fun current =>
    if current ≥ targetVersion then .ret (.ok ())
    else
      (statement (.beginBatch (missing current migrations))).andThen fun _ =>
      (statement (.upsertVersion versionKey targetVersion)).andThen fun _ =>
      (statement .commit).andThen fun _ => .ret (.ok ())

/-! ### The shipped schemas -/

def eventsDdl : String := "
CREATE TABLE IF NOT EXISTS events (
    event_id        TEXT    NOT NULL CHECK(length(event_id) = 26),
    aggregate_type  TEXT    NOT NULL,
    aggregate_key   TEXT    NOT NULL,
    event_type      TEXT    NOT NULL,
    revision        TEXT    NOT NULL CHECK(length(revision) = 26),
    causation_id    TEXT,
    correlation_id  TEXT,
    encoding        TEXT    NOT NULL,
    data            BLOB    NOT NULL,
    PRIMARY KEY (event_id)
);

CREATE UNIQUE INDEX IF NOT EXISTS idx_events_aggregate
    ON events (aggregate_type, aggregate_key, revision);
"

def documentsDdl : String := "
CREATE TABLE IF NOT EXISTS documents (
    collection  TEXT NOT NULL,
    key         TEXT NOT NULL,
    revision    TEXT NOT NULL,
    data        TEXT NOT NULL CHECK(json_valid(data)),
    PRIMARY KEY (collection, key)
);
"

def partitionMetadataDdl : String := "
CREATE TABLE IF NOT EXISTS _wee_events_partition_metadata (
    key     TEXT PRIMARY KEY,
    value   TEXT NOT NULL
);
"

def migrateEventStore : SchemaProgram Unit :=
  migrateSchema "_wee_events_event_store_user_version" 2 [(1, eventsDdl), (2, partitionMetadataDdl)]

def migrateDocumentStore : SchemaProgram Unit :=
  migrateSchema "_wee_events_document_store_user_version" 1 [(1, documentsDdl)]

/-! ### Releases on one database -/

/-- The migrations a release with this target knows: those numbered `1..target`. -/
def knownMigrations (migration : Nat → String) (target : Nat) : List (Nat × String) :=
  (List.range' 1 target).map fun n => (n, migration n)

theorem mem_missing {migration : Nat → String} {current target n : Nat} (above : current < n)
    (known : n ≤ target) : migration n ∈ missing current (knownMigrations migration target) := by
  refine List.mem_map.mpr ⟨(n, migration n), ?_, rfl⟩
  rw [List.mem_filter]
  refine ⟨List.mem_map.mpr ⟨n, ?_, rfl⟩, decide_eq_true above⟩
  rw [List.mem_range'_1]
  omega

/-- The database file: what is committed, and the one open write transaction
with the connection that holds it. -/
structure SchemaFile where
  committed : Schema
  transaction : Option (Nat × Schema)

def SchemaFile.fresh : SchemaFile := ⟨Schema.fresh, none⟩

/-- The connection is dropped: its open transaction leaves nothing. -/
def SchemaFile.drop (file : SchemaFile) (c : Nat) : SchemaFile :=
  match file.transaction with
  | some (holder, _) => if holder = c then { file with transaction := none } else file
  | none => file

/-- A statement that succeeds. A write transaction begins only when no other is open. -/
def SchemaFile.execute (file : SchemaFile) (c : Nat) :
    (op : SchemaOp) → Option (op.Yield × SchemaFile)
  | .createVersionsTable => some ((), file)
  | .selectVersion versionKey => some (file.committed.versions versionKey, file)
  | .beginBatch ddl =>
      match file.transaction with
      | none => some ((), { file with transaction := some (c, file.committed.run ddl) })
      | some _ => none
  | .upsertVersion versionKey version =>
      match file.transaction with
      | some (holder, pending) =>
          if holder = c then
            some ((), { file with transaction := some (c, pending.record versionKey version) })
          else none
      | none => none
  | .commit =>
      match file.transaction with
      | some (holder, pending) => if holder = c then some ((), ⟨pending, none⟩) else none
      | none => none

/-- Processes that migrate one schema name, each a call with its own target. Any
statement may fail, and the caller's connection goes with it. -/
abbrev migrators (versionKey : String) (migration : Nat → String) : System where
  Op := SchemaOp
  Res := SchemaOp.Res
  Shared := SchemaFile
  Call := Nat
  Result := Except SqliteError Unit
  program target := migrateSchema versionKey target (knownMigrations migration target)
  step c _ file op r file' :=
    (∃ value, r = .ok value ∧ file.execute c op = some (value, file')) ∨
      ∃ e, r = .error e ∧ file' = file.drop c

/-! ### What a process knows -/

/-- The migrations numbered up to `version` have run. -/
def Schema.Applied (schema : Schema) (migration : Nat → String) (version : Nat) : Prop :=
  ∀ n, 1 ≤ n → n ≤ version → migration n ∈ schema.applied

inductive MigrationPhase where
  | connected
  | read (current : Nat)
  | began
  | recorded
  | finished

structure MigrationKnowledge where
  target : Nat
  phase : MigrationPhase

section Run

variable {versionKey : String} {migration : Nat → String}

/-- The transaction runs what the version that was read leaves to run. -/
def migrationDiscipline (versionKey : String) (migration : Nat → String) :
    Discipline SchemaOp SchemaOp.Res MigrationKnowledge where
  may k
    | .createVersionsTable => k.phase = .connected
    | .selectVersion key => key = versionKey
    | .beginBatch ddl => ∃ current, k.phase = .read current ∧
        ddl = missing current (knownMigrations migration k.target)
    | .upsertVersion key version => k.phase = .began ∧ key = versionKey ∧ version = k.target
    | .commit => k.phase = .recorded
  learn
    | k, .createVersionsTable, .ok _ => k
    | k, .selectVersion _, .ok row => ⟨k.target, .read (row.getD 0)⟩
    | k, .beginBatch _, .ok _ => ⟨k.target, .began⟩
    | k, .upsertVersion _ _, .ok _ => ⟨k.target, .recorded⟩
    | k, _, _ => ⟨k.target, .finished⟩

theorem obeys_migrateSchema (target : Nat) :
    (migrationDiscipline versionKey migration).Obeys (fun _ _ => True)
      (migrateSchema versionKey target (knownMigrations migration target)) ⟨target, .connected⟩ := by
  refine ⟨rfl, fun created => ?_⟩
  cases created with
  | error e => trivial
  | ok _ =>
      refine ⟨rfl, fun selected => ?_⟩
      cases selected with
      | error e => trivial
      | ok row =>
          simp only [Program.bind_ret]
          by_cases current : row.getD 0 ≥ target
          · rw [if_pos current]
            trivial
          · rw [if_neg current]
            refine ⟨⟨_, rfl, rfl⟩, fun began => ?_⟩
            cases began with
            | error e => trivial
            | ok _ =>
                refine ⟨⟨rfl, rfl, rfl⟩, fun upserted => ?_⟩
                cases upserted with
                | error e => trivial
                | ok _ =>
                    refine ⟨rfl, fun committed => ?_⟩
                    cases committed <;> trivial

/-- Every version that may be recorded has its migrations applied, and an open
transaction has lost nothing that is committed. -/
structure SchemaFile.Sound (file : SchemaFile) (versionKey : String) (migration : Nat → String) :
    Prop where
  migrated : file.committed.Applied migration (file.committed.version versionKey)
  grows : ∀ c pending, file.transaction = some (c, pending) →
    file.committed.applied ⊆ pending.applied

/-- Seen from the other processes: nothing applied is lost, and while one of them
holds the write lock nothing is committed. -/
structure SchemaFile.Undisturbed (c : Nat) (file file' : SchemaFile) : Prop where
  applied : file.committed.applied ⊆ file'.committed.applied
  locked : ∀ c' pending, c' ≠ c → file.transaction = some (c', pending) →
    file'.transaction = some (c', pending) ∧ file'.committed = file.committed

variable {file file' : SchemaFile} {c : Nat}

theorem SchemaFile.Undisturbed.refl : Undisturbed c file file :=
  ⟨List.Subset.refl _, fun _ _ _ locked => ⟨locked, rfl⟩⟩

@[simp] theorem SchemaFile.drop_committed : (file.drop c).committed = file.committed := by
  unfold drop
  split
  · split <;> rfl
  · rfl

theorem SchemaFile.drop_transaction {holder : Nat} {pending : Schema}
    (h : (file.drop c).transaction = some (holder, pending)) :
    file.transaction = some (holder, pending) := by
  unfold drop at h
  split at h
  · next locked =>
      split at h
      · cases h
      · exact h
  · exact h

theorem SchemaFile.Sound.drop (h : file.Sound versionKey migration) :
    (file.drop c).Sound versionKey migration := by
  refine ⟨?_, fun holder pending locked => ?_⟩
  · rw [drop_committed]
    exact h.migrated
  · rw [drop_committed]
    exact h.grows holder pending (drop_transaction locked)

theorem SchemaFile.undisturbed_drop : Undisturbed c file (file.drop c) := by
  refine ⟨by rw [drop_committed]; exact List.Subset.refl _, fun c' pending ne locked => ?_⟩
  refine ⟨?_, drop_committed⟩
  rw [drop, locked]
  simp only [if_neg ne, locked]

/-- A write transaction that begins finds no version above its own target: the check
made when the version was read still holds. -/
def BeginsInTime (versionKey : String) (file : SchemaFile) :
    Event SchemaOp SchemaOp.Res Nat (Except SqliteError Unit) → Prop
  | .performed _ target (.beginBatch _) (.ok _) => file.committed.version versionKey ≤ target
  | _ => True

/-- Every process's knowledge of the file, by its phase. The bound on the recorded
version holds where write transactions begin in time. -/
def MigrationKnowledge.Holds (k : MigrationKnowledge) (versionKey : String)
    (migration : Nat → String) (timely : Prop) (c : Nat) (file : SchemaFile) : Prop :=
  match k.phase with
  | .connected => True
  | .read current => file.committed.Applied migration current
  | .began => ∃ pending, file.transaction = some (c, pending) ∧
      pending.Applied migration k.target ∧ (timely → file.committed.version versionKey ≤ k.target)
  | .recorded => ∃ pending, file.transaction = some (c, pending) ∧
      pending.Applied migration k.target ∧ pending.version versionKey = k.target ∧
      (timely → file.committed.version versionKey ≤ k.target)
  | .finished => True

theorem SchemaFile.Undisturbed.holds {k : MigrationKnowledge} {timely : Prop} {c' : Nat}
    (still : Undisturbed c file file') (ne : c' ≠ c)
    (known : k.Holds versionKey migration timely c' file) :
    k.Holds versionKey migration timely c' file' := by
  obtain ⟨target, phase⟩ := k
  cases phase with
  | connected => trivial
  | finished => trivial
  | read current => exact fun n low high => still.applied (known n low high)
  | began =>
      obtain ⟨pending, locked, applied, bound⟩ := known
      obtain ⟨locked', same⟩ := still.locked c' pending ne locked
      exact ⟨pending, locked', applied, by rw [same]; exact bound⟩
  | recorded =>
      obtain ⟨pending, locked, applied, version, bound⟩ := known
      obtain ⟨locked', same⟩ := still.locked c' pending ne locked
      exact ⟨pending, locked', applied, version, by rw [same]; exact bound⟩

/-- One statement keeps the file sound, disturbs no other process, and leaves the
process knowing what it has learned. -/
theorem SchemaFile.Sound.perform {k : MigrationKnowledge} {timely : Prop}
    {op : SchemaOp} {r : op.Res} (sound : file.Sound versionKey migration)
    (known : k.Holds versionKey migration timely c file)
    (may : (migrationDiscipline versionKey migration).may k op)
    (inTime : timely → BeginsInTime versionKey file (.performed c k.target op r))
    (step : (migrators versionKey migration).step c k.target file op r file') :
    file'.Sound versionKey migration ∧ Undisturbed c file file' ∧
      ((migrationDiscipline versionKey migration).learn k op r).Holds versionKey migration timely c
        file' := by
  rcases step with ⟨value, rfl, executed⟩ | ⟨e, rfl, rfl⟩
  · cases op with
    | createVersionsTable =>
        cases executed
        exact ⟨sound, .refl, known⟩
    | selectVersion key =>
        cases executed
        cases may
        exact ⟨sound, .refl, sound.migrated⟩
    | beginBatch ddl =>
        obtain ⟨current, read, rfl⟩ := may
        simp only [MigrationKnowledge.Holds, read] at known
        simp only [execute] at executed
        split at executed
        · next unlocked =>
            cases executed
            refine ⟨⟨sound.migrated, fun holder pending locked => ?_⟩,
              ⟨List.Subset.refl _, fun c' pending _ locked => ?_⟩, _, rfl, ?_, ?_⟩
            · cases locked
              exact List.subset_append_left _ _
            · rw [unlocked] at locked
              cases locked
            · -- what was read is applied already, the batch applies the rest
              intro n low high
              rw [Schema.applied_run, List.mem_append]
              rcases Nat.lt_or_ge current n with above | below
              · exact .inr (mem_missing above high)
              · exact .inl (known n low below)
            · intro on_time
              exact inTime on_time
        · cases executed
    | upsertVersion key version =>
        obtain ⟨began, rfl, rfl⟩ := may
        simp only [MigrationKnowledge.Holds, began] at known
        obtain ⟨pending, locked, applied, bound⟩ := known
        simp only [execute, locked, if_true] at executed
        cases executed
        refine ⟨⟨sound.migrated, fun holder pending' locked' => ?_⟩,
          ⟨List.Subset.refl _, fun c' pending' ne locked' => ?_⟩, _, rfl, applied,
          Schema.version_record .., bound⟩
        · cases locked'
          exact sound.grows c pending locked
        · rw [locked] at locked'
          cases locked'
          exact absurd rfl ne
    | commit =>
        have recorded : k.phase = .recorded := may
        simp only [MigrationKnowledge.Holds, recorded] at known
        obtain ⟨pending, locked, applied, version, _⟩ := known
        simp only [execute, locked, if_true] at executed
        cases executed
        refine ⟨⟨?_, fun holder pending' locked' => by cases locked'⟩,
          ⟨sound.grows c pending locked, fun c' pending' ne locked' => ?_⟩, trivial⟩
        · rw [version]
          exact applied
        · rw [locked] at locked'
          cases locked'
          exact absurd rfl ne
  · refine ⟨sound.drop, undisturbed_drop, ?_⟩
    cases op <;> trivial

/-- The rule of the migrating processes, for runs under any condition. -/
def migrationRule (versionKey : String) (migration : Nat → String)
    (allowed : SchemaFile → (migrators versionKey migration).Happening → Prop) :
    Pool.Rule (S := migrators versionKey migration) (G := Unit)
      (migrationDiscipline versionKey migration) allowed where
  inv _ file _ := file.Sound versionKey migration
  holds _ c target k file _ := k.target = target ∧
    k.Holds versionKey migration (∀ file event, allowed file event →
      BeginsInTime versionKey file event) c file
  start target := ⟨target, .connected⟩
  done _ _ _ := True
  obeys := obeys_migrateSchema
  invoke {g file trace c target} sound _ _ _ :=
    ⟨(), sound, ⟨rfl, trivial⟩, fun _ _ _ _ known => known⟩
  perform {g file trace c target k op r file'} sound _ known may permitted step := by
    obtain ⟨rfl, known⟩ := known
    obtain ⟨sound', still, learned⟩ :=
      sound.perform known may (fun on_time => on_time _ _ permitted) step
    refine ⟨(), sound', ⟨?_, learned⟩, ?_⟩
    · cases op <;> cases r <;> rfl
    · intro c' target' k' ne known'
      exact ⟨known'.1, still.holds ne known'.2⟩
  finish {g file trace c target k result} sound _ _ _ _ :=
    ⟨(), sound, fun _ _ _ _ known => known⟩

theorem SchemaFile.sound_fresh : SchemaFile.fresh.Sound versionKey migration := by
  refine ⟨fun n low high => ?_, fun c pending locked => by cases locked⟩
  have none_recorded : SchemaFile.fresh.committed.version versionKey = 0 := rfl
  omega

/-- Every reachable file is sound, and every running process stands at a point of
its discipline whose knowledge is true. -/
theorem reachable_sound {allowed : SchemaFile → (migrators versionKey migration).Happening → Prop}
    {p : Pool (migrators versionKey migration)}
    (reach : Pool.ReachableBy allowed SchemaFile.fresh p) :
    p.shared.Sound versionKey migration ∧ ∀ c target prog, p.running c = some (target, prog) →
      ∃ k : MigrationKnowledge, (k.target = target ∧ k.Holds versionKey migration
        (∀ file event, allowed file event → BeginsInTime versionKey file event) c p.shared) ∧
        (migrationDiscipline versionKey migration).Obeys (fun _ _ => True) prog k := by
  have init : (migrationRule versionKey migration allowed).inv () SchemaFile.fresh [] :=
    SchemaFile.sound_fresh
  obtain ⟨_, sound, knows⟩ := (migrationRule versionKey migration allowed).sound init reach
  exact ⟨sound, knows⟩

/-- A commit records the target of its process. -/
theorem committed_target {allowed : SchemaFile → (migrators versionKey migration).Happening → Prop}
    {p q : Pool (migrators versionKey migration)} {target : Nat}
    (reach : Pool.ReachableBy allowed SchemaFile.fresh p)
    (step : Pool.Step p (.performed c target .commit (.ok ())) q) :
    q.shared.committed.version versionKey = target ∧
      ((∀ file event, allowed file event → BeginsInTime versionKey file event) →
        p.shared.committed.version versionKey ≤ target) := by
  obtain ⟨_, knows⟩ := reachable_sound reach
  cases step with
  | perform running stepped =>
      obtain ⟨k, ⟨rfl, known⟩, may, _⟩ := knows c _ _ running
      have recorded : k.phase = .recorded := may
      simp only [MigrationKnowledge.Holds, recorded] at known
      obtain ⟨pending, locked, _, version, bound⟩ := known
      rcases stepped with ⟨value, _, executed⟩ | ⟨e, failed, _⟩
      · simp only [SchemaFile.execute, locked, if_true] at executed
        cases executed
        exact ⟨version, bound⟩
      · cases failed

/-- Only a commit changes what is committed. -/
theorem committed_unchanged {p q : Pool (migrators versionKey migration)}
    {event : (migrators versionKey migration).Happening} (step : Pool.Step p event q) :
    q.shared.committed = p.shared.committed ∨
      ∃ c target, event = .performed c target .commit (.ok ()) := by
  cases step with
  | invoke => exact .inl rfl
  | finish => exact .inl rfl
  | @perform c target op next r file' running stepped =>
      rcases stepped with ⟨value, rfl, executed⟩ | ⟨e, rfl, dropped⟩
      · cases op with
        | commit => exact .inr ⟨c, target, rfl⟩
        | createVersionsTable =>
            cases executed
            exact .inl rfl
        | selectVersion key =>
            cases executed
            exact .inl rfl
        | beginBatch ddl =>
            simp only [SchemaFile.execute] at executed
            split at executed <;> cases executed
            exact .inl rfl
        | upsertVersion key version =>
            simp only [SchemaFile.execute] at executed
            split at executed
            · split at executed <;> cases executed
              exact .inl rfl
            · cases executed
      · rw [dropped]
        exact .inl SchemaFile.drop_committed

/-- In every reachable state the migrations up to the recorded version are applied;
in every run whose write transactions begin in time the recorded version never
decreases; and a commit lowers it exactly when it was above the target. -/
theorem migrations_are_safe (versionKey : String) (migration : Nat → String) :
    (∀ p : Pool (migrators versionKey migration), Pool.Reachable SchemaFile.fresh p →
      p.shared.committed.Applied migration (p.shared.committed.version versionKey)) ∧
    (∀ (p q : Pool (migrators versionKey migration)) event,
      Pool.ReachableBy (BeginsInTime versionKey) SchemaFile.fresh p → Pool.Step p event q →
        p.shared.committed.version versionKey ≤ q.shared.committed.version versionKey) ∧
    (∀ (p q : Pool (migrators versionKey migration)) c target,
      Pool.Reachable SchemaFile.fresh p → Pool.Step p (.performed c target .commit (.ok ())) q →
        (q.shared.committed.version versionKey < p.shared.committed.version versionKey ↔
          target < p.shared.committed.version versionKey)) := by
  refine ⟨?_, ?_, ?_⟩
  · intro p reach
    exact (reachable_sound reach).1.migrated
  · intro p q event reach step
    rcases committed_unchanged step with same | ⟨c, target, rfl⟩
    · rw [same]
    · obtain ⟨version, bound⟩ := committed_target reach step
      rw [version]
      exact bound fun _ _ inTime => inTime
  · intro p q c target reach step
    rw [(committed_target reach step).1]

end Run

/-! ### An older release that read too early -/

section Stale

def numberedMigration (n : Nat) : String := toString n

abbrev releases : System := migrators "schema" numberedMigration

/-- Answers every statement that can succeed. -/
def executed (c _target : Nat) (op : SchemaOp) (file : SchemaFile) :
    Option (op.Res × SchemaFile) :=
  (file.execute c op).map fun answer => (.ok answer.1, answer.2)

theorem executed_step (c target : Nat) (file : SchemaFile) (op : SchemaOp) (r : op.Res)
    (file' : SchemaFile) (h : executed c target op file = some (r, file')) :
    releases.step c target file op r file' := by
  obtain ⟨⟨value, after⟩, answer, same⟩ := Option.map_eq_some_iff.mp h
  cases same
  exact .inl ⟨value, rfl, answer⟩

/-- Begins no transaction on a file that records a newer version. -/
def executedInTime (c target : Nat) (op : SchemaOp) (file : SchemaFile) :
    Option (op.Res × SchemaFile) :=
  match op with
  | .beginBatch ddl =>
      if file.committed.version "schema" ≤ target then executed c target (.beginBatch ddl) file
      else none
  | op => executed c target op file

theorem executedInTime_permitted (c target : Nat) (file : SchemaFile) (op : SchemaOp) (r : op.Res)
    (file' : SchemaFile) (h : executedInTime c target op file = some (r, file')) :
    Pool.PermittedStep (S := releases) (BeginsInTime "schema") c target file op r file' := by
  cases op with
  | beginBatch ddl =>
      simp only [executedInTime] at h
      split at h
      · next inTime =>
          refine ⟨executed_step c target file _ r file' h, ?_⟩
          cases r with
          | ok value => exact inTime
          | error e => trivial
      · cases h
  | _ => exact ⟨executed_step c target file _ r file' h, trivial⟩

/-- The recorded version after a schedule, and after one more move of call 0. -/
def versionsAround (handle : Nat → Nat → (op : SchemaOp) → SchemaFile → Option (op.Res × SchemaFile))
    (moves : List (Pool.Move releases)) : Option (Nat × Nat) :=
  (Pool.replay (S := releases) handle moves (Pool.initial SchemaFile.fresh)).bind fun p =>
    ((Pool.Move.advance 0).take handle p).map fun q =>
      (p.shared.committed.version "schema", q.shared.committed.version "schema")

theorem reachable_versionsAround {allowed : SchemaFile → releases.Happening → Prop}
    (only : Pool.OnlyOperations (S := releases) allowed)
    {handle : Nat → Nat → (op : SchemaOp) → SchemaFile → Option (op.Res × SchemaFile)}
    (served : ∀ c target file op r file', handle c target op file = some (r, file') →
      Pool.PermittedStep (S := releases) allowed c target file op r file')
    {moves : List (Pool.Move releases)} {before after : Nat}
    (h : versionsAround handle moves = some (before, after)) :
    ∃ (p q : Pool releases) (event : releases.Happening),
      Pool.ReachableBy allowed SchemaFile.fresh p ∧ Pool.ReachableBy allowed SchemaFile.fresh q ∧
        Pool.Step p event q ∧ p.shared.committed.version "schema" = before ∧
          q.shared.committed.version "schema" = after := by
  obtain ⟨p, run, rest⟩ := Option.bind_eq_some_iff.mp h
  obtain ⟨q, taken, around⟩ := Option.map_eq_some_iff.mp rest
  obtain ⟨isBefore, isAfter⟩ := Prod.mk.inj around
  have reach := Pool.ReachableBy.start.replay (fun _ _ => trivial) served only run
  obtain ⟨event, permitted, step⟩ := Pool.Move.take_step (fun _ _ => trivial) served only taken
  exact ⟨p, q, event, reach, reach.step permitted step, step, isBefore, isAfter⟩

/-- Release 1 migrates, then release 2 up to its commit. -/
def timelySchedule : List (Pool.Move releases) :=
  [.begin 1 1, .advance 1, .advance 1, .advance 1, .advance 1, .advance 1, .advance 1,
    .begin 0 2, .advance 0, .advance 0, .advance 0, .advance 0]

theorem timely_migrations : ∃ p q : Pool releases,
    p.shared.committed.version "schema" ≤ q.shared.committed.version "schema" ∧
      q.shared.committed.version "schema" = 2 ∧ q.shared.committed.Applied numberedMigration 2 := by
  have versions : versionsAround executedInTime timelySchedule = some (1, 2) := by decide +kernel
  obtain ⟨p, q, event, reachP, reachQ, step, _, after⟩ :=
    reachable_versionsAround (fun _ _ _ => ⟨trivial, fun _ => trivial⟩) executedInTime_permitted
      versions
  have applied := (migrations_are_safe "schema" numberedMigration).1 q reachQ.reachable
  rw [after] at applied
  exact ⟨p, q, (migrations_are_safe "schema" numberedMigration).2.1 p q event reachP step, after,
    applied⟩

/-- Release 1 reads version zero, release 2 migrates, release 1 goes on to its commit. -/
def staleSchedule : List (Pool.Move releases) :=
  [.begin 0 1, .advance 0, .advance 0,
    .begin 1 2, .advance 1, .advance 1, .advance 1, .advance 1, .advance 1, .advance 1,
    .advance 0, .advance 0]

/-- The older release overwrites version 2 with version 1. -/
theorem version_lowered : ∃ (p q : Pool releases) (event : releases.Happening),
    Pool.Reachable SchemaFile.fresh p ∧ Pool.Step p event q ∧
      p.shared.committed.version "schema" = 2 ∧ q.shared.committed.version "schema" = 1 := by
  have versions : versionsAround executed staleSchedule = some (2, 1) := by decide +kernel
  have permitted : ∀ c target file op r file', executed c target op file = some (r, file') →
      Pool.PermittedStep (S := releases) (fun _ _ => True) c target file op r file' :=
    fun c target file op r file' h => ⟨executed_step c target file op r file' h, trivial⟩
  obtain ⟨p, q, event, reach, _, step, before, after⟩ :=
    reachable_versionsAround (fun _ _ _ => ⟨trivial, fun _ => trivial⟩) permitted versions
  exact ⟨p, q, event, reach, step, before, after⟩

end Stale
end WeeEvents.Sqlite
