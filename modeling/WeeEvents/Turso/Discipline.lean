import WeeEvents.Turso.Provisioner

/-!
# What a provisioner call does

One discipline for the five calls: which databases they create and delete, which
targets they cache, and what their results rest on, in terms of the answers the
call has seen so far.
-/
namespace WeeEvents.Turso
open Foundation Sqlite

/-- The answers a call has seen. -/
structure Knowledge where
  config : ProvisionerConfig
  call : TursoCall
  hits : List (String × DatabaseTarget) := []
  opened : List (DatabaseTarget × DatabaseTarget) := []
  recorded : List (DatabaseTarget × String) := []
  listed : List DatabaseInfo := []
  keys : List String := []
  walks : List (List String × List String) := []

namespace Knowledge

/-- The later knowledge of the same call. -/
structure Extends (k k' : Knowledge) : Prop where
  config : k'.config = k.config
  call : k'.call = k.call
  hits : k.hits ⊆ k'.hits
  opened : k.opened ⊆ k'.opened
  recorded : k.recorded ⊆ k'.recorded
  listed : k.listed ⊆ k'.listed
  keys : k.keys ⊆ k'.keys
  walks : k.walks ⊆ k'.walks

theorem Extends.refl (k : Knowledge) : k.Extends k :=
  ⟨rfl, rfl, List.Subset.refl _, List.Subset.refl _, List.Subset.refl _, List.Subset.refl _,
    List.Subset.refl _, List.Subset.refl _⟩

theorem Extends.trans {k₁ k₂ k₃ : Knowledge} (h : k₁.Extends k₂) (h' : k₂.Extends k₃) :
    k₁.Extends k₃ :=
  ⟨h'.config.trans h.config, h'.call.trans h.call, List.Subset.trans h.hits h'.hits,
    List.Subset.trans h.opened h'.opened, List.Subset.trans h.recorded h'.recorded,
    List.Subset.trans h.listed h'.listed, List.Subset.trans h.keys h'.keys,
    List.Subset.trans h.walks h'.walks⟩

/-- The database of the target was read to record the name. -/
def Read (k : Knowledge) (target : DatabaseTarget) (logicalName : String) : Prop :=
  ∃ conn, (target, conn) ∈ k.opened ∧ (conn, logicalName) ∈ k.recorded

/-- The target is the one cached for the name, or was read to record it. -/
def Bound (k : Knowledge) (name : PartitionName) (target : DatabaseTarget) : Prop :=
  (k.config.dbNameFor name, target) ∈ k.hits ∨
    ∀ logicalName, name = .named logicalName → k.Read target logicalName

/-- A listed database that counts as a named one of this provisioner. -/
def Managed (k : Knowledge) (db : DatabaseInfo) : Prop :=
  db ∈ k.listed ∧ k.config.isManagedNamedDatabase db.name

end Knowledge

/-- Database names that a provisioner takes for its own. -/
def ProvisionerConfig.Owns (config : ProvisionerConfig) (dbName : String) : Prop :=
  dbName = config.dbNameFor .default ∨ config.namedDbPrefix.toList <+: dbName.toList

/-- The cache insertions a call may make. -/
def Knowledge.MayCache (k : Knowledge) (dbName : String) (target : DatabaseTarget) : Prop :=
  (∃ name, (k.call = .ensureTargetForName name ∨ k.call = .targetForExistingName name) ∧
    dbName = k.config.dbNameFor name ∧
    ∀ logicalName, name = .named logicalName → k.Read target logicalName) ∨
  (k.call = .names ∨ k.call = .namedTargets) ∧ ∃ db, k.Managed db ∧ dbName = db.name ∧
    target = k.config.makeTarget db.hostname

def tursoDiscipline : Discipline TursoOp TursoOp.Res Knowledge where
  may k
    | .createDatabase dbName _ => ∃ name, k.call = .ensureTargetForName name ∧
        dbName = k.config.dbNameFor name
    | .deleteDatabase dbName => k.call = .cleanup ∧ ∃ names order, (names, order) ∈ k.walks ∧
        dbName ∈ order ∧ ∀ name ∈ names, name ∈ k.keys ∨ k.config.Owns name
    | .cacheInsert dbName target => k.MayCache dbName target
    | .cacheClear => k.call = .cleanup
    | _ => True
  learn
    | k, .cacheGet dbName, some target => { k with hits := (dbName, target) :: k.hits }
    | k, .metadata (.openEventStoreConnection target), .ok conn =>
        { k with opened := (target, conn) :: k.opened }
    | k, .metadata (.selectLogicalName conn), .ok (some name) =>
        { k with recorded := (conn, name) :: k.recorded }
    | k, .listDatabases _, .ok databases => { k with listed := databases ++ k.listed }
    | k, .cacheKeys, keys => { k with keys := keys ++ k.keys }
    | k, .hashOrder names, order => { k with walks := (names, order) :: k.walks }
    | k, _, _ => k

/-- What a result rests on. -/
def resultRests (k : Knowledge) : TursoResult → Prop
  | .ensured (.ok target) => ∃ name, k.call = .ensureTargetForName name ∧ k.Bound name target
  | .existing (.ok (some target)) =>
      ∃ name, k.call = .targetForExistingName name ∧ k.Bound name target
  | .namedTargets (.ok targets) => ∀ entry ∈ targets, ∃ db, k.Managed db ∧
      stripPrefix db.name k.config.namedDbPrefix = some entry.1 ∧
      entry.2 = k.config.makeTarget db.hostname
  | _ => True

theorem Knowledge.extends_learn (k : Knowledge) (op : TursoOp) (r : op.Res) :
    k.Extends (tursoDiscipline.learn k op r) := by
  have more : ∀ {α : Type} (new old : List α), old ⊆ new ++ old :=
    fun new old => List.subset_append_right new old
  unfold tursoDiscipline
  dsimp only
  split
  · exact ⟨rfl, rfl, more [_] _, more [] _, more [] _, more [] _, more [] _, more [] _⟩
  · exact ⟨rfl, rfl, more [] _, more [_] _, more [] _, more [] _, more [] _, more [] _⟩
  · exact ⟨rfl, rfl, more [] _, more [] _, more [_] _, more [] _, more [] _, more [] _⟩
  · exact ⟨rfl, rfl, more [] _, more [] _, more [] _, more _ _, more [] _, more [] _⟩
  · exact ⟨rfl, rfl, more [] _, more [] _, more [] _, more [] _, more _ _, more [] _⟩
  · exact ⟨rfl, rfl, more [] _, more [] _, more [] _, more [] _, more [] _, more [_] _⟩
  · exact .refl k

theorem Knowledge.Extends.read {k k' : Knowledge} (h : k.Extends k') {target : DatabaseTarget}
    {logicalName : String} (read : k.Read target logicalName) : k'.Read target logicalName := by
  obtain ⟨conn, opened, recorded⟩ := read
  exact ⟨conn, h.opened opened, h.recorded recorded⟩

theorem Knowledge.Extends.managed {k k' : Knowledge} (h : k.Extends k') {db : DatabaseInfo}
    (managed : k.Managed db) : k'.Managed db :=
  ⟨h.listed managed.1, by rw [h.config]; exact managed.2⟩

/-! ### The programs obey it -/

section Obeys

variable {k : Knowledge}

/-- A program of the given knowledge that ends in more of it. -/
def Learns {α : Type} (k : Knowledge) (done : Knowledge → α → Prop)
    (program : Program TursoOp TursoOp.Res α) : Prop :=
  tursoDiscipline.Obeys (fun k' a => k.Extends k' ∧ done k' a) program k

theorem Learns.ret {α : Type} {done : Knowledge → α → Prop} {a : α} (h : done k a) :
    Learns k done (.ret a) := ⟨.refl k, h⟩

theorem Learns.call {α : Type} {done : Knowledge → α → Prop} {op : TursoOp}
    {next : op.Res → Program TursoOp TursoOp.Res α} (may : tursoDiscipline.may k op)
    (after : ∀ r, Learns (tursoDiscipline.learn k op r) done (next r)) :
    Learns k done (.call op next) := by
  refine ⟨may, fun r => (after r).mono ?_⟩
  rintro k' a ⟨extends', h⟩
  exact ⟨(k.extends_learn op r).trans extends', h⟩

theorem Learns.bind {α β : Type} {mid : Knowledge → α → Prop} {done : Knowledge → β → Prop}
    {p : Program TursoOp TursoOp.Res α} {f : α → Program TursoOp TursoOp.Res β} (h : Learns k mid p)
    (after : ∀ k', k.Extends k' → ∀ a, mid k' a → Learns k' done (f a)) :
    Learns k done (p.bind f) := by
  refine Discipline.Obeys.bind h ?_
  rintro k' a ⟨extends', known⟩
  refine (after k' extends' a known).mono ?_
  rintro k'' b ⟨later, final⟩
  exact ⟨extends'.trans later, final⟩

theorem Learns.andThen {α β ε : Type} {mid : Knowledge → α → Prop}
    {done : Knowledge → Except ε β → Prop}
    {p : Program TursoOp TursoOp.Res (Except ε α)} {f : α → Program TursoOp TursoOp.Res (Except ε β)}
    (h : Learns k (fun k' r => ∀ a, r = .ok a → mid k' a) p)
    (after : ∀ k', k.Extends k' → ∀ a, mid k' a → Learns k' done (f a))
    (failed : ∀ k' e, done k' (.error e)) : Learns k done (p.andThen f) := by
  refine h.bind fun k' extends' r known => ?_
  cases r with
  | ok a => exact after k' extends' a (known a rfl)
  | error e => exact .ret (failed k' e)

theorem learns_platformCall {α : Type} {mid : Knowledge → α → Prop}
    {p : Program TursoOp TursoOp.Res (Except ApiError α)}
    (h : Learns k (fun k' r => ∀ a, r = .ok a → mid k' a) p) :
    Learns k (fun k' r => ∀ a, r = .ok a → mid k' a) (platformCall p) := by
  refine h.bind fun k' _ r known => .ret ?_
  intro a same
  cases r with
  | ok b =>
      cases same
      exact known _ rfl
  | error e => cases same

/-- An operation that needs no permission. -/
theorem learns_tursoCall {op : TursoOp} (may : ∀ k : Knowledge, tursoDiscipline.may k op) :
    Learns k (fun _ _ => True) (tursoCall op) := .call (may k) fun _ => .ret trivial

theorem learns_ensureRecordedName (target : DatabaseTarget) (logicalName : String) :
    Learns k (fun k' r => ∀ a, r = .ok a → k'.Read target logicalName)
      (ensureRecordedName target logicalName) := by
  refine .call trivial fun openedConn => ?_
  cases openedConn with
  | error e => exact .ret fun a same => by cases same
  | ok conn =>
      refine .call trivial fun inserted => ?_
      cases inserted with
      | error e => exact .ret fun a same => by cases same
      | ok _ =>
          refine .call trivial fun selected => ?_
          rcases selected with e | _ | recordedName
          · exact .ret fun a same => by cases same
          · exact .ret fun a same => by cases same
          · by_cases mismatch : recordedName ≠ logicalName
            · simp only [Program.lift, Program.bind_ret, if_pos mismatch]
              exact .ret fun a same => by cases same
            · simp only [Program.lift, Program.bind_ret, if_neg mismatch]
              rw [ne_eq, not_not] at mismatch
              refine .ret fun _ _ => ⟨conn, List.mem_cons_self .., ?_⟩
              rw [← mismatch]
              exact List.mem_cons_self ..

theorem learns_loadRecordedName (target : DatabaseTarget) :
    Learns k (fun k' r => ∀ found, r = .ok found → ∀ name, found = some name → k'.Read target name)
      (loadRecordedName target) := by
  refine .call trivial fun openedConn => ?_
  cases openedConn with
  | error e => exact .ret fun a same => by cases same
  | ok conn =>
      refine .call trivial fun selected => ?_
      rcases selected with e | _ | recordedName
      · exact .ret fun a same => by cases same
      · refine .ret fun a same name isSome => ?_
        cases same
        cases isSome
      · refine .ret fun a same name isSome => ?_
        cases same
        cases isSome
        exact ⟨conn, List.mem_cons_self .., List.mem_cons_self ..⟩

theorem learns_lookup (dbName : String) :
    Learns k (fun _ r => ∀ a, r = .ok a → True)
      (ProvisionerConfig.lookupExistingDatabase dbName) :=
  learns_platformCall (.call trivial fun _ => .ret fun _ _ => trivial)

/-- The call asks for this partition name. -/
def Knowledge.AsksFor (k : Knowledge) (name : PartitionName) : Prop :=
  k.call = .ensureTargetForName name ∨ k.call = .targetForExistingName name

theorem Knowledge.Extends.asksFor {k k' : Knowledge} (h : k.Extends k') {name : PartitionName}
    (asks : k.AsksFor name) : k'.AsksFor name := by
  rw [AsksFor, h.call]
  exact asks

theorem learns_adopt {name : PartitionName} (asks : k.AsksFor name) (info : DatabaseInfo) :
    Learns k (fun k' r => ∀ target, r = .ok target → k'.Bound name target)
      (k.config.adopt name (k.config.dbNameFor name) info) := by
  have persisted : Learns k (fun k' r => ∀ a, r = .ok a → ∀ logicalName, name = .named logicalName →
      k'.Read (k.config.makeTarget info.hostname) logicalName)
      (ProvisionerConfig.persistLogicalName name (k.config.makeTarget info.hostname)) := by
    cases name with
    | default => exact .ret fun _ _ logicalName named => by cases named
    | named logicalName =>
        refine (learns_ensureRecordedName _ logicalName).mono ?_
        rintro k' r ⟨extends', read⟩
        refine ⟨extends', fun a same other named => ?_⟩
        cases named
        exact read a same
  refine persisted.andThen (fun k' extends' _ read => ?_) fun _ _ _ same => by cases same
  have mayCache : k'.MayCache (k.config.dbNameFor name) (k.config.makeTarget info.hostname) := by
    refine .inl ⟨name, extends'.asksFor asks, ?_, read⟩
    rw [extends'.config]
  refine .call mayCache fun _ => ?_
  cases name with
  | default => exact .ret fun target same => .inr fun logicalName named => by cases named
  | named logicalName =>
      refine .call trivial fun _ => .ret fun target same => .inr fun other named => ?_
      cases same
      exact read other named

theorem learns_createOrFetch {name : PartitionName} (asks : k.call = .ensureTargetForName name) :
    Learns k (fun _ r => ∀ a, r = .ok a → True)
      (k.config.createOrFetch (k.config.dbNameFor name)) := by
  refine .call ⟨name, asks, rfl⟩ fun created => ?_
  rcases created with (_ | message | message) | info
  · refine (learns_lookup _).andThen (fun k' _ found _ => ?_) fun _ _ _ _ => trivial
    cases found <;> exact .ret fun _ _ => trivial
  · exact .ret fun _ _ => trivial
  · exact .ret fun _ _ => trivial
  · exact .ret fun _ _ => trivial

theorem learns_ensureTargetForName {name : PartitionName}
    (asks : k.call = .ensureTargetForName name) :
    Learns k (fun k' r => ∀ target, r = .ok target → k'.Bound name target)
      (k.config.ensureTargetForName name) := by
  refine .call trivial fun hit => ?_
  cases hit with
  | some target =>
      refine .ret fun target' same => .inl ?_
      cases same
      exact List.mem_cons_self ..
  | none =>
      refine (learns_lookup _).andThen (fun k' extends' found _ => ?_) fun _ _ _ same => by cases same
      have config : k'.config = k.config := extends'.config
      cases found with
      | some info =>
          rw [← config]
          exact learns_adopt (extends'.asksFor (.inl asks)) info
      | none =>
          have created := learns_createOrFetch (extends'.call.trans asks)
          rw [config] at created
          refine created.andThen (fun k'' later info _ => ?_) fun _ _ _ same => by cases same
          rw [← config, ← later.config]
          exact learns_adopt (later.asksFor (extends'.asksFor (.inl asks))) info

theorem learns_targetForExistingName {name : PartitionName}
    (asks : k.call = .targetForExistingName name) :
    Learns k (fun k' r => ∀ found, r = .ok found → ∀ target, found = some target →
      k'.Bound name target) (k.config.targetForExistingName name) := by
  refine .call trivial fun hit => ?_
  cases hit with
  | some target =>
      refine .ret fun found same target' isSome => .inl ?_
      cases same
      cases isSome
      exact List.mem_cons_self ..
  | none =>
      refine (learns_lookup _).andThen (fun k' extends' found _ => ?_) fun _ _ _ same => by cases same
      cases found with
      | none =>
          refine .ret fun _ same target isSome => ?_
          cases same
          cases isSome
      | some info =>
          have adopted := learns_adopt (extends'.asksFor (.inr asks)) info
          rw [extends'.config] at adopted
          refine adopted.andThen (fun k'' _ target bound => ?_) fun _ _ _ same => by cases same
          refine .ret fun _ same target' isSome => ?_
          cases same
          cases isSome
          exact bound

theorem learns_listDatabases :
    Learns k (fun k' r => ∀ databases, r = .ok databases → ∀ db ∈ databases, db ∈ k'.listed)
      (platformCall (tursoCall (.listDatabases k.config.group))) := by
  refine learns_platformCall (.call trivial fun r => .ret fun databases same db member => ?_)
  subst same
  exact List.mem_append_left _ member

theorem learns_cacheTargets {databases : List DatabaseInfo}
    (asks : k.call = .names ∨ k.call = .namedTargets) (managed : ∀ db ∈ databases, k.Managed db) :
    Learns k (fun _ _ => True) (k.config.cacheTargets databases) := by
  induction databases generalizing k with
  | nil => exact .ret trivial
  | cons db rest ih =>
      refine .call (.inr ⟨asks, db, managed db (List.mem_cons_self ..), rfl, rfl⟩) fun _ => ?_
      exact ih asks fun other member => managed other (List.mem_cons_of_mem _ member)

theorem learns_loadNames (databases : List DatabaseInfo) :
    Learns k (fun _ r => ∀ a, r = .ok a → True) (k.config.loadNames databases) := by
  induction databases generalizing k with
  | nil => exact .ret fun _ _ => trivial
  | cons db rest ih =>
      refine (learns_loadRecordedName _).andThen (fun k' extends' found _ => ?_) fun _ _ _ _ => trivial
      cases found with
      | none => exact .ret fun _ _ => trivial
      | some name =>
          rw [← extends'.config]
          exact ih.andThen (fun _ _ _ _ => .ret fun _ _ => trivial) fun _ _ _ _ => trivial

theorem learns_names (asks : k.call = .names) : Learns k (fun _ _ => True) k.config.names := by
  refine .call trivial fun knownNames => ?_
  by_cases some_known : (!knownNames.isEmpty) = true
  · simp only [Program.bind_ret, some_known, if_true]
    exact .ret trivial
  · simp only [Program.bind_ret, some_known, Bool.false_eq_true, if_false]
    refine learns_listDatabases.andThen (fun k' extends' databases listed => ?_) fun _ _ => trivial
    have managed : ∀ db ∈ databases.filter (fun db => k.config.isManagedNamedDatabase db.name),
        k'.Managed db := by
      intro db member
      obtain ⟨inside, isManaged⟩ := List.mem_filter.mp member
      refine ⟨listed db inside, ?_⟩
      rw [extends'.config]
      exact isManaged
    have cached := learns_cacheTargets (.inl (extends'.call.trans asks)) managed
    rw [extends'.config] at cached
    refine cached.bind fun k'' later _ _ => ?_
    have loaded := learns_loadNames (k := k'')
      (databases.filter fun db => k.config.isManagedNamedDatabase db.name)
    rw [later.config, extends'.config] at loaded
    refine loaded.andThen (fun _ _ names _ => ?_) fun _ _ => trivial
    exact .call trivial fun _ => .ret trivial

theorem learns_collectTargets {databases : List DatabaseInfo} (asks : k.call = .namedTargets)
    (listed : ∀ db ∈ databases, db ∈ k.listed) :
    Learns k (fun k' targets => ∀ entry ∈ targets, ∃ db, k'.Managed db ∧
      stripPrefix db.name k.config.namedDbPrefix = some entry.1 ∧
      entry.2 = k.config.makeTarget db.hostname) (k.config.collectTargets databases) := by
  induction databases generalizing k with
  | nil => exact .ret fun entry member => by cases member
  | cons db rest ih =>
      have restListed : ∀ other ∈ rest, other ∈ k.listed :=
        fun other member => listed other (List.mem_cons_of_mem _ member)
      rw [ProvisionerConfig.collectTargets]
      by_cases isDefault : db.name = k.config.dbNameFor .default
      · rw [if_pos isDefault]
        exact ih asks restListed
      · rw [if_neg isDefault]
        cases stripped : stripPrefix db.name k.config.namedDbPrefix with
        | none => exact ih asks restListed
        | some strippedName =>
            have managed : k.Managed db := by
              refine ⟨listed db (List.mem_cons_self ..), ?_⟩
              rw [ProvisionerConfig.isManagedNamedDatabase, stripped, bne_iff_ne.mpr isDefault]
              rfl
            refine .call (.inr ⟨.inr asks, db, managed, rfl, rfl⟩) fun _ => ?_
            refine (ih asks restListed).bind fun k' extends' targets known => .ret ?_
            intro entry member
            rcases List.mem_cons.mp member with rfl | later
            · exact ⟨db, extends'.managed managed, stripped, rfl⟩
            · exact known entry later

theorem learns_namedTargets (asks : k.call = .namedTargets) :
    Learns k (fun k' r => ∀ targets, r = .ok targets → ∀ entry ∈ targets, ∃ db, k'.Managed db ∧
      stripPrefix db.name k.config.namedDbPrefix = some entry.1 ∧
      entry.2 = k.config.makeTarget db.hostname) k.config.namedTargets := by
  refine learns_listDatabases.andThen (fun k' extends' databases listed => ?_)
    fun _ _ _ same => by cases same
  have collected := learns_collectTargets (extends'.call.trans asks) listed
  rw [extends'.config] at collected
  refine collected.bind fun _ _ targets known => .ret fun _ same => ?_
  cases same
  exact known

theorem learns_deleteAll {doomed : List String} (asks : k.call = .cleanup)
    (may : ∀ dbName ∈ doomed, ∃ names order, (names, order) ∈ k.walks ∧ dbName ∈ order ∧
      ∀ name ∈ names, name ∈ k.keys ∨ k.config.Owns name) :
    Learns k (fun _ r => ∀ a, r = .ok a → True) (ProvisionerConfig.deleteAll doomed) := by
  induction doomed generalizing k with
  | nil => exact .ret fun _ _ => trivial
  | cons dbName rest ih =>
      refine .call ⟨asks, may dbName (List.mem_cons_self ..)⟩ fun deleted => ?_
      cases deleted with
      | error e => exact .ret fun _ _ => trivial
      | ok _ => exact ih asks fun other member => may other (List.mem_cons_of_mem _ member)

theorem ProvisionerConfig.owns_default (config : ProvisionerConfig) :
    config.Owns (config.dbNameFor .default) := .inl rfl

theorem isPrefix_of_stripPrefix {s pre : String} (h : (stripPrefix s pre).isSome = true) :
    pre.toList <+: s.toList := by
  unfold stripPrefix at h
  split at h
  · assumption
  · cases h

theorem ProvisionerConfig.owns_of_strip {config : ProvisionerConfig} {dbName : String}
    (h : (stripPrefix dbName config.namedDbPrefix).isSome = true) : config.Owns dbName :=
  .inr (isPrefix_of_stripPrefix h)

theorem learns_cleanup (asks : k.call = .cleanup) :
    Learns k (fun _ _ => True) k.config.cleanup := by
  refine .call trivial fun cached => ?_
  have lists := learns_listDatabases (k := { k with keys := cached ++ k.keys })
  refine lists.andThen (fun k₁ extends₁ apiDbs _ => ?_) fun _ _ => trivial
  have looked : Learns k₁ (fun _ _ => True) (tursoCall (.cacheGet (k.config.dbNameFor .default))) :=
    learns_tursoCall fun _ => trivial
  refine looked.bind fun k₂ extends₂ cachedDefault _ => ?_
  refine .call trivial fun order => ?_
  refine Learns.andThen (learns_deleteAll ?_ fun dbName member => ?_)
    (fun k₃ extends₃ _ _ => ?_) fun _ _ => trivial
  · exact extends₂.call.trans (extends₁.call.trans asks)
  · refine ⟨_, order, List.mem_cons_self .., member, fun name doomed => ?_⟩
    have config : k₂.config = k.config := extends₂.config.trans extends₁.config
    rw [List.mem_append, List.mem_append] at doomed
    rcases doomed with (isCached | isDefault) | isListed
    · exact .inl (extends₂.keys (extends₁.keys (List.mem_append_left _ isCached)))
    · cases cachedDefault with
      | none => cases isDefault
      | some target =>
          have same : name = k.config.dbNameFor .default := List.mem_singleton.mp isDefault
          refine .inr ?_
          show k₂.config.Owns name
          rw [config, same]
          exact k.config.owns_default
    · obtain ⟨db, chosen, rfl⟩ := List.mem_map.mp isListed
      obtain ⟨_, owned⟩ := List.mem_filter.mp chosen
      refine .inr ?_
      show k₂.config.Owns db.name
      rw [config]
      rcases Bool.or_eq_true_iff.mp owned with same | stripped
      · exact .inl (beq_iff_eq.mp same)
      · exact ProvisionerConfig.owns_of_strip stripped
  · refine .call (extends₃.call.trans (extends₂.call.trans (extends₁.call.trans asks))) fun _ => ?_
    exact .call trivial fun _ => .ret trivial

/-- Every call obeys the discipline and its result rests on what it saw. -/
theorem obeys_call (config : ProvisionerConfig) (call : TursoCall) :
    tursoDiscipline.Obeys resultRests (config.call call) { config, call } := by
  have start : ∀ {program : Program TursoOp TursoOp.Res TursoResult},
      Learns { config, call } resultRests program →
        tursoDiscipline.Obeys resultRests program { config, call } :=
    fun h => h.mono fun _ _ known => known.2
  apply start
  cases call with
  | ensureTargetForName name =>
      refine (learns_ensureTargetForName rfl).bind fun k extends' r known => .ret ?_
      cases r with
      | error e => trivial
      | ok target => exact ⟨name, extends'.call, known target rfl⟩
  | targetForExistingName name =>
      refine (learns_targetForExistingName rfl).bind fun k extends' r known => .ret ?_
      rcases r with e | _ | target
      · trivial
      · trivial
      · exact ⟨name, extends'.call, known _ rfl target rfl⟩
  | names => exact (learns_names rfl).bind fun _ _ _ _ => .ret trivial
  | namedTargets =>
      refine (learns_namedTargets rfl).bind fun k extends' r known => .ret ?_
      cases r with
      | error e => trivial
      | ok targets =>
          intro entry member
          rw [extends'.config]
          exact known targets rfl entry member
  | cleanup => exact (learns_cleanup rfl).bind fun _ _ _ _ => .ret trivial

end Obeys
end WeeEvents.Turso
