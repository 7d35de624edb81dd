import WeeEvents.Turso.Provisioner

/-!
# Provisioner calls that run alone

What each of the five calls leaves behind when it runs from start to end with no
other call in between, whatever the platform answers.
-/
namespace WeeEvents.Turso
open Foundation Sqlite

/-- Databases and recorded names stay. -/
structure Platform.Grows (platform platform' : Platform) : Prop where
  databases : platform.databases ⊆ platform'.databases
  keeps : platform.Keeps platform'

theorem Platform.Grows.refl (platform : Platform) : platform.Grows platform :=
  ⟨List.Subset.refl _, .refl _⟩

theorem Platform.Grows.trans {p₁ p₂ p₃ : Platform} (h : p₁.Grows p₂) (h' : p₂.Grows p₃) :
    p₁.Grows p₃ where
  databases := List.Subset.trans h.databases h'.databases
  keeps _ _ recorded := h'.keeps _ _ (h.keeps _ _ recorded)

theorem Platform.grows_create (platform : Platform) (info : DatabaseInfo) :
    platform.Grows (platform.create info) where
  databases := List.subset_append_left _ _
  keeps _ _ recorded := recorded

theorem Platform.grows_recordIfAbsent (platform : Platform) (target : DatabaseTarget)
    (name : String) : platform.Grows (platform.recordIfAbsent target name) where
  databases := by
    cases target <;> exact List.Subset.refl _
  keeps := platform.keeps_recordIfAbsent target name

variable {I : Type} [DecidableEq I] {config : ProvisionerConfig} {i : I} {w w' : TursoWorld I}
  {name : PartitionName} {dbName : String}

/-- The operations of provisioner `i`. -/
abbrev ServedTo (i : I) (w : TursoWorld I) (op : TursoOp) (r : op.Res) (w' : TursoWorld I) : Prop :=
  w.Serves i op r w'

/-! ### Asking for one target -/

theorem runs_ensureRecordedName {target : DatabaseTarget} {logicalName : String}
    {r : Except BackendError Unit}
    (run : Program.Runs (ServedTo i) w (ensureRecordedName target logicalName) r w') :
    ∃ platform, w' = w.setPlatform platform ∧ w.platform.Grows platform ∧
      (r = .ok () → platform.recordedName target = some logicalName) := by
  have failed : ∀ e : BackendError, (Except.error e : Except BackendError Unit) ≠ .ok () := by
    intro e same
    cases same
  obtain ⟨openedConn, w₁, opening, run⟩ := run.of_call
  obtain ⟨rfl, isTarget⟩ := opening
  cases openedConn with
  | error e =>
      obtain ⟨rfl, rfl⟩ := Program.runs_ret.mp run
      exact ⟨w'.platform, rfl, .refl _, fun same => absurd same (failed e)⟩
  | ok conn =>
      obtain rfl := isTarget conn rfl
      obtain ⟨inserted, w₂, inserting, run⟩ := run.of_call
      have grown : ∃ platform, w₂ = w₁.setPlatform platform ∧ w₁.platform.Grows platform := by
        rcases inserting with rfl | ⟨rfl, _⟩
        · exact ⟨_, rfl, w₁.platform.grows_recordIfAbsent conn logicalName⟩
        · exact ⟨w₂.platform, rfl, .refl _⟩
      obtain ⟨platform, rfl, grows⟩ := grown
      refine ⟨platform, ?_⟩
      cases inserted with
      | error e =>
          obtain ⟨rfl, rfl⟩ := Program.runs_ret.mp run
          exact ⟨rfl, grows, fun same => absurd same (failed e)⟩
      | ok _ =>
          obtain ⟨selected, w₃, selecting, run⟩ := run.of_call
          obtain ⟨rfl, found⟩ := selecting
          rcases selected with e | _ | recordedName
          · obtain ⟨rfl, rfl⟩ := Program.runs_ret.mp run
            exact ⟨rfl, grows, fun same => absurd same (failed e)⟩
          · obtain ⟨rfl, rfl⟩ := Program.runs_ret.mp run
            exact ⟨rfl, grows, fun same => absurd same (failed _)⟩
          · by_cases mismatch : recordedName ≠ logicalName
            · simp only [Program.lift, Program.bind_ret, if_pos mismatch] at run
              obtain ⟨rfl, rfl⟩ := Program.runs_ret.mp run
              exact ⟨rfl, grows, fun same => absurd same (failed _)⟩
            · simp only [Program.lift, Program.bind_ret, if_neg mismatch] at run
              obtain ⟨rfl, rfl⟩ := Program.runs_ret.mp run
              rw [ne_eq, not_not] at mismatch
              subst mismatch
              exact ⟨rfl, grows, fun _ => (found _ rfl).symm⟩

theorem runs_lookup {r : Except BackendError (Option DatabaseInfo)}
    (run : Program.Runs (ServedTo i) w (ProvisionerConfig.lookupExistingDatabase dbName) r w') :
    w' = w ∧ ∀ info, r = .ok (some info) → info ∈ w.platform.databases ∧ info.name = dbName := by
  obtain ⟨answer, w₁, ⟨rfl, found⟩, rest⟩ := run.of_call
  obtain ⟨rfl, rfl⟩ := Program.runs_ret.mp rest
  refine ⟨rfl, fun info same => ?_⟩
  cases answer with
  | error e => cases same
  | ok answer =>
      cases same
      have isFound := (found _ rfl).symm
      refine ⟨List.mem_of_find?_eq_some isFound, ?_⟩
      have matched := List.find?_some isFound
      exact beq_iff_eq.mp matched

theorem runs_createOrFetch {r : Except BackendError DatabaseInfo}
    (run : Program.Runs (ServedTo i) w (config.createOrFetch dbName) r w') :
    ∃ platform, w' = w.setPlatform platform ∧ w.platform.Grows platform ∧
      ∀ info, r = .ok info → info ∈ platform.databases ∧ info.name = dbName := by
  obtain ⟨answer, w₁, creating, rest⟩ := run.of_call
  have maybe : (w₁ = w ∨ ∃ hostname, w.platform.Admits ⟨hostname, dbName⟩ ∧
      w₁ = w.setPlatform (w.platform.create ⟨hostname, dbName⟩)) →
        ∃ platform, w₁ = w.setPlatform platform ∧ w.platform.Grows platform := by
    rintro (rfl | ⟨hostname, _, rfl⟩)
    · exact ⟨w₁.platform, rfl, .refl _⟩
    · exact ⟨_, rfl, w.platform.grows_create _⟩
  rcases answer with (_ | message | message) | info
  · obtain ⟨_, rfl⟩ := creating
    rcases rest.of_andThen with ⟨e, rfl, looking⟩ | ⟨found, w₂, looking, last⟩
    · obtain ⟨rfl, _⟩ := runs_lookup looking
      exact ⟨w'.platform, rfl, .refl _, fun info same => by cases same⟩
    · obtain ⟨rfl, isFound⟩ := runs_lookup looking
      cases found with
      | none =>
          obtain ⟨rfl, rfl⟩ := Program.runs_ret.mp last
          exact ⟨w'.platform, rfl, .refl _, fun info same => by cases same⟩
      | some info =>
          obtain ⟨rfl, rfl⟩ := Program.runs_ret.mp last
          refine ⟨w'.platform, rfl, .refl _, fun info same => ?_⟩
          cases same
          exact isFound info rfl
  · obtain ⟨platform, rfl, grows⟩ := maybe creating
    obtain ⟨rfl, rfl⟩ := Program.runs_ret.mp rest
    exact ⟨platform, rfl, grows, fun info same => by cases same⟩
  · obtain ⟨platform, rfl, grows⟩ := maybe creating
    obtain ⟨rfl, rfl⟩ := Program.runs_ret.mp rest
    exact ⟨platform, rfl, grows, fun info same => by cases same⟩
  · obtain ⟨named, _, rfl⟩ := creating
    obtain ⟨rfl, rfl⟩ := Program.runs_ret.mp rest
    refine ⟨_, rfl, w.platform.grows_create info, fun info' same => ?_⟩
    cases same
    exact ⟨List.mem_append_right _ (List.mem_singleton_self _), named⟩

/-- The names known after a name is recorded. -/
def knownWith (knownNames : List String) : PartitionName → List String
  | .named name => (knownNames ++ [name]).dedup
  | .default => knownNames

/-- What asking for the target of a partition leaves: a cached target, one of a database that
exists and records the partition's name, or none. -/
inductive Asked (config : ProvisionerConfig) (i : I) (w : TursoWorld I) (name : PartitionName) :
    Option DatabaseTarget → TursoWorld I → Prop
  | cached {target : DatabaseTarget} :
      (w.caches i).cache.lookup (config.dbNameFor name) = some target →
      Asked config i w name (some target) w
  | adopted {platform : Platform} {db : DatabaseInfo} : w.platform.Grows platform →
      db ∈ platform.databases → db.name = config.dbNameFor name →
      (∀ logicalName, name = .named logicalName →
        platform.recordedName (config.makeTarget db.hostname) = some logicalName) →
      Asked config i w name (some (config.makeTarget db.hostname))
        ((w.setPlatform platform).setCaches i
          { cache := (config.dbNameFor name, config.makeTarget db.hostname) ::
              (w.caches i).cache.filter fun entry => entry.1 != config.dbNameFor name
            knownNames := knownWith (w.caches i).knownNames name })
  | nothing {platform : Platform} : w.platform.Grows platform →
      Asked config i w name none (w.setPlatform platform)

theorem runs_adopt {info : DatabaseInfo} {r : Except BackendError DatabaseTarget} {platform : Platform}
    (grown : w.platform.Grows platform)
    (run : Program.Runs (ServedTo i) (w.setPlatform platform)
      (config.adopt name (config.dbNameFor name) info) r w')
    (exists' : info ∈ platform.databases) (named : info.name = config.dbNameFor name) :
    Asked config i w name r.toOption w' := by
  unfold ProvisionerConfig.adopt at run
  dsimp only at run
  have persisted : ∀ {r' : Except BackendError Unit} {w₁ : TursoWorld I},
      Program.Runs (ServedTo i) (w.setPlatform platform)
        (ProvisionerConfig.persistLogicalName name (config.makeTarget info.hostname)) r' w₁ →
      ∃ platform', w₁ = w.setPlatform platform' ∧ platform.Grows platform' ∧
        (r' = .ok () → ∀ logicalName, name = .named logicalName →
          platform'.recordedName (config.makeTarget info.hostname) = some logicalName) := by
    intro r' w₁ persisting
    cases name with
    | default =>
        obtain ⟨rfl, rfl⟩ := Program.runs_ret.mp persisting
        exact ⟨platform, rfl, .refl _, fun _ logicalName same => by cases same⟩
    | named n =>
        obtain ⟨platform', rfl, grows, recorded⟩ := runs_ensureRecordedName persisting
        refine ⟨platform', rfl, grows, fun ok logicalName same => ?_⟩
        cases same
        exact recorded ok
  rcases run.of_andThen with ⟨e, rfl, persisting⟩ | ⟨_, w₁, persisting, caching⟩
  · obtain ⟨platform', rfl, grows, _⟩ := persisted persisting
    exact .nothing (grown.trans grows)
  · obtain ⟨platform', rfl, grows, recorded⟩ := persisted persisting
    obtain ⟨_, w₂, inserted, rest⟩ := caching.of_call
    obtain ⟨_, w₃, recording, finish⟩ := Program.Runs.of_bind (p := ProvisionerConfig.recordName name) rest
    obtain ⟨rfl, rfl⟩ := Program.runs_ret.mp finish
    have after : w' = (w.setPlatform platform').setCaches i
        { cache := (config.dbNameFor name, config.makeTarget info.hostname) ::
            (w.caches i).cache.filter fun entry => entry.1 != config.dbNameFor name
          knownNames := knownWith (w.caches i).knownNames name } := by
      cases name with
      | default =>
          obtain ⟨_, rfl⟩ := Program.runs_ret.mp recording
          exact inserted
      | named n =>
          have extended : w' = w₂.setCaches i { w₂.caches i with
              knownNames := ((w₂.caches i).knownNames ++ [n]).dedup } :=
            Program.runs_perform.mp recording
          rw [extended, show w₂ = _ from inserted, TursoWorld.setCaches_self]
          simp only [TursoWorld.setCaches, Function.update_idem]
          rfl
    rw [after]
    exact .adopted (grown.trans grows) (grows.databases exists') named (recorded rfl)

theorem runs_ensureTargetForName {r : Except BackendError DatabaseTarget}
    (run : Program.Runs (ServedTo i) w (config.ensureTargetForName name) r w') :
    Asked config i w name r.toOption w' := by
  obtain ⟨hit, w₁, ⟨looked, rfl⟩, rest⟩ := run.of_call
  cases hit with
  | some target =>
      obtain ⟨rfl, rfl⟩ := Program.runs_ret.mp rest
      exact .cached looked.symm
  | none =>
      rcases rest.of_andThen with ⟨e, rfl, looking⟩ | ⟨found, w₂, looking, next⟩
      · obtain ⟨rfl, _⟩ := runs_lookup looking
        exact .nothing (.refl _)
      · obtain ⟨rfl, isFound⟩ := runs_lookup looking
        cases found with
        | some info =>
            obtain ⟨inside, named⟩ := isFound info rfl
            exact runs_adopt (.refl _) next inside named
        | none =>
            rcases next.of_andThen with ⟨e, rfl, creating⟩ | ⟨info, w₃, creating, last⟩
            · obtain ⟨platform, rfl, grows, _⟩ := runs_createOrFetch creating
              exact .nothing grows
            · obtain ⟨platform, rfl, grows, created⟩ := runs_createOrFetch creating
              obtain ⟨inside, named⟩ := created info rfl
              exact runs_adopt grows last inside named

/-- The target that `target_for_existing_name` returns, if any. -/
def foundTarget : Except BackendError (Option DatabaseTarget) → Option DatabaseTarget
  | .ok found => found
  | .error _ => none

theorem runs_targetForExistingName {r : Except BackendError (Option DatabaseTarget)}
    (run : Program.Runs (ServedTo i) w (config.targetForExistingName name) r w') :
    Asked config i w name (foundTarget r) w' := by
  obtain ⟨hit, w₁, ⟨looked, rfl⟩, rest⟩ := run.of_call
  cases hit with
  | some target =>
      obtain ⟨rfl, rfl⟩ := Program.runs_ret.mp rest
      exact .cached looked.symm
  | none =>
      rcases rest.of_andThen with ⟨e, rfl, looking⟩ | ⟨found, w₂, looking, next⟩
      · obtain ⟨rfl, _⟩ := runs_lookup looking
        exact .nothing (.refl _)
      · obtain ⟨rfl, isFound⟩ := runs_lookup looking
        cases found with
        | none =>
            obtain ⟨rfl, rfl⟩ := Program.runs_ret.mp next
            exact .nothing (.refl _)
        | some info =>
            obtain ⟨inside, named⟩ := isFound info rfl
            rcases next.of_andThen with ⟨e, rfl, adopting⟩ | ⟨target, w₃, adopting, last⟩
            · exact runs_adopt (.refl _) adopting inside named
            · obtain ⟨rfl, rfl⟩ := Program.runs_ret.mp last
              exact runs_adopt (.refl _) adopting inside named

/-! ### Listing -/

/-- A managed database records this logical name. -/
def Platform.Records (platform : Platform) (config : ProvisionerConfig) (logicalName : String) :
    Prop :=
  ∃ db ∈ platform.databases, config.isManagedNamedDatabase db.name = true ∧
    platform.recordedName (config.makeTarget db.hostname) = some logicalName

/-- The world changed in one provisioner's caches only, and its cache holds no new target but
those of listed databases. -/
structure CachedFrom (config : ProvisionerConfig) (i : I) (listed : List DatabaseInfo)
    (w w' : TursoWorld I) : Prop where
  onlyCaches : ∃ caches, w' = w.setCaches i caches
  entries : ∀ entry ∈ (w'.caches i).cache, entry ∈ (w.caches i).cache ∨
    ∃ db ∈ listed, entry = (db.name, config.makeTarget db.hostname)

theorem TursoWorld.setCaches_caches (w : TursoWorld I) (i : I) : w.setCaches i (w.caches i) = w := by
  unfold TursoWorld.setCaches
  rw [Function.update_eq_self]

theorem TursoWorld.setCaches_setCaches (w : TursoWorld I) (i : I) (caches caches' : Caches) :
    (w.setCaches i caches).setCaches i caches' = w.setCaches i caches' := by
  unfold TursoWorld.setCaches
  rw [Function.update_idem]

theorem CachedFrom.refl (config : ProvisionerConfig) (listed : List DatabaseInfo)
    (w : TursoWorld I) : CachedFrom config i listed w w where
  onlyCaches := ⟨w.caches i, (w.setCaches_caches i).symm⟩
  entries _ member := .inl member

theorem CachedFrom.platform {listed : List DatabaseInfo} (h : CachedFrom config i listed w w') :
    w'.platform = w.platform := by
  obtain ⟨caches, rfl⟩ := h.onlyCaches
  rfl

/-- Caching the target of one more listed database. -/
theorem CachedFrom.insert {listed : List DatabaseInfo} (h : CachedFrom config i listed w w')
    {db : DatabaseInfo} (member : db ∈ listed) :
    CachedFrom config i listed w (w'.setCaches i { w'.caches i with
      cache := (db.name, config.makeTarget db.hostname) ::
        (w'.caches i).cache.filter fun entry => entry.1 != db.name }) where
  onlyCaches := by
    obtain ⟨caches, rfl⟩ := h.onlyCaches
    exact ⟨_, w.setCaches_setCaches i _ _⟩
  entries entry inside := by
    rw [TursoWorld.setCaches_self] at inside
    rcases List.mem_cons.mp inside with rfl | kept
    · exact .inr ⟨db, member, rfl⟩
    · exact h.entries entry (List.mem_of_mem_filter kept)

theorem CachedFrom.setKnown {listed : List DatabaseInfo} (h : CachedFrom config i listed w w')
    (knownNames : List String) :
    CachedFrom config i listed w (w'.setCaches i { w'.caches i with knownNames }) where
  onlyCaches := by
    obtain ⟨caches, rfl⟩ := h.onlyCaches
    exact ⟨_, w.setCaches_setCaches i _ _⟩
  entries entry member := by
    rw [TursoWorld.setCaches_self] at member
    exact h.entries entry member

theorem CachedFrom.trans {listed : List DatabaseInfo} {w₁ w₂ w₃ : TursoWorld I}
    (h : CachedFrom config i listed w₁ w₂) (h' : CachedFrom config i listed w₂ w₃) :
    CachedFrom config i listed w₁ w₃ where
  onlyCaches := by
    obtain ⟨caches, rfl⟩ := h.onlyCaches
    obtain ⟨caches', rfl⟩ := h'.onlyCaches
    exact ⟨caches', w₁.setCaches_setCaches i _ _⟩
  entries entry member := by
    rcases h'.entries entry member with old | new
    · exact h.entries entry old
    · exact .inr new

theorem CachedFrom.mono {listed listed' : List DatabaseInfo} (h : CachedFrom config i listed w w')
    (more : listed ⊆ listed') : CachedFrom config i listed' w w' where
  onlyCaches := h.onlyCaches
  entries entry member := by
    rcases h.entries entry member with old | ⟨db, inside, same⟩
    · exact .inl old
    · exact .inr ⟨db, more inside, same⟩

/-- `list_databases` lists what there is. -/
theorem runs_listDatabases {r : Except BackendError (List DatabaseInfo)}
    (run : Program.Runs (ServedTo i) w
      (platformCall (tursoCall (.listDatabases config.group))) r w') :
    w' = w ∧ ∀ databases, r = .ok databases → databases = w.platform.databases := by
  obtain ⟨answer, w₁, ⟨rfl, listed⟩, rest⟩ := run.of_call
  obtain ⟨rfl, rfl⟩ := Program.runs_ret.mp rest
  refine ⟨rfl, fun databases same => ?_⟩
  cases answer with
  | error e => cases same
  | ok answer =>
      cases same
      exact listed _ rfl

theorem runs_cacheTargets {databases : List DatabaseInfo} {r : Unit}
    (run : Program.Runs (ServedTo i) w (config.cacheTargets databases) r w') :
    CachedFrom config i databases w w' ∧ (w'.caches i).knownNames = (w.caches i).knownNames := by
  induction databases generalizing w with
  | nil =>
      obtain ⟨rfl, rfl⟩ := Program.runs_ret.mp run
      exact ⟨.refl _ _ _, rfl⟩
  | cons db rest ih =>
      obtain ⟨_, w₁, inserted, later⟩ := run.of_call
      obtain ⟨cached, known⟩ := ih later
      have first : CachedFrom config i (db :: rest) w w₁ := by
        rw [show w₁ = _ from inserted]
        exact (CachedFrom.refl config (db :: rest) w).insert (List.mem_cons_self ..)
      refine ⟨first.trans (cached.mono (List.subset_cons_self ..)), ?_⟩
      rw [known, show w₁ = _ from inserted, TursoWorld.setCaches_self]

theorem runs_loadRecordedName {target : DatabaseTarget} {r : Except BackendError (Option String)}
    (run : Program.Runs (ServedTo i) w (loadRecordedName target) r w') :
    w' = w ∧ ∀ found, r = .ok found → found = w.platform.recordedName target := by
  obtain ⟨openedConn, w₁, ⟨rfl, isTarget⟩, rest⟩ := run.of_call
  cases openedConn with
  | error e =>
      obtain ⟨rfl, rfl⟩ := Program.runs_ret.mp rest
      exact ⟨rfl, fun found same => by cases same⟩
  | ok conn =>
      obtain rfl := isTarget conn rfl
      obtain ⟨selected, w₂, ⟨rfl, found⟩, last⟩ := rest.of_call
      obtain ⟨rfl, rfl⟩ := Program.runs_ret.mp last
      exact ⟨rfl, found⟩

/-- `names` reads the recorded name of each listed database. -/
theorem runs_loadNames {databases : List DatabaseInfo} {r : Except BackendError (List String)}
    (run : Program.Runs (ServedTo i) w (config.loadNames databases) r w') :
    w' = w ∧ ∀ names, r = .ok names → names.map some =
      databases.map fun db => w.platform.recordedName (config.makeTarget db.hostname) := by
  induction databases generalizing r w' with
  | nil =>
      obtain ⟨rfl, rfl⟩ := Program.runs_ret.mp run
      refine ⟨rfl, fun names same => ?_⟩
      cases same
      rfl
  | cons db rest ih =>
      rcases run.of_andThen with ⟨e, rfl, loading⟩ | ⟨found, w₁, loading, later⟩
      · obtain ⟨rfl, _⟩ := runs_loadRecordedName loading
        exact ⟨rfl, fun names same => by cases same⟩
      · obtain ⟨rfl, isFound⟩ := runs_loadRecordedName loading
        cases found with
        | none =>
            obtain ⟨rfl, rfl⟩ := Program.runs_ret.mp later
            exact ⟨rfl, fun names same => by cases same⟩
        | some name =>
            rcases later.of_andThen with ⟨e, rfl, others⟩ | ⟨names, w₂, others, finish⟩
            · obtain ⟨rfl, _⟩ := ih others
              exact ⟨rfl, fun names same => by cases same⟩
            · obtain ⟨rfl, loaded⟩ := ih others
              obtain ⟨rfl, rfl⟩ := Program.runs_ret.mp finish
              refine ⟨rfl, fun all same => ?_⟩
              cases same
              rw [List.map_cons, List.map_cons, loaded names rfl, isFound _ rfl]

theorem mem_names_iff {databases : List DatabaseInfo} {names : List String}
    {recorded : DatabaseInfo → Option String} (loaded : names.map some = databases.map recorded)
    {n : String} : (∃ db ∈ databases, recorded db = some n) ↔ n ∈ names := by
  have both : some n ∈ names.map some ↔ some n ∈ databases.map recorded := by rw [loaded]
  rw [List.mem_map, List.mem_map] at both
  rw [← both]
  simp

/-- What `names` leaves and returns. -/
structure NamesRun (config : ProvisionerConfig) (i : I) (w : TursoWorld I)
    (r : Except BackendError (List String)) (w' : TursoWorld I) : Prop where
  cached : CachedFrom config i w.platform.databases w w'
  shortcut : (w.caches i).knownNames ≠ [] → ∃ names, r = .ok names ∧
    names.Perm (w.caches i).knownNames ∧ w' = w
  listed : (w.caches i).knownNames = [] → ∀ names, r = .ok names →
    ∀ n, (n ∈ names ↔ w.platform.Records config n) ∧ (n ∈ (w'.caches i).knownNames ↔ n ∈ names)

theorem runs_names {r : Except BackendError (List String)}
    (run : Program.Runs (ServedTo i) w config.names r w') : NamesRun config i w r w' := by
  obtain ⟨known, w₁, ⟨same, rfl⟩, rest⟩ := run.of_call
  by_cases anyKnown : (!known.isEmpty) = true
  · simp only [Program.bind_ret, anyKnown, if_true] at rest
    obtain ⟨rfl, rfl⟩ := Program.runs_ret.mp rest
    refine ⟨.refl _ _ _, fun _ => ⟨known, rfl, same, rfl⟩, fun none => ?_⟩
    rw [none, List.perm_nil] at same
    rw [same] at anyKnown
    cases anyKnown
  · simp only [Program.bind_ret, anyKnown, Bool.false_eq_true, if_false] at rest
    have isEmpty : known = [] := by simpa using anyKnown
    rw [isEmpty, List.nil_perm] at same
    have noShortcut : ∀ {P : Prop}, (w₁.caches i).knownNames ≠ [] → P := fun some => absurd same some
    rcases rest.of_andThen with ⟨e, rfl, listing⟩ | ⟨databases, w₂, listing, caching⟩
    · obtain ⟨rfl, _⟩ := runs_listDatabases listing
      exact ⟨.refl _ _ _, noShortcut, fun _ names isOk => by cases isOk⟩
    · obtain ⟨rfl, isListed⟩ := runs_listDatabases listing
      obtain rfl := isListed databases rfl
      obtain ⟨_, w₃, cachingTargets, loading⟩ := Program.Runs.of_bind caching
      obtain ⟨cached, known⟩ := runs_cacheTargets cachingTargets
      have cachedAll := cached.mono (List.filter_subset_self ..)
      rcases loading.of_andThen with ⟨e, rfl, names⟩ | ⟨names, w₄, namesRead, extending⟩
      · obtain ⟨rfl, _⟩ := runs_loadNames names
        exact ⟨cachedAll, noShortcut, fun _ names isOk => by cases isOk⟩
      · obtain ⟨rfl, loaded⟩ := runs_loadNames namesRead
        obtain ⟨_, w₅, extended, finish⟩ := extending.of_call
        obtain ⟨rfl, rfl⟩ := Program.runs_ret.mp finish
        have after : w' = w₄.setCaches i { w₄.caches i with
            knownNames := ((w₄.caches i).knownNames ++ sortedSet names).dedup } := extended
        refine ⟨?_, noShortcut, fun none all isOk n => ?_⟩
        · rw [after]
          exact cachedAll.setKnown _
        · cases isOk
          rw [mem_sortedSet]
          constructor
          · rw [← mem_names_iff (loaded names rfl)]
            unfold Platform.Records
            rw [cached.platform]
            simp only [List.mem_filter, and_assoc]
          · rw [after, TursoWorld.setCaches_self]
            simp only [known, none, List.nil_append, List.mem_dedup, mem_sortedSet]

theorem runs_collectTargets {databases : List DatabaseInfo}
    {targets : List (String × DatabaseTarget)}
    (run : Program.Runs (ServedTo i) w (config.collectTargets databases) targets w') :
    CachedFrom config i databases w w' ∧ (w'.caches i).knownNames = (w.caches i).knownNames ∧
      ∀ db ∈ databases, db.name ≠ config.dbNameFor .default → ∀ stripped,
        stripPrefix db.name config.namedDbPrefix = some stripped →
          (stripped, config.makeTarget db.hostname) ∈ targets := by
  induction databases generalizing w w' targets with
  | nil =>
      obtain ⟨rfl, rfl⟩ := Program.runs_ret.mp run
      exact ⟨.refl _ _ _, rfl, fun db none => by cases none⟩
  | cons db rest ih =>
      have more := List.subset_cons_self db rest
      rw [ProvisionerConfig.collectTargets] at run
      by_cases isDefault : db.name = config.dbNameFor .default
      · rw [if_pos isDefault] at run
        obtain ⟨cached, known, listed⟩ := ih run
        refine ⟨cached.mono more, known, fun other member ne stripped isStripped => ?_⟩
        rcases List.mem_cons.mp member with rfl | later
        · exact absurd isDefault ne
        · exact listed other later ne stripped isStripped
      · rw [if_neg isDefault] at run
        cases strip : stripPrefix db.name config.namedDbPrefix with
        | none =>
            rw [strip] at run
            obtain ⟨cached, known, listed⟩ := ih run
            refine ⟨cached.mono more, known, fun other member ne stripped isStripped => ?_⟩
            rcases List.mem_cons.mp member with rfl | later
            · rw [strip] at isStripped
              cases isStripped
            · exact listed other later ne stripped isStripped
        | some strippedName =>
            rw [strip] at run
            obtain ⟨_, w₁, inserted, later⟩ := run.of_call
            obtain ⟨others, w₂, collecting, finish⟩ :=
              Program.Runs.of_bind (p := config.collectTargets rest) later
            obtain ⟨rfl, rfl⟩ := Program.runs_ret.mp finish
            obtain ⟨cached, known, listed⟩ := ih collecting
            have first : CachedFrom config i (db :: rest) w w₁ := by
              rw [show w₁ = _ from inserted]
              exact (CachedFrom.refl config (db :: rest) w).insert (List.mem_cons_self ..)
            refine ⟨first.trans (cached.mono more), ?_, fun other member ne stripped isStripped => ?_⟩
            · rw [known, show w₁ = _ from inserted, TursoWorld.setCaches_self]
            · rcases List.mem_cons.mp member with rfl | inRest
              · rw [strip] at isStripped
                cases isStripped
                exact List.mem_cons_self ..
              · exact List.mem_cons_of_mem _ (listed other inRest ne stripped isStripped)

/-- `named_targets` caches and returns the target of every managed database. -/
theorem runs_namedTargets {r : Except BackendError (List (String × DatabaseTarget))}
    (run : Program.Runs (ServedTo i) w config.namedTargets r w') :
    CachedFrom config i w.platform.databases w w' ∧
      (w'.caches i).knownNames = (w.caches i).knownNames ∧
      ∀ targets, r = .ok targets → ∀ db ∈ w.platform.databases,
        config.isManagedNamedDatabase db.name = true →
          ∃ stripped, (stripped, config.makeTarget db.hostname) ∈ targets := by
  rcases run.of_andThen with ⟨e, rfl, listing⟩ | ⟨databases, w₁, listing, collecting⟩
  · obtain ⟨rfl, _⟩ := runs_listDatabases listing
    exact ⟨.refl _ _ _, rfl, fun targets same => by cases same⟩
  · obtain ⟨rfl, isListed⟩ := runs_listDatabases listing
    obtain rfl := isListed databases rfl
    obtain ⟨targets, w₂, collected, finish⟩ := Program.Runs.of_bind collecting
    obtain ⟨rfl, rfl⟩ := Program.runs_ret.mp finish
    obtain ⟨cached, known, listed⟩ := runs_collectTargets collected
    refine ⟨cached, known, fun all same db member managed => ?_⟩
    cases same
    obtain ⟨notDefault, strips⟩ := Bool.and_eq_true_iff.mp managed
    obtain ⟨stripped, isStripped⟩ := Option.isSome_iff_exists.mp strips
    exact ⟨stripped, listed db member (bne_iff_ne.mp notDefault) stripped isStripped⟩

/-! ### Cleaning up -/

/-- Databases were deleted and nothing else changed: every database is left whose name is. -/
structure Deleted (w w' : TursoWorld I) : Prop where
  caches : w'.caches = w.caches
  databases : w'.platform.databases ⊆ w.platform.databases
  left : ∀ db ∈ w.platform.databases, db.name ∈ w'.platform.dbNames → db ∈ w'.platform.databases

omit [DecidableEq I] in
theorem Deleted.refl (w : TursoWorld I) : Deleted w w :=
  ⟨rfl, List.Subset.refl _, fun _ member _ => member⟩

omit [DecidableEq I] in
theorem Deleted.trans {w₁ w₂ w₃ : TursoWorld I} (h : Deleted w₁ w₂) (h' : Deleted w₂ w₃) :
    Deleted w₁ w₃ where
  caches := h'.caches.trans h.caches
  databases := List.Subset.trans h'.databases h.databases
  left db member named := by
    have stillNamed : db.name ∈ w₂.platform.dbNames := by
      obtain ⟨other, inside, same⟩ := List.mem_map.mp named
      rw [← same]
      exact List.mem_map_of_mem (h'.databases inside)
    exact h'.left db (h.left db member stillNamed) named

theorem Platform.mem_dbNames_delete {platform : Platform} {name other : String} :
    other ∈ (platform.delete name).dbNames ↔ other ∈ platform.dbNames ∧ other ≠ name := by
  unfold Platform.dbNames Platform.delete
  simp only [List.mem_map, List.mem_filter, bne_iff_ne]
  constructor
  · rintro ⟨db, ⟨member, ne⟩, rfl⟩
    exact ⟨⟨db, member, rfl⟩, ne⟩
  · rintro ⟨⟨db, member, rfl⟩, ne⟩
    exact ⟨db, ⟨member, ne⟩, rfl⟩

omit [DecidableEq I] in
theorem deleted_delete (w : TursoWorld I) (name : String) :
    Deleted w (w.setPlatform (w.platform.delete name)) where
  caches := rfl
  databases := List.filter_subset_self ..
  left db member named := by
    have ne := (Platform.mem_dbNames_delete.mp named).2
    exact List.mem_filter.mpr ⟨member, bne_iff_ne.mpr ne⟩

/-- The deletion loop: when it gets to its end, none of the databases is left. -/
theorem runs_deleteAll {order : List String} {r : Except BackendError Unit}
    (run : Program.Runs (ServedTo i) w (ProvisionerConfig.deleteAll order) r w') :
    Deleted w w' ∧ (r = .ok () → ∀ name ∈ order, name ∉ w'.platform.dbNames) := by
  induction order generalizing w with
  | nil =>
      obtain ⟨rfl, rfl⟩ := Program.runs_ret.mp run
      exact ⟨.refl _, fun _ name none => by cases none⟩
  | cons name rest ih =>
      obtain ⟨answer, w₁, deleting, later⟩ := run.of_call
      cases answer with
      | error e =>
          obtain ⟨rfl, rfl⟩ := Program.runs_ret.mp later
          refine ⟨?_, fun same => by cases same⟩
          rcases deleting with rfl | ⟨rfl, _⟩
          · exact deleted_delete w name
          · exact .refl _
      | ok _ =>
          have isDeleted : w₁ = w.setPlatform (w.platform.delete name) := by
            rcases deleting with same | ⟨_, e, failed⟩
            · exact same
            · cases failed
          obtain ⟨deleted, gone⟩ := ih later
          have first : Deleted w w₁ := by
            rw [isDeleted]
            exact deleted_delete w name
          refine ⟨first.trans deleted, fun ok other member still => ?_⟩
          rcases List.mem_cons.mp member with rfl | inRest
          · obtain ⟨db, inside, same⟩ := List.mem_map.mp still
            have earlier : db.name ∈ w₁.platform.dbNames :=
              List.mem_map_of_mem (deleted.databases inside)
            rw [isDeleted, same] at earlier
            exact (Platform.mem_dbNames_delete.mp earlier).2 rfl
          · exact gone ok other inRest still

/-- A cleanup that returns an error has deleted databases at most; one that succeeds has also
emptied both caches, and left no database of the prefix. -/
theorem runs_cleanup {r : Except BackendError Unit}
    (run : Program.Runs (ServedTo i) w config.cleanup r w') :
    (∀ e, r = .error e → Deleted w w') ∧
      (r = .ok () → (w'.caches i).cache = [] ∧ (w'.caches i).knownNames = [] ∧
        w'.platform.databases ⊆ w.platform.databases ∧
        ∀ dbName ∈ w'.platform.dbNames, config.isManagedNamedDatabase dbName = false ∧
          dbName ≠ config.dbNameFor .default) := by
  obtain ⟨cached, w₁, ⟨_, rfl⟩, rest⟩ := run.of_call
  rcases rest.of_andThen with ⟨e, rfl, listing⟩ | ⟨databases, w₂, listing, deleting⟩
  · obtain ⟨rfl, _⟩ := runs_listDatabases listing
    exact ⟨fun _ _ => .refl _, fun same => by cases same⟩
  · obtain ⟨rfl, isListed⟩ := runs_listDatabases listing
    obtain rfl := isListed databases rfl
    obtain ⟨cachedDefault, w₃, ⟨_, rfl⟩, ordering⟩ := deleting.of_call
    obtain ⟨order, w₄, ⟨isOrder, rfl⟩, loop⟩ := ordering.of_call
    rcases Program.Runs.of_andThen (p := ProvisionerConfig.deleteAll order) loop with
      ⟨e, rfl, deletions⟩ | ⟨_, w₅, deletions, clearing⟩
    · exact ⟨fun _ _ => (runs_deleteAll deletions).1, fun same => by cases same⟩
    · obtain ⟨deleted, gone⟩ := runs_deleteAll deletions
      obtain ⟨_, w₆, clearedCache, more⟩ := clearing.of_call
      obtain ⟨_, w₇, clearedKnown, finish⟩ := more.of_call
      obtain ⟨rfl, rfl⟩ := Program.runs_ret.mp finish
      have after : w' = w₅.setCaches i {} := by
        rw [show w' = _ from clearedKnown, show w₆ = _ from clearedCache, TursoWorld.setCaches_self,
          TursoWorld.setCaches_setCaches]
      subst after
      refine ⟨fun e same => (by cases same), fun _ => ?_⟩
      rw [TursoWorld.setCaches_self]
      refine ⟨rfl, rfl, deleted.databases, fun dbName still => ?_⟩
      obtain ⟨db, inside, rfl⟩ := List.mem_map.mp still
      have unlisted : ¬ (db.name == config.dbNameFor .default ||
          (stripPrefix db.name config.namedDbPrefix).isSome) = true := by
        intro listed
        apply gone rfl db.name _ still
        rw [isOrder.mem_iff, List.mem_dedup, List.mem_append]
        right
        apply List.mem_map_of_mem
        exact List.mem_filter.mpr ⟨deleted.databases inside, listed⟩
      rw [Bool.or_eq_true, not_or, beq_iff_eq] at unlisted
      refine ⟨?_, unlisted.1⟩
      rw [ProvisionerConfig.isManagedNamedDatabase, Bool.and_eq_false_iff]
      right
      simpa using unlisted.2

end WeeEvents.Turso
