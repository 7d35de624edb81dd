import WeeEvents.Turso.Sanitize
import WeeEvents.Sqlite.Strategies
import WeeEvents.Sqlite.Store
import WeeEvents.Foundation.Pool

/-!
# The Turso platform provisioner

The four operations of a named-target provisioner and its cleanup, as programs
over the platform API, the metadata recorded in each database, and the two
in-process caches. Several provisioners may share one platform.
-/
namespace WeeEvents.Turso
open Foundation Sqlite

structure DatabaseInfo where
  hostname : String
  name : String
  deriving DecidableEq, Repr

inductive ApiError where
  | alreadyExists
  | authFailure (message : String)
  | unexpected (message : String)
  deriving DecidableEq, Repr

def ApiError.toText : ApiError → String
  | .alreadyExists => "database already exists"
  | .authFailure message => "auth failure: " ++ message
  | .unexpected message => "unexpected error: " ++ message

/-- What a provisioner asks of the platform, of a database, and of its own maps. -/
inductive TursoOp where
  | createDatabase (name group : String)
  | getDatabase (name : String)
  | listDatabases (group : String)
  | deleteDatabase (name : String)
  | metadata (op : CatalogOp DatabaseTarget)
  | cacheGet (name : String)
  | cacheInsert (name : String) (target : DatabaseTarget)
  | cacheKeys
  | cacheClear
  | knownNames
  | knownExtend (names : List String)
  | knownClear
  /-- The order in which a hash set of these names is walked. -/
  | hashOrder (names : List String)

abbrev TursoOp.Res : TursoOp → Type
  | createDatabase _ _ => Except ApiError DatabaseInfo
  | getDatabase _ => Except ApiError (Option DatabaseInfo)
  | listDatabases _ => Except ApiError (List DatabaseInfo)
  | deleteDatabase _ => Except ApiError Unit
  | metadata op => op.Res
  | cacheGet _ => Option DatabaseTarget
  | cacheInsert _ _ => Unit
  | cacheKeys => List String
  | cacheClear => Unit
  | knownNames => List String
  | knownExtend _ => Unit
  | knownClear => Unit
  | hashOrder _ => List String

abbrev TursoProgram (α : Type) : Type := Program TursoOp TursoOp.Res (Except BackendError α)

def tursoCall (op : TursoOp) : Program TursoOp TursoOp.Res op.Res := .perform op

/-- A platform call whose error becomes an internal one. -/
def platformCall {α : Type} (p : Program TursoOp TursoOp.Res (Except ApiError α)) :
    TursoProgram α :=
  p.bind fun result => .ret (result.mapError fun e => .internal e.toText)

def fromMetadata {α : Type} (p : CatalogProgram DatabaseTarget α) : TursoProgram α :=
  p.lift TursoOp.metadata fun _ r => r

/-- `LibsqlPartitionMetadataStore::ensure_partition_name` -/
def ensureRecordedName (target : DatabaseTarget) (logicalName : String) : TursoProgram Unit :=
  fromMetadata ((catalogCall (.openEventStoreConnection target)).andThen fun conn =>
    ensurePartitionName conn logicalName)

/-- `LibsqlPartitionMetadataStore::load_partition_name` -/
def loadRecordedName (target : DatabaseTarget) : TursoProgram (Option String) :=
  fromMetadata ((catalogCall (.openEventStoreConnection target)).andThen fun conn =>
    catalogCall (.selectLogicalName conn))

def urlOf (hostname : String) : String := "libsql://" ++ hostname

structure ProvisionerConfig where
  group : String
  pre : String
  groupToken : String

namespace ProvisionerConfig

variable (config : ProvisionerConfig)

def dbNameFor : PartitionName → String
  | .default => sanitizeDatabaseName "" config.pre
  | .named name => sanitizeDatabaseName name config.pre

def namedDbPrefix : String := namedDatabasePrefix config.pre ++ "-"

def isManagedNamedDatabase (dbName : String) : Bool :=
  dbName != config.dbNameFor .default && (stripPrefix dbName config.namedDbPrefix).isSome

def makeTarget (hostname : String) : DatabaseTarget :=
  .turso (urlOf hostname) config.groupToken

def recordName : PartitionName → Program TursoOp TursoOp.Res Unit
  | .named name => tursoCall (.knownExtend [name])
  | .default => .ret ()

def persistLogicalName (name : PartitionName) (target : DatabaseTarget) : TursoProgram Unit :=
  match name with
  | .default => .ret (.ok ())
  | .named logicalName => ensureRecordedName target logicalName

/-- The end of both ways to a target: persist the name, cache the target, record the name. -/
def adopt (name : PartitionName) (dbName : String) (info : DatabaseInfo) :
    TursoProgram DatabaseTarget :=
  let target := config.makeTarget info.hostname
  (persistLogicalName name target).andThen fun _ =>
  (tursoCall (.cacheInsert dbName target)).bind fun _ =>
  (recordName name).bind fun _ => .ret (.ok target)

def lookupExistingDatabase (dbName : String) : TursoProgram (Option DatabaseInfo) :=
  platformCall (tursoCall (.getDatabase dbName))

/-- The creation branch of `ensure_target_for_name`. -/
def createOrFetch (dbName : String) : TursoProgram DatabaseInfo :=
  (tursoCall (.createDatabase dbName config.group)).bind fun
    | .ok info => .ret (.ok info)
    | .error .alreadyExists =>
        (lookupExistingDatabase dbName).andThen fun
          | some info => .ret (.ok info)
          | none => .ret (.error (.internal
              ("database '" ++ dbName ++ "' reported as existing but not found")))
    | .error (.authFailure message) =>
        .ret (.error (.configuration ("Turso API auth failure: " ++ message)))
    | .error e => .ret (.error (.internal e.toText))

def ensureTargetForName (name : PartitionName) : TursoProgram DatabaseTarget :=
  let dbName := config.dbNameFor name
  (tursoCall (.cacheGet dbName)).bind fun
    | some target => .ret (.ok target)
    | none =>
        (lookupExistingDatabase dbName).andThen fun
          | some info => config.adopt name dbName info
          | none => (config.createOrFetch dbName).andThen fun info => config.adopt name dbName info

def targetForExistingName (name : PartitionName) : TursoProgram (Option DatabaseTarget) :=
  let dbName := config.dbNameFor name
  (tursoCall (.cacheGet dbName)).bind fun
    | some target => .ret (.ok (some target))
    | none =>
        (lookupExistingDatabase dbName).andThen fun
          | none => .ret (.ok none)
          | some info =>
              (config.adopt name dbName info).andThen fun target => .ret (.ok (some target))

/-- Cache the target of each database. -/
def cacheTargets : List DatabaseInfo → Program TursoOp TursoOp.Res Unit
  | [] => .ret ()
  | db :: rest =>
      (tursoCall (.cacheInsert db.name (config.makeTarget db.hostname))).bind fun _ =>
      cacheTargets rest

/-- The recorded names of the databases, as `try_join_all` joins them. -/
def loadNames : List DatabaseInfo → TursoProgram (List String)
  | [] => .ret (.ok [])
  | db :: rest =>
      (loadRecordedName (config.makeTarget db.hostname)).andThen fun
        | none => .ret (.error (.configuration
            ("database '" ++ db.name ++ "' is missing logical partition metadata")))
        | some name => (loadNames rest).andThen fun names => .ret (.ok (name :: names))

def names : TursoProgram (List String) :=
  (tursoCall .knownNames).bind fun knownNames =>
    if !knownNames.isEmpty then .ret (.ok knownNames)
    else
      (platformCall (tursoCall (.listDatabases config.group))).andThen fun databases =>
      let managed := databases.filter fun db => config.isManagedNamedDatabase db.name
      -- every future caches its target before it first waits
      (config.cacheTargets managed).bind fun _ =>
      (config.loadNames managed).andThen fun names =>
      (tursoCall (.knownExtend (sortedSet names))).bind fun _ => .ret (.ok (sortedSet names))

/-- The loop of `named_targets`. -/
def collectTargets : List DatabaseInfo → Program TursoOp TursoOp.Res (List (String × DatabaseTarget))
  | [] => .ret []
  | db :: rest =>
      if db.name = config.dbNameFor .default then collectTargets rest
      else match stripPrefix db.name config.namedDbPrefix with
        | none => collectTargets rest
        | some strippedName =>
            let target := config.makeTarget db.hostname
            (tursoCall (.cacheInsert db.name target)).bind fun _ =>
            (collectTargets rest).bind fun targets => .ret ((strippedName, target) :: targets)

def namedTargets : TursoProgram (List (String × DatabaseTarget)) :=
  (platformCall (tursoCall (.listDatabases config.group))).andThen fun databases =>
  (config.collectTargets databases).bind fun targets => .ret (.ok targets)

def deleteAll : List String → TursoProgram Unit
  | [] => .ret (.ok ())
  | name :: rest =>
      (tursoCall (.deleteDatabase name)).bind fun
        | .ok _ => deleteAll rest
        | .error e => .ret (.error (.internal ("failed to delete " ++ name ++ ": " ++ e.toText)))

def cleanup : TursoProgram Unit :=
  let defaultDbName := config.dbNameFor .default
  (tursoCall .cacheKeys).bind fun cached =>
  (platformCall (tursoCall (.listDatabases config.group))).andThen fun apiDbs =>
  (tursoCall (.cacheGet defaultDbName)).bind fun cachedDefault =>
  let listed := apiDbs.filter fun db =>
    db.name == defaultDbName || (stripPrefix db.name config.namedDbPrefix).isSome
  let toDelete := cached ++ (cachedDefault.map fun _ => defaultDbName).toList ++
    listed.map DatabaseInfo.name
  (tursoCall (.hashOrder toDelete)).bind fun order =>
  (deleteAll order).andThen fun _ =>
  (tursoCall .cacheClear).bind fun _ =>
  (tursoCall .knownClear).bind fun _ => .ret (.ok ())

end ProvisionerConfig

/-! ### Provisioners on one platform -/

/-- The in-process maps of one provisioner. -/
structure Caches where
  cache : List (String × DatabaseTarget) := []
  knownNames : List String := []

/-- The databases of the organisation and the logical name recorded behind each url. -/
structure Platform where
  databases : List DatabaseInfo
  recorded : String → Option String

namespace Platform

def dbNames (platform : Platform) : List String := platform.databases.map DatabaseInfo.name

/-- The logical name recorded in the database of a target. -/
def recordedName (platform : Platform) : DatabaseTarget → Option String
  | .turso url _ => platform.recorded url
  | _ => none

def create (platform : Platform) (info : DatabaseInfo) : Platform :=
  { platform with databases := platform.databases ++ [info] }

/-- A database goes with the name recorded in it. -/
def delete (platform : Platform) (name : String) : Platform where
  databases := platform.databases.filter (·.name != name)
  recorded url :=
    if url ∈ (platform.databases.filter (·.name == name)).map (urlOf ∘ DatabaseInfo.hostname) then none
    else platform.recorded url

/-- `INSERT OR IGNORE` of the logical name. -/
def recordIfAbsent (platform : Platform) (target : DatabaseTarget) (name : String) : Platform :=
  match target with
  | .turso url _ => { platform with
      recorded := Function.update platform.recorded url (some ((platform.recorded url).getD name)) }
  | _ => platform

/-- The platform may take this database: neither its name nor its host is in use. -/
def Admits (platform : Platform) (info : DatabaseInfo) : Prop :=
  info.name ∉ platform.dbNames ∧ info.hostname ∉ platform.databases.map DatabaseInfo.hostname

end Platform

structure TursoWorld (I : Type) where
  platform : Platform
  caches : I → Caches

namespace TursoWorld

variable {I : Type} [DecidableEq I]

def start (platform : Platform) : TursoWorld I := ⟨platform, fun _ => {}⟩

def setCaches (w : TursoWorld I) (i : I) (caches : Caches) : TursoWorld I :=
  { w with caches := Function.update w.caches i caches }

def setPlatform (w : TursoWorld I) (platform : Platform) : TursoWorld I :=
  { w with platform }

/-- The statements on the metadata of a database. A failed insert may have happened. -/
def MetadataStep (w : TursoWorld I) : (op : CatalogOp DatabaseTarget) → op.Res → TursoWorld I → Prop
  | .openEventStoreConnection target, r, w' => w' = w ∧ ∀ conn, r = .ok conn → conn = target
  | .insertOrIgnoreLogicalName conn name, r, w' =>
      w' = w.setPlatform (w.platform.recordIfAbsent conn name) ∨ w' = w ∧ ∃ e, r = .error e
  | .selectLogicalName conn, r, w' =>
      w' = w ∧ ∀ found, r = .ok found → found = w.platform.recordedName conn
  | _, _, _ => False

/-- One operation of provisioner `i`. Every platform call may fail, a failed
creation or deletion may have happened, and hash maps are walked in any order. -/
def Serves (w : TursoWorld I) (i : I) : (op : TursoOp) → op.Res → TursoWorld I → Prop
  | .createDatabase name _, r, w' => match r with
      | .ok info => info.name = name ∧ w.platform.Admits info ∧
          w' = w.setPlatform (w.platform.create info)
      | .error .alreadyExists => name ∈ w.platform.dbNames ∧ w' = w
      | .error _ => w' = w ∨ ∃ hostname, w.platform.Admits ⟨hostname, name⟩ ∧
          w' = w.setPlatform (w.platform.create ⟨hostname, name⟩)
  | .getDatabase name, r, w' => w' = w ∧ ∀ found, r = .ok found →
      found = w.platform.databases.find? (·.name == name)
  | .listDatabases _, r, w' => w' = w ∧ ∀ databases, r = .ok databases →
      databases = w.platform.databases
  | .deleteDatabase name, r, w' =>
      w' = w.setPlatform (w.platform.delete name) ∨ w' = w ∧ ∃ e, r = .error e
  | .metadata op, r, w' => w.MetadataStep op r w'
  | .cacheGet name, r, w' => r = (w.caches i).cache.lookup name ∧ w' = w
  | .cacheInsert name target, _, w' => w' = w.setCaches i
      { w.caches i with
        cache := (name, target) :: (w.caches i).cache.filter fun entry => entry.1 != name }
  | .cacheKeys, r, w' => r.Perm ((w.caches i).cache.map Prod.fst) ∧ w' = w
  | .cacheClear, _, w' => w' = w.setCaches i { w.caches i with cache := [] }
  | .knownNames, r, w' => r.Perm (w.caches i).knownNames ∧ w' = w
  | .knownExtend names, _, w' => w' = w.setCaches i
      { w.caches i with knownNames := ((w.caches i).knownNames ++ names).dedup }
  | .knownClear, _, w' => w' = w.setCaches i { w.caches i with knownNames := [] }
  | .hashOrder names, r, w' => r.Perm names.dedup ∧ w' = w

instance (platform : Platform) (info : DatabaseInfo) : Decidable (platform.Admits info) :=
  inferInstanceAs (Decidable (_ ∧ _))

def answerMetadata (w : TursoWorld I) :
    (op : CatalogOp DatabaseTarget) → Option (op.Res × TursoWorld I)
  | .openEventStoreConnection target => some (.ok target, w)
  | .insertOrIgnoreLogicalName conn name =>
      some (.ok (), w.setPlatform (w.platform.recordIfAbsent conn name))
  | .selectLogicalName conn => some (.ok (w.platform.recordedName conn), w)
  | _ => none

/-- The answer of a platform on which nothing fails. -/
def answer (w : TursoWorld I) (i : I) : (op : TursoOp) → Option (op.Res × TursoWorld I)
  | .createDatabase name _ =>
      if w.platform.Admits ⟨name ++ ".turso.io", name⟩ then
        some (.ok ⟨name ++ ".turso.io", name⟩,
          w.setPlatform (w.platform.create ⟨name ++ ".turso.io", name⟩))
      else none
  | .getDatabase name => some (.ok (w.platform.databases.find? (·.name == name)), w)
  | .listDatabases _ => some (.ok w.platform.databases, w)
  | .deleteDatabase name => some (.ok (), w.setPlatform (w.platform.delete name))
  | .metadata op => w.answerMetadata op
  | .cacheGet name => some ((w.caches i).cache.lookup name, w)
  | .cacheInsert name target => some ((), w.setCaches i
      { w.caches i with
        cache := (name, target) :: (w.caches i).cache.filter fun entry => entry.1 != name })
  | .cacheKeys => some ((w.caches i).cache.map Prod.fst, w)
  | .cacheClear => some ((), w.setCaches i { w.caches i with cache := [] })
  | .knownNames => some ((w.caches i).knownNames, w)
  | .knownExtend names => some ((), w.setCaches i
      { w.caches i with knownNames := ((w.caches i).knownNames ++ names).dedup })
  | .knownClear => some ((), w.setCaches i { w.caches i with knownNames := [] })
  | .hashOrder names => some (names.dedup, w)

theorem answer_serves {w w' : TursoWorld I} {i : I} {op : TursoOp} {r : op.Res}
    (h : w.answer i op = some (r, w')) : w.Serves i op r w' := by
  cases op with
  | createDatabase name group =>
      simp only [answer] at h
      split at h
      · next admits =>
          cases h
          exact ⟨rfl, admits, rfl⟩
      · cases h
  | metadata op =>
      cases op with
      | openEventStoreConnection target =>
          cases h
          exact ⟨rfl, fun conn same => (Except.ok.inj same).symm⟩
      | insertOrIgnoreLogicalName conn name =>
          cases h
          exact .inl rfl
      | selectLogicalName conn =>
          cases h
          exact ⟨rfl, fun found same => (Except.ok.inj same).symm⟩
      | _ => cases h
  | getDatabase name =>
      cases h
      exact ⟨rfl, fun found same => (Except.ok.inj same).symm⟩
  | listDatabases group =>
      cases h
      exact ⟨rfl, fun databases same => (Except.ok.inj same).symm⟩
  | deleteDatabase name =>
      cases h
      exact .inl rfl
  | cacheGet name =>
      cases h
      exact ⟨rfl, rfl⟩
  | cacheKeys =>
      cases h
      exact ⟨List.Perm.refl _, rfl⟩
  | knownNames =>
      cases h
      exact ⟨List.Perm.refl _, rfl⟩
  | hashOrder names =>
      cases h
      exact ⟨List.Perm.refl _, rfl⟩
  | cacheInsert name target =>
      cases h
      rfl
  | cacheClear =>
      cases h
      rfl
  | knownExtend names =>
      cases h
      rfl
  | knownClear =>
      cases h
      rfl

/-- What one operation of provisioner `i` can do to the world. -/
inductive Effect (w : TursoWorld I) (i : I) : TursoOp → TursoWorld I → Prop
  | unchanged {op : TursoOp} : Effect w i op w
  | created {name group : String} {info : DatabaseInfo} : info.name = name →
      w.platform.Admits info →
      Effect w i (.createDatabase name group) (w.setPlatform (w.platform.create info))
  | deleted {name : String} :
      Effect w i (.deleteDatabase name) (w.setPlatform (w.platform.delete name))
  | recorded {conn : DatabaseTarget} {name : String} :
      Effect w i (.metadata (.insertOrIgnoreLogicalName conn name))
        (w.setPlatform (w.platform.recordIfAbsent conn name))
  | inserted {name : String} {target : DatabaseTarget} :
      Effect w i (.cacheInsert name target) (w.setCaches i
        { w.caches i with
          cache := (name, target) :: (w.caches i).cache.filter fun entry => entry.1 != name })
  | cleared : Effect w i .cacheClear (w.setCaches i { w.caches i with cache := [] })
  | knew {op : TursoOp} {names : List String} :
      Effect w i op (w.setCaches i { w.caches i with knownNames := names })

variable {w w' : TursoWorld I} {i : I} {op : TursoOp} {r : op.Res}

theorem Serves.effect (served : w.Serves i op r w') : w.Effect i op w' := by
  cases op with
  | createDatabase name group =>
      rcases r with (_ | message | message) | info
      · rw [served.2]
        exact .unchanged
      · rcases served with rfl | ⟨hostname, admits, rfl⟩
        · exact .unchanged
        · exact .created rfl admits
      · rcases served with rfl | ⟨hostname, admits, rfl⟩
        · exact .unchanged
        · exact .created rfl admits
      · obtain ⟨named, admits, rfl⟩ := served
        exact .created named admits
  | deleteDatabase name =>
      rcases served with rfl | ⟨rfl, _⟩
      · exact .deleted
      · exact .unchanged
  | metadata op =>
      cases op with
      | insertOrIgnoreLogicalName conn name =>
          rcases served with rfl | ⟨rfl, _⟩
          · exact .recorded
          · exact .unchanged
      | openEventStoreConnection target =>
          rw [served.1]
          exact .unchanged
      | selectLogicalName conn =>
          rw [served.1]
          exact .unchanged
      | _ => exact absurd served id
  | cacheInsert name target =>
      rw [served]
      exact .inserted
  | cacheClear =>
      rw [served]
      exact .cleared
  | knownExtend names =>
      rw [served]
      exact .knew
  | knownClear =>
      rw [served]
      exact .knew
  | getDatabase name =>
      rw [served.1]
      exact .unchanged
  | listDatabases group =>
      rw [served.1]
      exact .unchanged
  | cacheGet name =>
      rw [served.2]
      exact .unchanged
  | cacheKeys =>
      rw [served.2]
      exact .unchanged
  | knownNames =>
      rw [served.2]
      exact .unchanged
  | hashOrder names =>
      rw [served.2]
      exact .unchanged

theorem setCaches_self (caches : Caches) : (w.setCaches i caches).caches i = caches :=
  Function.update_self ..

theorem setCaches_ne {j : I} (ne : j ≠ i) (caches : Caches) :
    (w.setCaches i caches).caches j = w.caches j := Function.update_of_ne ne ..

/-- One operation adds at most the inserted entry to a cache. -/
theorem Effect.cached (effect : w.Effect i op w') {j : I} {entry : String × DatabaseTarget}
    (member : entry ∈ (w'.caches j).cache) :
    entry ∈ (w.caches j).cache ∨ j = i ∧ op = .cacheInsert entry.1 entry.2 := by
  have own : ∀ caches : Caches, entry ∈ ((w.setCaches i caches).caches j).cache →
      entry ∈ (w.caches j).cache ∨ j = i ∧ entry ∈ caches.cache := by
    intro caches inside
    by_cases mine : j = i
    · subst mine
      rw [setCaches_self] at inside
      exact .inr ⟨rfl, inside⟩
    · rw [setCaches_ne mine] at inside
      exact .inl inside
  cases effect with
  | unchanged => exact .inl member
  | created => exact .inl member
  | deleted => exact .inl member
  | recorded => exact .inl member
  | inserted =>
      rcases own _ member with old | ⟨rfl, inside⟩
      · exact .inl old
      · rcases List.mem_cons.mp inside with rfl | kept
        · exact .inr ⟨rfl, rfl⟩
        · exact .inl (List.mem_of_mem_filter kept)
  | cleared =>
      rcases own _ member with old | ⟨rfl, inside⟩
      · exact .inl old
      · cases inside
  | knew =>
      rcases own _ member with old | ⟨rfl, inside⟩
      · exact .inl old
      · exact .inl inside

end TursoWorld

/-- Recorded names stay. -/
def Platform.Keeps (platform platform' : Platform) : Prop :=
  ∀ target logicalName, platform.recordedName target = some logicalName →
    platform'.recordedName target = some logicalName

theorem Platform.Keeps.refl (platform : Platform) : platform.Keeps platform := fun _ _ same => same

theorem Platform.keeps_recordIfAbsent (platform : Platform) (target : DatabaseTarget)
    (name : String) : platform.Keeps (platform.recordIfAbsent target name) := by
  intro other logicalName recorded
  cases target with
  | turso url token =>
      cases other with
      | turso url' token' =>
          have before : platform.recorded url' = some logicalName := recorded
          show Function.update platform.recorded url _ url' = some logicalName
          by_cases same : url' = url
          · subst same
            rw [Function.update_self, before]
            rfl
          · rw [Function.update_of_ne same]
            exact before
      | _ => cases recorded
  | _ => exact recorded

/-- Nothing but a deletion removes a recorded name. -/
theorem TursoWorld.Effect.keeps {I : Type} [DecidableEq I] {w w' : TursoWorld I} {i : I}
    {op : TursoOp} (effect : w.Effect i op w') (noDeletion : ∀ dbName, op ≠ .deleteDatabase dbName) :
    w.platform.Keeps w'.platform := by
  cases effect with
  | deleted => exact absurd rfl (noDeletion _)
  | recorded => exact w.platform.keeps_recordIfAbsent _ _
  | created => exact fun _ _ same => same
  | _ => exact .refl _

inductive TursoCall where
  | ensureTargetForName (name : PartitionName)
  | targetForExistingName (name : PartitionName)
  | names
  | namedTargets
  | cleanup
  deriving DecidableEq

inductive TursoResult where
  | ensured (r : Except BackendError DatabaseTarget)
  | existing (r : Except BackendError (Option DatabaseTarget))
  | names (r : Except BackendError (List String))
  | namedTargets (r : Except BackendError (List (String × DatabaseTarget)))
  | cleaned (r : Except BackendError Unit)

def ProvisionerConfig.call (config : ProvisionerConfig) :
    TursoCall → Program TursoOp TursoOp.Res TursoResult
  | .ensureTargetForName name => (config.ensureTargetForName name).bind fun r => .ret (.ensured r)
  | .targetForExistingName name => (config.targetForExistingName name).bind fun r => .ret (.existing r)
  | .names => config.names.bind fun r => .ret (.names r)
  | .namedTargets => config.namedTargets.bind fun r => .ret (.namedTargets r)
  | .cleanup => config.cleanup.bind fun r => .ret (.cleaned r)

/-- Provisioners with these configurations, their calls in any interleaving. -/
abbrev provisioners {I : Type} [DecidableEq I] (config : I → ProvisionerConfig)
    (mayInvoke : I × TursoCall → Prop) : System where
  Op := TursoOp
  Res := TursoOp.Res
  Shared := TursoWorld I
  Call := I × TursoCall
  Result := TursoResult
  program call := (config call.1).call call.2
  step _ call w op r w' := w.Serves call.1 op r w'
  mayInvoke _ call := mayInvoke call

/-- Calls on one platform, each running alone, one after the other. -/
theorem provisioners_inOrder {I : Type} [DecidableEq I] {config : I → ProvisionerConfig}
    {mayInvoke : I × TursoCall → Prop}
    {allowed : TursoWorld I → Event TursoOp TursoOp.Res (I × TursoCall) TursoResult → Prop}
    (only : Pool.OnlyOperations (S := provisioners config mayInvoke) allowed)
    {handle : Nat → I × TursoCall → (op : TursoOp) → TursoWorld I → Option (op.Res × TursoWorld I)}
    (served : ∀ c call w op r w', handle c call op w = some (r, w') →
      Pool.PermittedStep (S := provisioners config mayInvoke) allowed c call w op r w')
    {calls : List (I × TursoCall)} (may : ∀ call ∈ calls, mayInvoke call) {w w' : TursoWorld I}
    {results : List TursoResult}
    (run : Pool.runInOrder (S := provisioners config mayInvoke) handle 0 calls w =
      some (results, w')) :
    ∃ p : Pool (provisioners config mayInvoke), Pool.ReachableBy allowed w p ∧ p.shared = w' ∧
      ∀ i call a, calls[i]? = some call → results[i]? = some a → .returned i call a ∈ p.trace := by
  have begin : Pool.ReachableBy (S := provisioners config mayInvoke) allowed w (Pool.initial w) :=
    .start
  obtain ⟨q, reach, shared, _, _, each⟩ := begin.runInOrder only served (fun _ _ => may)
    (fun c' _ event member => by cases member) run
  refine ⟨q, reach, shared, fun i call a isCall isResult => ?_⟩
  simpa using each i call a isCall isResult

end WeeEvents.Turso
