import WeeEvents.Turso.Discipline

/-!
# Deployments that share a platform

A provisioner tells its own databases from the others by name alone: its default
database by equality, its named ones by a string prefix. Two provisioners leave
each other's databases alone exactly when no name can be taken for both.
-/
namespace WeeEvents.Turso
open Foundation Sqlite

theorem isPrefix_append (s rest : String) : s.toList <+: (s ++ rest).toList := by
  rw [String.toList_append]
  exact List.prefix_append _ _

/-- The database of a non-empty name starts with the abbreviated prefix and a dash. -/
theorem sanitizeDatabaseName_named {name pre : String} (nonempty : name ≠ "") :
    (namedDatabasePrefix pre ++ "-").toList <+: (sanitizeDatabaseName name pre).toList := by
  have isNonempty : ¬ name.isEmpty = true := by
    rw [String.isEmpty_iff]
    exact nonempty
  rw [sanitizeDatabaseName, if_neg isNonempty]
  extract_lets named partitionHash remaining partition
  by_cases dropped : partition.isEmpty = true
  · rw [if_pos dropped]
    exact isPrefix_append _ _
  · rw [if_neg dropped]
    exact ((isPrefix_append _ partition).trans (isPrefix_append _ "-")).trans (isPrefix_append _ _)

theorem ProvisionerConfig.dbNameFor_named {config : ProvisionerConfig} {name : String}
    (nonempty : name ≠ "") :
    config.namedDbPrefix.toList <+: (config.dbNameFor (.named name)).toList :=
  sanitizeDatabaseName_named nonempty

theorem ProvisionerConfig.owns_dbNameFor (config : ProvisionerConfig) (name : PartitionName) :
    config.Owns (config.dbNameFor name) := by
  cases name with
  | default => exact config.owns_default
  | named name =>
      by_cases empty : name = ""
      · subst empty
        exact .inl rfl
      · exact .inr (dbNameFor_named empty)

/-- Neither provisioner can take a database name of the other for its own. -/
structure PrefixesApart (left right : ProvisionerConfig) : Prop where
  defaults : left.dbNameFor .default ≠ right.dbNameFor .default
  left_default : ¬ right.namedDbPrefix.toList <+: (left.dbNameFor .default).toList
  right_default : ¬ left.namedDbPrefix.toList <+: (right.dbNameFor .default).toList
  left_named : ¬ right.namedDbPrefix.toList <+: left.namedDbPrefix.toList
  right_named : ¬ left.namedDbPrefix.toList <+: right.namedDbPrefix.toList

theorem PrefixesApart.not_owns {left right : ProvisionerConfig} (h : PrefixesApart left right)
    {dbName : String} (owns : left.Owns dbName) : ¬ right.Owns dbName := by
  rintro (isDefault | isNamed)
  · rcases owns with same | named
    · exact h.defaults (same.symm.trans isDefault)
    · exact h.right_default (isDefault ▸ named)
  · rcases owns with same | named
    · exact h.left_default (same ▸ isNamed)
    · rcases List.prefix_or_prefix_of_prefix named isNamed with before | after
      · exact h.right_named before
      · exact h.left_named after

section Events

variable {I : Type}

/-- A creation the platform did not refuse: it happened, or it may have. -/
def NotRefused : Except ApiError DatabaseInfo → Prop
  | .error .alreadyExists => False
  | _ => True

/-- Provisioner `i` creates this database. -/
def Creates (i : I) (dbName : String) : Event TursoOp TursoOp.Res (I × TursoCall) TursoResult → Prop
  | .performed _ call (.createDatabase name _) r => call.1 = i ∧ name = dbName ∧ NotRefused r
  | _ => False

/-- Provisioner `j` creates this database, deletes it, or reports it in `names` or
`named_targets`. -/
def Touches (config : I → ProvisionerConfig) (j : I) (dbName : String) :
    Event TursoOp TursoOp.Res (I × TursoCall) TursoResult → Prop
  | .performed _ call (.createDatabase name _) r => call.1 = j ∧ name = dbName ∧ NotRefused r
  | .performed _ call (.deleteDatabase name) _ => call.1 = j ∧ name = dbName
  | .performed _ call (.cacheInsert name _) _ => call = (j, .names) ∧ name = dbName
  | .returned _ call (.namedTargets (.ok targets)) => call.1 = j ∧
      ∃ entry ∈ targets, dbName = (config j).namedDbPrefix ++ entry.1
  | _ => False

variable [DecidableEq I]

/-- Once one of them has created a database, the other never touches it. -/
def Isolated (config : I → ProvisionerConfig) (i j : I) : Prop :=
  ∀ (platform : Platform) (p : Pool (provisioners config fun _ => True)),
    Pool.Reachable (TursoWorld.start platform) p →
    ∀ before event after, p.trace = before ++ event :: after → ∀ dbName,
      ((∃ created ∈ before, Creates i dbName created) → ¬ Touches config j dbName event) ∧
      ((∃ created ∈ before, Creates j dbName created) → ¬ Touches config i dbName event)

end Events

/-! ### Provisioners touch only what they own -/

section Owned

variable {I : Type} {config : I → ProvisionerConfig}

theorem touches_of_creates {i : I} {dbName : String}
    {event : Event TursoOp TursoOp.Res (I × TursoCall) TursoResult}
    (h : Creates i dbName event) : Touches config i dbName event := by
  unfold Creates at h
  split at h
  · exact h
  · cases h

/-- What a call knows of its own databases. -/
structure Knowledge.Own (k : Knowledge) (config : I → ProvisionerConfig) (call : I × TursoCall) :
    Prop where
  isConfig : k.config = config call.1
  isCall : k.call = call.2
  keys : ∀ dbName ∈ k.keys, (config call.1).Owns dbName
  walks : ∀ walk ∈ k.walks, ∀ dbName ∈ walk.2, dbName ∈ walk.1

variable {k : Knowledge} {call : I × TursoCall}

theorem ProvisionerConfig.owns_of_managed {config : ProvisionerConfig} {dbName : String}
    (h : config.isManagedNamedDatabase dbName = true) : config.Owns dbName :=
  owns_of_strip (Bool.and_eq_true_iff.mp h).2

/-- What a call may touch is its own. -/
theorem Knowledge.Own.touches (h : k.Own config call) {c : Nat} {op : TursoOp} {r : op.Res}
    (may : tursoDiscipline.may k op) {i : I} {dbName : String}
    (touches : Touches config i dbName (.performed c call op r)) : (config i).Owns dbName := by
  cases op with
  | createDatabase name group =>
      obtain ⟨rfl, rfl, _⟩ := touches
      obtain ⟨partitionName, _, rfl⟩ := may
      rw [h.isConfig]
      exact ProvisionerConfig.owns_dbNameFor _ _
  | deleteDatabase name =>
      obtain ⟨rfl, rfl⟩ := touches
      obtain ⟨_, names, order, walked, inOrder, own⟩ := may
      rcases own _ (h.walks _ walked _ inOrder) with cached | owned
      · exact h.keys _ cached
      · rw [h.isConfig] at owned
        exact owned
  | cacheInsert name target =>
      obtain ⟨rfl, rfl⟩ := touches
      rcases may with ⟨partitionName, _, rfl, _⟩ | ⟨_, db, managed, rfl, _⟩
      · rw [h.isConfig]
        exact ProvisionerConfig.owns_dbNameFor _ _
      · have isManaged := managed.2
        rw [h.isConfig] at isManaged
        exact ProvisionerConfig.owns_of_managed isManaged
  | _ => exact absurd touches id

/-- What a call may cache is its own. -/
theorem Knowledge.Own.mayCache (h : k.Own config call) {dbName : String} {target : DatabaseTarget}
    (may : k.MayCache dbName target) : (config call.1).Owns dbName := by
  rcases may with ⟨name, _, rfl, _⟩ | ⟨_, db, managed, rfl, _⟩
  · rw [h.isConfig]
    exact ProvisionerConfig.owns_dbNameFor _ _
  · have isManaged := managed.2
    rw [h.isConfig] at isManaged
    exact ProvisionerConfig.owns_of_managed isManaged

variable [DecidableEq I]

theorem Knowledge.Own.learn (h : k.Own config call) {w w' : TursoWorld I} {op : TursoOp} {r : op.Res}
    (cached : ∀ entry ∈ (w.caches call.1).cache, (config call.1).Owns entry.1)
    (served : w.Serves call.1 op r w') : (tursoDiscipline.learn k op r).Own config call := by
  unfold tursoDiscipline
  dsimp only
  split
  · exact { h with }
  · exact { h with }
  · exact { h with }
  · exact { h with }
  · next keys =>
      refine { h with keys := fun dbName member => ?_ }
      rcases List.mem_append.mp member with new | old
      · have key : dbName ∈ (w.caches call.1).cache.map Prod.fst := served.1.mem_iff.mp new
        obtain ⟨entry, inside, rfl⟩ := List.mem_map.mp key
        exact cached entry inside
      · exact h.keys dbName old
  · next names order =>
      refine { h with walks := fun walk member dbName inOrder => ?_ }
      rcases List.mem_cons.mp member with rfl | old
      · exact List.mem_dedup.mp (served.1.mem_iff.mp inOrder)
      · exact h.walks walk old dbName inOrder
  · exact h

/-- Every cached name, and every database touched so far, is the toucher's own. -/
structure OwnOnly (config : I → ProvisionerConfig) (w : TursoWorld I)
    (trace : List (Event TursoOp TursoOp.Res (I × TursoCall) TursoResult)) : Prop where
  cached : ∀ i, ∀ entry ∈ (w.caches i).cache, (config i).Owns entry.1
  touched : ∀ event ∈ trace, ∀ i dbName, Touches config i dbName event → (config i).Owns dbName

def ownershipRule (config : I → ProvisionerConfig) :
    Pool.Rule (S := provisioners config fun _ => True) (G := Unit) tursoDiscipline
      (fun _ _ => True) where
  inv _ w trace := OwnOnly config w trace
  holds _ _ call k _ _ := k.Own config call
  start call := { config := config call.1, call := call.2 }
  done _ := resultRests
  obeys call := obeys_call (config call.1) call.2
  invoke {g w trace c call} h _ _ _ := by
    refine ⟨(), ⟨h.cached, fun event member i dbName touches => ?_⟩, ⟨rfl, rfl, ?_, ?_⟩,
      fun _ _ _ _ known => known⟩
    · rcases List.mem_append.mp member with old | new
      · exact h.touched event old i dbName touches
      · rw [List.mem_singleton.mp new] at touches
        exact absurd touches id
    · intro dbName member
      cases member
    · intro walk member
      cases member
  perform {g w trace c call k op r w'} h _ known may _ served := by
    refine ⟨(), ⟨fun j entry member => ?_, fun event member i dbName touches => ?_⟩,
      known.learn (h.cached call.1) served, fun _ _ _ _ other => other⟩
    · rcases served.effect.cached member with old | ⟨rfl, rfl⟩
      · exact h.cached j entry old
      · exact known.mayCache may
    · rcases List.mem_append.mp member with old | new
      · exact h.touched event old i dbName touches
      · rw [List.mem_singleton.mp new] at touches
        exact known.touches may touches
  finish {g w trace c call k result} h _ known ended _ := by
    refine ⟨(), ⟨h.cached, fun event member i dbName touches => ?_⟩, fun _ _ _ _ other => other⟩
    rcases List.mem_append.mp member with old | new
    · exact h.touched event old i dbName touches
    · rw [List.mem_singleton.mp new] at touches
      rcases result with _ | _ | _ | (_ | targets) | _
      case namedTargets.ok =>
        obtain ⟨rfl, entry, inside, rfl⟩ := touches
        obtain ⟨db, managed, _, _⟩ := ended entry inside
        refine .inr ?_
        rw [String.toList_append]
        exact List.prefix_append _ _
      all_goals exact absurd touches id

theorem ownOnly_of_reachable {platform : Platform} {p : Pool (provisioners config fun _ => True)}
    (reach : Pool.Reachable (TursoWorld.start platform) p) : OwnOnly config p.shared p.trace := by
  have init : (ownershipRule config).inv () (TursoWorld.start platform) [] :=
    ⟨fun i entry member => (by cases member), fun event member => (by cases member)⟩
  obtain ⟨_, own, _⟩ := (ownershipRule config).sound init reach
  exact own

theorem isolated_of_apart {i j : I} (apart : PrefixesApart (config i) (config j)) :
    Isolated config i j := by
  intro platform p reach before event after split dbName
  have own := ownOnly_of_reachable reach
  have inTrace : ∀ e, e ∈ before ∨ e = event → e ∈ p.trace := by
    intro e member
    rw [split]
    rcases member with early | rfl
    · exact List.mem_append_left _ early
    · exact List.mem_append_right _ (List.mem_cons_self ..)
  constructor
  · rintro ⟨created, early, creates⟩ touches
    exact apart.not_owns
      (own.touched created (inTrace _ (.inl early)) i dbName (touches_of_creates creates))
      (own.touched event (inTrace _ (.inr rfl)) j dbName touches)
  · rintro ⟨created, early, creates⟩ touches
    exact apart.not_owns
      (own.touched event (inTrace _ (.inr rfl)) i dbName touches)
      (own.touched created (inTrace _ (.inl early)) j dbName (touches_of_creates creates))

end Owned

/-! ### An intrusion -/

section Intrusion

variable {I : Type} [DecidableEq I]

theorem Platform.recordedName_recordIfAbsent {platform : Platform} {url token name : String}
    (blank : platform.recorded url = none) :
    (platform.recordIfAbsent (.turso url token) name).recordedName (.turso url token) = some name := by
  show Function.update platform.recorded url (some ((platform.recorded url).getD name)) url = some name
  rw [Function.update_self, blank]
  rfl

/-- Adopting a database that records no name yet succeeds, and touches nothing of the others. -/
theorem eval_adopt (config : ProvisionerConfig) (name : PartitionName) (dbName : String)
    {info : DatabaseInfo} {i : I} {w : TursoWorld I}
    (blank : w.platform.recorded (urlOf info.hostname) = none) :
    ∃ w', (config.adopt name dbName info).eval (fun op w => TursoWorld.answer w i op) w =
        some (.ok (config.makeTarget info.hostname), w') ∧
      w'.platform.databases = w.platform.databases ∧ ∀ j, j ≠ i → w'.caches j = w.caches j := by
  cases name with
  | default =>
      refine ⟨_, rfl, rfl, fun j ne => ?_⟩
      exact TursoWorld.setCaches_ne ne _
  | named logicalName =>
      let target := config.makeTarget info.hostname
      let recorded := w.setPlatform (w.platform.recordIfAbsent target logicalName)
      let cached := recorded.setCaches i { recorded.caches i with
        cache := (dbName, target) :: (recorded.caches i).cache.filter fun entry => entry.1 != dbName }
      have selected : recorded.answer i (.metadata (.selectLogicalName target)) =
          some (.ok (some logicalName), recorded) := by
        have found : recorded.platform.recordedName target = some logicalName :=
          Platform.recordedName_recordIfAbsent blank
        exact congrArg (fun found => some (Except.ok found, recorded)) found
      have run : (config.adopt (.named logicalName) dbName info).eval
          (fun op w => TursoWorld.answer w i op) w = some (.ok target, cached.setCaches i
            { cached.caches i with
              knownNames := ((cached.caches i).knownNames ++ [logicalName]).dedup }) := by
        refine (Program.eval_call rfl).trans ((Program.eval_call rfl).trans
          ((Program.eval_call selected).trans ?_))
        simp only [Program.bind_ret, ne_eq, not_true_eq_false, if_false]
        rfl
      refine ⟨_, run, rfl, fun j ne => ?_⟩
      rw [TursoWorld.setCaches_ne ne, TursoWorld.setCaches_ne ne]
      rfl

theorem ProvisionerConfig.listed_of_owns {config : ProvisionerConfig} {dbName : String}
    (h : config.Owns dbName) :
    (dbName == config.dbNameFor .default || (stripPrefix dbName config.namedDbPrefix).isSome) =
      true := by
  rw [Bool.or_eq_true_iff]
  rcases h with same | named
  · exact .inl (beq_iff_eq.mpr same)
  · right
    rw [stripPrefix, if_pos named]
    rfl

variable {config : I → ProvisionerConfig} {i j : I}

/-- On an empty platform a provisioner creates the database it is asked for. -/
theorem eval_ensure_new (config : ProvisionerConfig) (i : I) (name : PartitionName) :
    ∃ target w' info, (config.call (.ensureTargetForName name)).eval
        (fun op w => TursoWorld.answer w i op) (TursoWorld.start ⟨[], fun _ => none⟩) =
          some (.ensured (.ok target), w') ∧
      ⟨.createDatabase (config.dbNameFor name) config.group, .ok info⟩ ∈
        (config.call (.ensureTargetForName name)).log (fun op w => TursoWorld.answer w i op)
          (TursoWorld.start ⟨[], fun _ => none⟩) ∧
      w'.platform.databases.map DatabaseInfo.name = [config.dbNameFor name] ∧
      ∀ j, j ≠ i → w'.caches j = {} := by
  let info : DatabaseInfo := ⟨config.dbNameFor name ++ ".turso.io", config.dbNameFor name⟩
  let empty : TursoWorld I := TursoWorld.start ⟨[], fun _ => none⟩
  let created := empty.setPlatform (empty.platform.create info)
  have admits : empty.platform.Admits info := by
    constructor
    · intro member
      cases member
    · intro member
      cases member
  have made : empty.answer i (.createDatabase (config.dbNameFor name) config.group) =
      some (.ok info, created) := by
    rw [TursoWorld.answer]
    exact if_pos admits
  have blank : created.platform.recorded (urlOf info.hostname) = none := rfl
  obtain ⟨w', adopted, databases, others⟩ :=
    eval_adopt config name (config.dbNameFor name) (i := i) blank
  refine ⟨config.makeTarget info.hostname, w', info, ?_, ?_, ?_, ?_⟩
  · refine (Program.eval_call rfl).trans ((Program.eval_call rfl).trans
      ((Program.eval_call made).trans ?_))
    exact Program.eval_bind adopted
  · have operations : (config.call (.ensureTargetForName name)).log
        (fun op w => TursoWorld.answer w i op) empty =
          ⟨_, _⟩ :: ⟨_, _⟩ :: ⟨.createDatabase (config.dbNameFor name) config.group, .ok info⟩ :: _ :=
      (Program.log_call rfl).trans (congrArg _ ((Program.log_call rfl).trans
        (congrArg _ (Program.log_call made))))
    rw [operations]
    simp
  · rw [databases]
    rfl
  · intro j ne
    exact others j ne

/-- A cleanup with nothing cached deletes the one database it owns. -/
theorem eval_cleanup_one (config : ProvisionerConfig) {j : I} {w : TursoWorld I} {dbName : String}
    (blank : w.caches j = {}) (databases : w.platform.databases.map DatabaseInfo.name = [dbName])
    (owns : config.Owns dbName) :
    ∃ result w', (config.call .cleanup).eval (fun op w => TursoWorld.answer w j op) w =
        some (result, w') ∧
      ⟨.deleteDatabase dbName, .ok ()⟩ ∈
        (config.call .cleanup).log (fun op w => TursoWorld.answer w j op) w := by
  obtain ⟨info, only, rfl⟩ : ∃ info, w.platform.databases = [info] ∧ info.name = dbName := by
    obtain ⟨info, isOnly, named⟩ := List.map_eq_singleton_iff.mp databases
    exact ⟨info, isOnly, named⟩
  have keys : w.answer j .cacheKeys = some ([], w) := by
    rw [TursoWorld.answer, blank]
    rfl
  have listing : w.answer j (.listDatabases config.group) = some (.ok [info], w) := by
    rw [TursoWorld.answer, only]
  have missed : w.answer j (.cacheGet (config.dbNameFor .default)) = some (none, w) := by
    rw [TursoWorld.answer, blank]
    rfl
  have doomed : ([info].filter fun db => db.name == config.dbNameFor .default ||
      (stripPrefix db.name config.namedDbPrefix).isSome) = [info] := by
    simp only [List.filter_cons, ProvisionerConfig.listed_of_owns owns, if_true, List.filter_nil]
  have ordered : w.answer j (.hashOrder ([] ++ [] ++ ([info].filter fun db =>
      db.name == config.dbNameFor .default ||
        (stripPrefix db.name config.namedDbPrefix).isSome).map DatabaseInfo.name)) =
      some ([info.name], w) := by
    rw [doomed]
    rfl
  let deleted := w.setPlatform (w.platform.delete info.name)
  let cleared := deleted.setCaches j { deleted.caches j with cache := [] }
  refine ⟨.cleaned (.ok ()), cleared.setCaches j { cleared.caches j with knownNames := [] }, ?_, ?_⟩
  · exact (Program.eval_call keys).trans ((Program.eval_call listing).trans
      ((Program.eval_call missed).trans ((Program.eval_call ordered).trans
        ((Program.eval_call rfl).trans ((Program.eval_call rfl).trans (Program.eval_call rfl))))))
  · have operations : (config.call .cleanup).log (fun op w => TursoWorld.answer w j op) w =
        ⟨_, _⟩ :: ⟨_, _⟩ :: ⟨_, _⟩ :: ⟨_, _⟩ :: ⟨.deleteDatabase info.name, .ok ()⟩ :: _ :=
      (Program.log_call keys).trans (congrArg _ ((Program.log_call listing).trans (congrArg _
        ((Program.log_call missed).trans (congrArg _ ((Program.log_call ordered).trans
          (congrArg _ (Program.log_call rfl))))))))
    rw [operations]
    simp

/-- A database that one provisioner creates and the other counts among its own is
deleted by the other's cleanup. -/
theorem intrusion (ne : j ≠ i) (name : PartitionName)
    (owns : (config j).Owns ((config i).dbNameFor name)) :
    ∃ p : Pool (provisioners config fun _ => True),
      Pool.Reachable (TursoWorld.start ⟨[], fun _ => none⟩) p ∧
      ∃ before event after, p.trace = before ++ event :: after ∧
        (∃ created ∈ before, Creates i ((config i).dbNameFor name) created) ∧
        Touches config j ((config i).dbNameFor name) event := by
  let empty : TursoWorld I := TursoWorld.start ⟨[], fun _ => none⟩
  have only : Pool.OnlyOperations (S := provisioners config fun _ => True) fun _ _ => True :=
    fun _ _ _ => ⟨trivial, fun _ => trivial⟩
  have served : ∀ c call w op r w', TursoWorld.answer w call.1 op = some (r, w') →
      Pool.PermittedStep (S := provisioners config fun _ => True) (fun _ _ => True) c call w op r w' :=
    fun c call w op r w' h => ⟨TursoWorld.answer_serves h, trivial⟩
  have begun : Pool.Reachable (S := provisioners config fun _ => True) empty (Pool.initial empty) :=
    .start
  -- the creator is asked for the name
  obtain ⟨target, w₁, info, made, inLog, databases, blank⟩ := eval_ensure_new (config i) i name
  have asked := begun.step trivial (@Pool.Step.invoke (provisioners config fun _ => True) _ 0
    (i, .ensureTargetForName name) (fun event member => by cases member) trivial)
  obtain ⟨q, reach, shared, _, trace⟩ := asked.solo_log only served (Function.update_self ..) made
  -- then the other cleans up
  obtain ⟨result, w₂, cleaned, deletes⟩ := eval_cleanup_one (config j) (blank j ne) databases owns
  have fresh : Pool.Fresh 1 q.trace := by
    intro event member
    rw [trace] at member
    simp only [List.mem_append, List.mem_map, List.mem_singleton] at member
    rcases member with ((old | rfl) | ⟨entry, _, rfl⟩) | rfl
    · cases old
    all_goals exact Nat.zero_ne_one
  have cleaning := reach.step trivial (@Pool.Step.invoke (provisioners config fun _ => True) _ 1
    (j, .cleanup) fresh trivial)
  subst shared
  obtain ⟨q', reach', _, _, trace'⟩ := cleaning.solo_log only served (Function.update_self ..) cleaned
  obtain ⟨early, late, split⟩ := List.append_of_mem deletes
  have operations : q'.trace = q.trace ++ [.invoked 1 (j, .cleanup)] ++
      (early ++ ⟨.deleteDatabase ((config i).dbNameFor name), .ok ()⟩ :: late).map
        (fun entry => .performed 1 (j, .cleanup) entry.1 entry.2) ++
      [.returned 1 (j, .cleanup) result] := by
    rw [← split]
    exact trace'
  refine ⟨q', reach', q.trace ++ [.invoked 1 (j, .cleanup)] ++
    early.map (fun entry => .performed 1 (j, .cleanup) entry.1 entry.2),
    .performed 1 (j, .cleanup) (.deleteDatabase ((config i).dbNameFor name)) (.ok ()),
    late.map (fun entry => .performed 1 (j, .cleanup) entry.1 entry.2) ++
      [.returned 1 (j, .cleanup) result], ?_, ?_, rfl, rfl⟩
  · rw [operations]
    simp
  · refine ⟨.performed 0 (i, .ensureTargetForName name)
      (.createDatabase ((config i).dbNameFor name) (config i).group) (.ok info), ?_, rfl, rfl, trivial⟩
    rw [trace]
    have performed := List.mem_map_of_mem (f := fun entry : (op : TursoOp) × op.Res =>
      (.performed 0 (i, .ensureTargetForName name) entry.1 entry.2 :
        Event TursoOp TursoOp.Res (I × TursoCall) TursoResult)) inLog
    exact List.mem_append_left _ (List.mem_append_left _ (List.mem_append_left _
      (List.mem_append_right _ performed)))

/-- Two provisioners with different names on one platform leave each other's
databases alone in every run exactly when their names are apart. -/
theorem isolated_iff_apart (config : I → ProvisionerConfig) {i j : I} (ne : i ≠ j) :
    Isolated config i j ↔ PrefixesApart (config i) (config j) := by
  refine ⟨fun isolated => ?_, isolated_of_apart⟩
  -- neither counts a database that the other may create among its own
  have left : ∀ name, ¬ (config j).Owns ((config i).dbNameFor name) := by
    intro name owns
    obtain ⟨p, reach, before, event, after, split, creates, touches⟩ := intrusion ne.symm name owns
    exact (isolated _ p reach before event after split _).1 creates touches
  have right : ∀ name, ¬ (config i).Owns ((config j).dbNameFor name) := by
    intro name owns
    obtain ⟨p, reach, before, event, after, split, creates, touches⟩ := intrusion ne name owns
    exact (isolated _ p reach before event after split _).2 creates touches
  have named : ("x" : String) ≠ "" := by decide
  refine ⟨fun same => ?_, fun before => ?_, fun before => ?_, fun before => ?_, fun before => ?_⟩
  · exact left .default (.inl same)
  · exact left .default (.inr before)
  · exact right .default (.inr before)
  · exact left (.named "x") (.inr (before.trans (ProvisionerConfig.dbNameFor_named named)))
  · exact right (.named "x") (.inr (before.trans (ProvisionerConfig.dbNameFor_named named)))

end Intrusion

section Examples

/-- Two deployments in one group, told apart by their prefixes alone. -/
def deployments (left right : String) : Bool → ProvisionerConfig
  | false => ⟨"default", left, "token"⟩
  | true => ⟨"default", right, "token"⟩

theorem orders_and_billing_isolated : Isolated (deployments "orders" "billing") false true := by
  have apart : PrefixesApart (deployments "orders" "billing" false)
      (deployments "orders" "billing" true) :=
    ⟨by decide +kernel, by decide +kernel, by decide +kernel, by decide +kernel, by decide +kernel⟩
  exact (isolated_iff_apart (deployments "orders" "billing") Bool.false_ne_true).mpr apart

/-- The two prefixes sanitise to one default database. -/
theorem prefixes_share_default : "my_app" ≠ "my-app" ∧
    ¬ Isolated (deployments "my_app" "my-app") false true := by
  refine ⟨by decide, fun isolated => ?_⟩
  have same : (deployments "my_app" "my-app" false).dbNameFor .default =
      (deployments "my_app" "my-app" true).dbNameFor .default := by decide +kernel
  obtain ⟨p, reach, before, event, after, split, creates, touches⟩ :=
    @intrusion Bool _ (deployments "my_app" "my-app") false true Bool.false_ne_true.symm .default
      (.inl same)
  exact (isolated _ p reach before event after split _).1 creates touches

end Examples
end WeeEvents.Turso
