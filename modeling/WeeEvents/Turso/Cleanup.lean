import WeeEvents.Turso.Calls

/-!
# Cleaning up

A provisioner that is alone on its platform hands out only targets of databases
that exist, as long as its cache does. A cleanup that stops at a failed deletion
keeps the cache, so it must not have deleted a database whose target is cached.
-/
namespace WeeEvents.Turso
open Foundation Sqlite

variable {I : Type} [DecidableEq I] {config : ProvisionerConfig} {i : I} {w w' : TursoWorld I}
  {name : PartitionName}

/-- The target of a database with this name. -/
def Platform.HasTarget (platform : Platform) (config : ProvisionerConfig) (dbName : String)
    (target : DatabaseTarget) : Prop :=
  ∃ db ∈ platform.databases, db.name = dbName ∧ target = config.makeTarget db.hostname

/-- Every cached target is that of a database that exists. -/
def CacheLive (config : ProvisionerConfig) (i : I) (w : TursoWorld I) : Prop :=
  ∀ entry ∈ (w.caches i).cache, w.platform.HasTarget config entry.1 entry.2

theorem Platform.Grows.hasTarget {platform platform' : Platform} (grows : platform.Grows platform')
    {dbName : String} {target : DatabaseTarget} (has : platform.HasTarget config dbName target) :
    platform'.HasTarget config dbName target := by
  obtain ⟨db, member, same⟩ := has
  exact ⟨db, grows.databases member, same⟩

/-- A call that asks for one target keeps the cache live and returns a live target. -/
theorem CacheLive.asked (live : CacheLive config i w) {found : Option DatabaseTarget}
    (asked : Asked config i w name found w') :
    CacheLive config i w' ∧ ∀ target, found = some target →
      w'.platform.HasTarget config (config.dbNameFor name) target := by
  cases asked with
  | @cached target hit =>
      obtain ⟨before, after, split, _⟩ := List.lookup_eq_some_iff.mp hit
      refine ⟨live, fun found same => ?_⟩
      cases same
      apply live (config.dbNameFor name, target)
      rw [split]
      exact List.mem_append_right _ (List.mem_cons_self ..)
  | @adopted platform db grows member named recorded =>
      have has : platform.HasTarget config (config.dbNameFor name)
          (config.makeTarget db.hostname) := ⟨db, member, named, rfl⟩
      constructor
      · intro entry inside
        rw [TursoWorld.setCaches_self] at inside
        rcases List.mem_cons.mp inside with rfl | old
        · exact has
        · exact grows.hasTarget (live entry (List.mem_of_mem_filter old))
      · intro target same
        cases same
        exact has
  | nothing grows =>
      constructor
      · intro entry inside
        exact grows.hasTarget (live entry inside)
      · intro target same
        cases same

theorem CacheLive.listed (live : CacheLive config i w)
    (cached : CachedFrom config i w.platform.databases w w') : CacheLive config i w' := by
  intro entry member
  rw [cached.platform]
  rcases cached.entries entry member with old | ⟨db, inside, rfl⟩
  · exact live entry old
  · exact ⟨db, inside, rfl, rfl⟩

/-! ### Deletions that fail -/

/-- When a deletion fails, every database whose target is cached is still there. -/
def SparesCached (i : I) (w' : TursoWorld I) : (op : TursoOp) → op.Res → Prop
  | .deleteDatabase _, .error _ =>
      ∀ entry ∈ (w'.caches i).cache, entry.1 ∈ w'.platform.dbNames
  | _, _ => True

/-- An operation on a platform whose deletions fail only like that. -/
def ServedSparing (i : I) (w : TursoWorld I) (op : TursoOp) (r : op.Res) (w' : TursoWorld I) : Prop :=
  w.Serves i op r w' ∧ SparesCached i w' op r

theorem runs_served {α : Type} {p : Program TursoOp TursoOp.Res α} {a : α}
    (run : Program.Runs (ServedSparing i) w p a w') : Program.Runs (ServedTo i) w p a w' :=
  run.mono fun _ _ _ _ served => served.1

/-- The loop ends early only at a deletion that fails. -/
theorem runs_deleteAll_error {order : List String} {e : BackendError}
    (run : Program.Runs (ServedSparing i) w (ProvisionerConfig.deleteAll order) (.error e) w') :
    ∀ entry ∈ (w'.caches i).cache, entry.1 ∈ w'.platform.dbNames := by
  induction order generalizing w with
  | nil =>
      obtain ⟨same, _⟩ := Program.runs_ret.mp run
      cases same
  | cons name rest ih =>
      obtain ⟨answer, w₁, deleting, later⟩ := run.of_call
      cases answer with
      | ok _ => exact ih later
      | error e' =>
          obtain ⟨_, rfl⟩ := Program.runs_ret.mp later
          exact deleting.2

/-- A cleanup keeps the cache live: it empties it, or every cached target's database is left. -/
theorem CacheLive.cleaned (live : CacheLive config i w) {r : Except BackendError Unit}
    (run : Program.Runs (ServedSparing i) w config.cleanup r w') : CacheLive config i w' := by
  obtain ⟨failed, succeeded⟩ := runs_cleanup (runs_served run)
  cases r with
  | ok done =>
      obtain ⟨empty, _⟩ := succeeded rfl
      intro entry member
      rw [empty] at member
      cases member
  | error e =>
      have deleted := failed e rfl
      have left : w'.platform = w.platform ∨
          ∀ entry ∈ (w'.caches i).cache, entry.1 ∈ w'.platform.dbNames := by
        obtain ⟨cached, w₁, ⟨⟨_, rfl⟩, _⟩, rest⟩ := run.of_call
        rcases rest.of_andThen with ⟨_, _, listing⟩ | ⟨databases, w₂, listing, deleting⟩
        · obtain ⟨rfl, _⟩ := @runs_listDatabases I _ config i _ _ _ (runs_served listing)
          exact .inl rfl
        · right
          obtain ⟨cachedDefault, w₃, _, ordering⟩ := deleting.of_call
          obtain ⟨order, w₄, _, loop⟩ := ordering.of_call
          rcases Program.Runs.of_andThen (p := ProvisionerConfig.deleteAll order) loop with
            ⟨_, _, deletions⟩ | ⟨_, w₅, _, clearing⟩
          · exact runs_deleteAll_error deletions
          · obtain ⟨_, w₆, _, more⟩ := clearing.of_call
            obtain ⟨_, w₇, _, finish⟩ := more.of_call
            obtain ⟨same, _⟩ := Program.runs_ret.mp finish
            cases same
      intro entry member
      have inside : entry ∈ (w.caches i).cache := by
        rw [← deleted.caches]
        exact member
      obtain ⟨db, listed, named, target⟩ := live entry inside
      rcases left with same | left
      · rw [same]
        exact ⟨db, listed, named, target⟩
      · have stillNamed : db.name ∈ w'.platform.dbNames := by
          rw [named]
          exact left entry member
        exact ⟨db, deleted.left db listed stillNamed, named, target⟩

/-! ### Runs of one provisioner alone -/

/-- Calls of one provisioner, each to its end and whatever it returns, while nobody else creates
or deletes a database and deletions fail only as long as all cached targets have theirs. -/
inductive CallsAlone (config : ProvisionerConfig) (i : I) (w : TursoWorld I) : TursoWorld I → Prop
  | start : CallsAlone config i w w
  | call {w₁ w₂ : TursoWorld I} {call : TursoCall} {result : TursoResult} :
      CallsAlone config i w w₁ → Program.Runs (ServedSparing i) w₁ (config.call call) result w₂ →
      CallsAlone config i w w₂

theorem CacheLive.called (live : CacheLive config i w) {call : TursoCall} {result : TursoResult}
    (run : Program.Runs (ServedSparing i) w (config.call call) result w') :
    CacheLive config i w' := by
  cases call with
  | ensureTargetForName name =>
      obtain ⟨r, w₁, asking, finish⟩ := run.of_bind
      obtain ⟨_, rfl⟩ := Program.runs_ret.mp finish
      exact (live.asked (runs_ensureTargetForName (runs_served asking))).1
  | targetForExistingName name =>
      obtain ⟨r, w₁, asking, finish⟩ := run.of_bind
      obtain ⟨_, rfl⟩ := Program.runs_ret.mp finish
      exact (live.asked (runs_targetForExistingName (runs_served asking))).1
  | names =>
      obtain ⟨r, w₁, listing, finish⟩ := run.of_bind
      obtain ⟨_, rfl⟩ := Program.runs_ret.mp finish
      exact live.listed (runs_names (runs_served listing)).cached
  | namedTargets =>
      obtain ⟨r, w₁, listing, finish⟩ := run.of_bind
      obtain ⟨_, rfl⟩ := Program.runs_ret.mp finish
      exact live.listed (runs_namedTargets (runs_served listing)).1
  | cleanup =>
      obtain ⟨r, w₁, cleaning, finish⟩ := run.of_bind
      obtain ⟨_, rfl⟩ := Program.runs_ret.mp finish
      exact live.cleaned cleaning

theorem CallsAlone.cacheLive {w₁ : TursoWorld I} (calls : CallsAlone config i w w₁)
    (live : CacheLive config i w) : CacheLive config i w₁ := by
  induction calls with
  | start => exact live
  | call _ run ih => exact ih.called run

/-- As long as deletions fail only while every cached target has its database, each
target that is handed out, after whatever calls and cleanups, is that of a database
that exists; and a cleanup that succeeds leaves no database of the prefix. -/
theorem cleanup_leaves_no_dead_targets (config : ProvisionerConfig) (i : I) {w w₁ : TursoWorld I}
    (live : CacheLive config i w) (calls : CallsAlone config i w w₁) :
    (∀ name target w₂,
      Program.Runs (ServedTo i) w₁ (config.ensureTargetForName name) (.ok target) w₂ →
        w₂.platform.HasTarget config (config.dbNameFor name) target) ∧
    (∀ name target w₂,
      Program.Runs (ServedTo i) w₁ (config.targetForExistingName name) (.ok (some target)) w₂ →
        w₂.platform.HasTarget config (config.dbNameFor name) target) ∧
    ∀ w₂, Program.Runs (ServedTo i) w₁ config.cleanup (.ok ()) w₂ →
      ∀ dbName ∈ w₂.platform.dbNames, config.isManagedNamedDatabase dbName = false ∧
        dbName ≠ config.dbNameFor .default := by
  have reached := calls.cacheLive live
  refine ⟨?_, ?_, ?_⟩
  · intro name target w₂ run
    exact (reached.asked (runs_ensureTargetForName run)).2 target rfl
  · intro name target w₂ run
    exact (reached.asked (runs_targetForExistingName run)).2 target rfl
  · intro w₂ run
    obtain ⟨_, _, _, clean⟩ := (runs_cleanup run).2 rfl
    exact clean

/-- A cached target is handed out whether or not its database exists. -/
theorem cached_target_returned {target : DatabaseTarget}
    (hit : (w.caches i).cache.lookup (config.dbNameFor name) = some target) :
    Program.Runs (ServedTo i) w (config.ensureTargetForName name) (.ok target) w := by
  have looked : ServedTo i w (.cacheGet (config.dbNameFor name)) (some target) w := ⟨hit.symm, rfl⟩
  exact .call looked .ret

/-! ### A cleanup that stops halfway -/

section Halfway

def shopConfig : ProvisionerConfig := ⟨"default", "shop", "token"⟩

def ordersDatabase : DatabaseInfo :=
  ⟨"orders.turso.io", shopConfig.dbNameFor (.named "orders")⟩

def billingDatabase : DatabaseInfo :=
  ⟨"billing.turso.io", shopConfig.dbNameFor (.named "billing")⟩

/-- Two databases and their cached targets. -/
def shopWorld : TursoWorld Unit where
  platform := ⟨[ordersDatabase, billingDatabase], fun _ => none⟩
  caches _ :=
    { cache := [ordersDatabase, billingDatabase].map fun db =>
        (db.name, shopConfig.makeTarget db.hostname) }

/-- The platform refuses to delete the second database. -/
def answerHalfway (op : TursoOp) (w : TursoWorld Unit) : Option (op.Res × TursoWorld Unit) :=
  match op with
  | .deleteDatabase dbName =>
      if dbName = billingDatabase.name then some (.error (.unexpected "status 500: "), w)
      else w.answer () (.deleteDatabase dbName)
  | op => w.answer () op

theorem answerHalfway_served {op : TursoOp} {w w' : TursoWorld Unit} {r : op.Res}
    (h : answerHalfway op w = some (r, w')) : ServedTo () w op r w' := by
  cases op with
  | deleteDatabase dbName =>
      simp only [answerHalfway] at h
      split at h
      · cases h
        exact .inr ⟨rfl, _, rfl⟩
      · exact TursoWorld.answer_serves h
  | _ => exact TursoWorld.answer_serves h

theorem shopWorld_live : CacheLive shopConfig () shopWorld := by
  intro entry member
  obtain ⟨db, inside, rfl⟩ := List.mem_map.mp member
  exact ⟨db, inside, rfl, rfl⟩

/-- The first deletion happens, the second fails, and the cache is kept: the target of
the deleted database is handed out again. -/
theorem dead_target_after_failed_cleanup : ¬ ∀ (config : ProvisionerConfig)
    (w w₁ w₂ : TursoWorld Unit) (r : Except BackendError Unit) (name : PartitionName)
    (target : DatabaseTarget), CacheLive config () w →
      Program.Runs (ServedTo ()) w config.cleanup r w₁ →
      Program.Runs (ServedTo ()) w₁ (config.ensureTargetForName name) (.ok target) w₂ →
        w₂.platform.HasTarget config (config.dbNameFor name) target := by
  intro noDeadTargets
  have halfway : (shopConfig.cleanup.eval answerHalfway shopWorld).map (fun run =>
      ((run.2.caches ()).cache.lookup ordersDatabase.name, run.2.platform.dbNames)) =
        some (some (shopConfig.makeTarget "orders.turso.io"), [billingDatabase.name]) := by
    decide +kernel
  obtain ⟨⟨r, w₁⟩, evaluated, left⟩ := Option.map_eq_some_iff.mp halfway
  obtain ⟨hit, names⟩ := Prod.mk.inj left
  have cleaned : Program.Runs (ServedTo ()) shopWorld shopConfig.cleanup r w₁ :=
    (Program.runs_iff_eval.mpr evaluated).mono fun _ _ _ _ => answerHalfway_served
  obtain ⟨db, inside, named, _⟩ := noDeadTargets shopConfig shopWorld w₁ w₁ r (.named "orders") _
    shopWorld_live cleaned (cached_target_returned hit)
  have still : db.name ∈ w₁.platform.dbNames := List.mem_map_of_mem inside
  rw [named, names] at still
  have apart : shopConfig.dbNameFor (.named "orders") ∉ [billingDatabase.name] := by
    decide +kernel
  exact apart still

/-- Where nothing fails, the two databases are deleted and created again on demand. -/
theorem orders_target_after_cleanup : ∃ w₁ w₂ target, CallsAlone shopConfig () shopWorld w₁ ∧
    Program.Runs (ServedTo ()) w₁ (shopConfig.ensureTargetForName (.named "orders")) (.ok target)
      w₂ ∧ w₂.platform.HasTarget shopConfig (shopConfig.dbNameFor (.named "orders")) target := by
  have sparing : ∀ (w : TursoWorld Unit) (op : TursoOp) (r : op.Res) (w' : TursoWorld Unit),
      w.answer () op = some (r, w') → ServedSparing () w op r w' := by
    intro w op r w' h
    refine ⟨TursoWorld.answer_serves h, ?_⟩
    cases op with
    | deleteDatabase dbName =>
        cases h
        trivial
    | _ => trivial
  have evaluates : ((shopConfig.call .cleanup).eval (fun op w => w.answer () op) shopWorld).bind
      (fun first => ((shopConfig.ensureTargetForName (.named "orders")).eval
        (fun op w => w.answer () op) first.2).map fun second => second.1.toOption.isSome) =
          some true := by decide +kernel
  obtain ⟨⟨result, w₁⟩, cleaned, rest⟩ := Option.bind_eq_some_iff.mp evaluates
  obtain ⟨⟨asked, w₂⟩, ensured, isOk⟩ := Option.map_eq_some_iff.mp rest
  have calls : CallsAlone shopConfig () shopWorld w₁ :=
    .call .start ((Program.runs_iff_eval.mpr cleaned).mono fun w op r w' => sparing w op r w')
  have run : Program.Runs (ServedTo ()) w₁ (shopConfig.ensureTargetForName (.named "orders")) asked
      w₂ := (Program.runs_iff_eval.mpr ensured).mono fun _ _ _ _ => TursoWorld.answer_serves
  cases asked with
  | error e => cases isOk
  | ok target =>
      exact ⟨w₁, w₂, target, calls, run,
        (cleanup_leaves_no_dead_targets shopConfig () shopWorld_live calls).1 _ _ _ run⟩

end Halfway
end WeeEvents.Turso
