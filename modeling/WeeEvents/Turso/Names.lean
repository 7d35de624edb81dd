import WeeEvents.Turso.Cleanup

/-!
# Which names a provisioner returns

`names` returns what the process knows, and asks the platform only when it knows
nothing. What is known is always recorded on the platform, so the answer can only
lack names: those of databases that others created, or that were opened without
being recorded as known.
-/
namespace WeeEvents.Turso
open Foundation Sqlite

variable {I : Type} [DecidableEq I] {config : ProvisionerConfig} {i : I} {w w' : TursoWorld I}
  {name : PartitionName}

def TursoResult.Succeeded : TursoResult → Prop
  | .ensured r => r.toOption.isSome
  | .existing r => r.toOption.isSome
  | .names r => r.toOption.isSome
  | .namedTargets r => r.toOption.isSome
  | .cleaned r => r.toOption.isSome

/-- The named partitions that a call asks for have managed databases. -/
def TursoCall.AsksManaged (config : ProvisionerConfig) : TursoCall → Prop
  | .ensureTargetForName (.named n) =>
      config.isManagedNamedDatabase (config.dbNameFor (.named n)) = true
  | .targetForExistingName (.named n) =>
      config.isManagedNamedDatabase (config.dbNameFor (.named n)) = true
  | _ => True

/-- Successful calls of one provisioner, one after the other, while other processes may create
databases and record names. -/
inductive SuccessfulCalls (config : ProvisionerConfig) (i : I) (w : TursoWorld I) :
    TursoWorld I → Prop
  | start : SuccessfulCalls config i w w
  | call {w₁ w₂ : TursoWorld I} {call : TursoCall} {result : TursoResult} :
      SuccessfulCalls config i w w₁ → call.AsksManaged config →
      Program.Runs (ServedTo i) w₁ (config.call call) result w₂ → result.Succeeded →
      SuccessfulCalls config i w w₂
  | others {w₁ : TursoWorld I} {platform : Platform} :
      SuccessfulCalls config i w w₁ → w₁.platform.Grows platform →
      SuccessfulCalls config i w (w₁.setPlatform platform)

/-- Every known name is recorded in a managed database. -/
def KnownRecorded (config : ProvisionerConfig) (i : I) (w : TursoWorld I) : Prop :=
  ∀ n ∈ (w.caches i).knownNames, w.platform.Records config n

theorem Platform.Grows.records {platform platform' : Platform} (grows : platform.Grows platform')
    {n : String} (records : platform.Records config n) : platform'.Records config n := by
  obtain ⟨db, member, managed, recorded⟩ := records
  exact ⟨db, grows.databases member, managed, grows.keeps _ _ recorded⟩

theorem KnownRecorded.asked (known : KnownRecorded config i w) {found : Option DatabaseTarget}
    (managed : ∀ n, name = .named n →
      config.isManagedNamedDatabase (config.dbNameFor (.named n)) = true)
    (asked : Asked config i w name found w') : KnownRecorded config i w' := by
  cases asked with
  | cached _ => exact known
  | nothing grows => exact fun n member => grows.records (known n member)
  | @adopted platform db grows member named recorded =>
      intro n isKnown
      rw [TursoWorld.setCaches_self] at isKnown
      show platform.Records config n
      cases name with
      | default => exact grows.records (known n isKnown)
      | named logicalName =>
          rcases List.mem_append.mp (List.mem_dedup.mp isKnown) with old | new
          · exact grows.records (known n old)
          · obtain rfl := List.mem_singleton.mp new
            refine ⟨db, member, ?_, recorded n rfl⟩
            rw [named]
            exact managed n rfl

theorem KnownRecorded.called (known : KnownRecorded config i w) {call : TursoCall}
    {result : TursoResult} (managed : call.AsksManaged config)
    (run : Program.Runs (ServedTo i) w (config.call call) result w') (succeeded : result.Succeeded) :
    KnownRecorded config i w' := by
  cases call with
  | ensureTargetForName name =>
      obtain ⟨r, w₁, asking, finish⟩ := run.of_bind
      obtain ⟨_, rfl⟩ := Program.runs_ret.mp finish
      apply known.asked _ (runs_ensureTargetForName asking)
      rintro n rfl
      exact managed
  | targetForExistingName name =>
      obtain ⟨r, w₁, asking, finish⟩ := run.of_bind
      obtain ⟨_, rfl⟩ := Program.runs_ret.mp finish
      apply known.asked _ (runs_targetForExistingName asking)
      rintro n rfl
      exact managed
  | names =>
      obtain ⟨r, w₁, listing, finish⟩ := run.of_bind
      obtain ⟨rfl, rfl⟩ := Program.runs_ret.mp finish
      obtain ⟨cached, shortcut, listed⟩ := runs_names listing
      by_cases none : (w.caches i).knownNames = []
      · intro n member
        cases r with
        | error e => cases succeeded
        | ok names =>
            obtain ⟨isRecorded, isKnown⟩ := listed none names rfl n
            unfold Platform.Records
            rw [cached.platform]
            exact isRecorded.mp (isKnown.mp member)
      · obtain ⟨_, _, _, rfl⟩ := shortcut none
        exact known
  | namedTargets =>
      obtain ⟨r, w₁, listing, finish⟩ := run.of_bind
      obtain ⟨_, rfl⟩ := Program.runs_ret.mp finish
      obtain ⟨cached, same, _⟩ := runs_namedTargets listing
      intro n member
      rw [same] at member
      unfold Platform.Records
      rw [cached.platform]
      exact known n member
  | cleanup =>
      obtain ⟨r, w₁, cleaning, finish⟩ := run.of_bind
      obtain ⟨rfl, rfl⟩ := Program.runs_ret.mp finish
      cases r with
      | error e => cases succeeded
      | ok _ =>
          obtain ⟨_, none, _⟩ := (runs_cleanup cleaning).2 rfl
          intro n member
          rw [none] at member
          cases member

theorem SuccessfulCalls.knownRecorded {w₁ : TursoWorld I} (calls : SuccessfulCalls config i w w₁)
    (known : KnownRecorded config i w) : KnownRecorded config i w₁ := by
  induction calls with
  | start => exact known
  | call _ managed run succeeded ih => exact ih.called managed run succeeded
  | others _ grows ih => exact fun n member => grows.records (ih n member)

/-! ### What a platform on which nothing fails answers -/

theorem eval_cacheTargets (databases : List DatabaseInfo) (w : TursoWorld I) :
    ∃ w', (config.cacheTargets databases).eval (fun op w => TursoWorld.answer w i op) w =
      some ((), w') ∧ w'.platform = w.platform := by
  induction databases generalizing w with
  | nil => exact ⟨w, rfl, rfl⟩
  | cons db rest ih =>
      obtain ⟨w', evaluated, same⟩ := ih (w.setCaches i { w.caches i with
        cache := (db.name, config.makeTarget db.hostname) ::
          (w.caches i).cache.filter fun entry => entry.1 != db.name })
      refine ⟨w', ?_, same⟩
      rw [← evaluated]
      exact Program.eval_call rfl

theorem eval_loadNames {databases : List DatabaseInfo} {w : TursoWorld I}
    (recorded : ∀ db ∈ databases, ∃ n,
      w.platform.recordedName (config.makeTarget db.hostname) = some n) :
    ∃ names, (config.loadNames databases).eval (fun op w => TursoWorld.answer w i op) w =
      some (.ok names, w) := by
  induction databases with
  | nil => exact ⟨[], rfl⟩
  | cons db rest ih =>
      obtain ⟨name, found⟩ := recorded db (List.mem_cons_self ..)
      obtain ⟨names, evaluated⟩ := ih fun other member =>
        recorded other (List.mem_cons_of_mem _ member)
      have selected : (loadRecordedName (config.makeTarget db.hostname)).eval
          (fun op w => TursoWorld.answer w i op) w = some (.ok (some name), w) :=
        congrArg (fun found => some (Except.ok found, w)) found
      refine ⟨name :: names, ?_⟩
      rw [ProvisionerConfig.loadNames, Program.andThen, Program.eval_bind selected]
      show ((config.loadNames rest).bind _).eval _ w = _
      rw [Program.eval_bind evaluated]
      rfl

/-- Where every managed database records its name, `names` can succeed. -/
theorem names_succeeds {w : TursoWorld I}
    (recorded : ∀ db ∈ w.platform.databases, config.isManagedNamedDatabase db.name = true →
      ∃ n, w.platform.recordedName (config.makeTarget db.hostname) = some n) :
    ∃ names w', Program.Runs (ServedTo i) w config.names (.ok names) w' := by
  have evaluates : ∃ names w', config.names.eval (fun op w => TursoWorld.answer w i op) w =
      some (.ok names, w') := by
    by_cases anyKnown : (!(w.caches i).knownNames.isEmpty) = true
    · refine ⟨(w.caches i).knownNames, w, (Program.eval_call rfl).trans ?_⟩
      rw [Program.bind_ret, if_pos anyKnown]
      rfl
    · let managed := w.platform.databases.filter fun db => config.isManagedNamedDatabase db.name
      obtain ⟨w₁, caching, same⟩ : ∃ w₁, (config.cacheTargets managed).eval
          (fun op w => TursoWorld.answer w i op) w = some ((), w₁) ∧ w₁.platform = w.platform :=
        eval_cacheTargets managed w
      obtain ⟨names, loading⟩ : ∃ names, (config.loadNames managed).eval
          (fun op w => TursoWorld.answer w i op) w₁ = some (.ok names, w₁) := by
        apply eval_loadNames
        intro db member
        rw [same]
        exact recorded db (List.mem_filter.mp member).1 (List.mem_filter.mp member).2
      refine ⟨sortedSet names, w₁.setCaches i { w₁.caches i with
        knownNames := ((w₁.caches i).knownNames ++ sortedSet names).dedup }, ?_⟩
      refine (Program.eval_call rfl).trans ?_
      rw [Program.bind_ret, if_neg anyKnown]
      refine (Program.eval_call rfl).trans ?_
      refine (Program.eval_bind caching).trans ?_
      exact Program.eval_bind loading
  obtain ⟨names, w', evaluated⟩ := evaluates
  exact ⟨names, w', (Program.runs_iff_eval.mpr evaluated).mono
    fun _ _ _ _ => TursoWorld.answer_serves⟩

/-- After any successful calls of a process that started with empty caches, and whatever
databases other processes created meanwhile, `names` returns exactly the recorded names
when the process knows no name yet, or knows all of them. -/
theorem names_complete_iff (config : ProvisionerConfig) (i : I) {w w₁ : TursoWorld I}
    (fresh : w.caches i = {}) (calls : SuccessfulCalls config i w w₁)
    (recorded : ∀ db ∈ w₁.platform.databases, config.isManagedNamedDatabase db.name = true →
      ∃ n, w₁.platform.recordedName (config.makeTarget db.hostname) = some n) :
    ((∃ names w₂, Program.Runs (ServedTo i) w₁ config.names (.ok names) w₂) ∧
      ∀ names w₂, Program.Runs (ServedTo i) w₁ config.names (.ok names) w₂ →
        ∀ n, n ∈ names ↔ w₁.platform.Records config n) ↔
      (w₁.caches i).knownNames = [] ∨
        ∀ n, w₁.platform.Records config n → n ∈ (w₁.caches i).knownNames := by
  have known : KnownRecorded config i w₁ := by
    apply calls.knownRecorded
    intro n member
    rw [fresh] at member
    cases member
  constructor
  · rintro ⟨⟨names, w₂, run⟩, complete⟩
    by_cases none : (w₁.caches i).knownNames = []
    · exact .inl none
    · right
      intro n records
      obtain ⟨returned, same, perm, _⟩ := (runs_names run).shortcut none
      cases same
      exact perm.mem_iff.mp ((complete names w₂ run n).mpr records)
  · intro condition
    refine ⟨names_succeeds recorded, ?_⟩
    intro names w₂ run n
    by_cases none : (w₁.caches i).knownNames = []
    · exact ((runs_names run).listed none names rfl n).1
    · obtain ⟨returned, same, perm, _⟩ := (runs_names run).shortcut none
      cases same
      rw [perm.mem_iff]
      constructor
      · exact known n
      · intro records
        rcases condition with empty | all
        · exact absurd empty none
        · exact all n records

/-! ### A database that another process created -/

section Elsewhere

/-- A process that has called nothing yet, where another has created "orders". -/
def knownWorld : TursoWorld Unit where
  platform := ⟨[ordersDatabase], fun url =>
    if url = urlOf ordersDatabase.hostname then some "orders" else none⟩
  caches _ := {}

/-- The names of the databases with the logical names they record. -/
def recordedNames (platform : Platform) : List (String × Option String) :=
  platform.databases.map fun db => (db.name, platform.recordedName (shopConfig.makeTarget db.hostname))

theorem mem_recordedNames {platform : Platform} {db : DatabaseInfo} (inside : db ∈ platform.databases) :
    (db.name, platform.recordedName (shopConfig.makeTarget db.hostname)) ∈ recordedNames platform :=
  List.mem_map_of_mem inside

/-- Every database records a name, where all the names that are listed are there. -/
theorem recorded_of_all {platform : Platform}
    (all : (recordedNames platform).all (fun entry => entry.2.isSome) = true) :
    ∀ db ∈ platform.databases, shopConfig.isManagedNamedDatabase db.name = true →
      ∃ n, platform.recordedName (shopConfig.makeTarget db.hostname) = some n :=
  fun _ inside _ => Option.isSome_iff_exists.mp (List.all_eq_true.mp all _ (mem_recordedNames inside))

theorem evaluated_served {α : Type} {p : Program TursoOp TursoOp.Res α} {w w' : TursoWorld Unit}
    {a : α} (evaluated : p.eval (fun op w => TursoWorld.answer w () op) w = some (a, w')) :
    Program.Runs (ServedTo ()) w p a w' :=
  (Program.runs_iff_eval.mpr evaluated).mono fun _ _ _ _ => TursoWorld.answer_serves

/-- One call for a managed name that succeeded. -/
theorem successful_ensure (name : String) {asked : Except BackendError DatabaseTarget}
    {w₁ : TursoWorld Unit}
    (managed : shopConfig.isManagedNamedDatabase (shopConfig.dbNameFor (.named name)) = true)
    (ensured : (shopConfig.ensureTargetForName (.named name)).eval
      (fun op w => TursoWorld.answer w () op) knownWorld = some (asked, w₁))
    (isOk : asked.toOption.isSome = true) : SuccessfulCalls shopConfig () knownWorld w₁ := by
  have asking : Program.Runs (ServedTo ()) knownWorld
      (shopConfig.call (.ensureTargetForName (.named name))) (.ensured asked) w₁ :=
    evaluated_served ((Program.eval_bind ensured).trans rfl)
  have owned : (TursoCall.ensureTargetForName (.named name)).AsksManaged shopConfig := managed
  exact .call .start owned asking isOk

theorem shop_owns_orders : shopConfig.isManagedNamedDatabase ordersDatabase.name = true := by
  decide +kernel

theorem shop_owns_billing : shopConfig.isManagedNamedDatabase billingDatabase.name = true := by
  decide +kernel

/-- After it has opened "orders" itself, the process knows all the names there are. -/
theorem orders_name_found : ∃ w₁ names w₂, SuccessfulCalls shopConfig () knownWorld w₁ ∧
    (w₁.caches ()).knownNames = ["orders"] ∧
    Program.Runs (ServedTo ()) w₁ shopConfig.names (.ok names) w₂ ∧
      ∀ n, n ∈ names ↔ w₁.platform.Records shopConfig n := by
  have evaluates : ((shopConfig.ensureTargetForName (.named "orders")).eval
      (fun op w => TursoWorld.answer w () op) knownWorld).map (fun first =>
        (first.1.toOption.isSome, (first.2.caches ()).knownNames, recordedNames first.2.platform)) =
      some (true, ["orders"], [(ordersDatabase.name, some "orders")]) := by
    decide +kernel
  obtain ⟨⟨asked, w₁⟩, ensured, found⟩ := Option.map_eq_some_iff.mp evaluates
  obtain ⟨isOk, found⟩ := Prod.mk.inj found
  obtain ⟨known, names⟩ := Prod.mk.inj found
  have calls : SuccessfulCalls shopConfig () knownWorld w₁ :=
    successful_ensure "orders" shop_owns_orders ensured isOk
  have allKnown : ∀ n, w₁.platform.Records shopConfig n → n ∈ (w₁.caches ()).knownNames := by
    rintro n ⟨db, inside, _, recorded⟩
    have member := mem_recordedNames inside
    rw [names, List.mem_singleton, recorded] at member
    rw [known, List.mem_singleton]
    exact Option.some.inj (Prod.mk.inj member).2
  obtain ⟨⟨listed, w₂, run⟩, complete⟩ := (names_complete_iff shopConfig () rfl calls
    (recorded_of_all (by rw [names]; rfl))).mpr (.inr allKnown)
  exact ⟨w₁, listed, w₂, calls, known, run, complete listed w₂ run⟩

/-- After it has opened "billing", the process answers from what it knows. -/
theorem orders_name_missed : ¬ ∀ (config : ProvisionerConfig) (w w₁ w₂ : TursoWorld Unit)
    (names : List String), w.caches () = {} → SuccessfulCalls config () w w₁ →
      (∀ db ∈ w₁.platform.databases, config.isManagedNamedDatabase db.name = true →
        ∃ n, w₁.platform.recordedName (config.makeTarget db.hostname) = some n) →
      Program.Runs (ServedTo ()) w₁ config.names (.ok names) w₂ →
        ∀ n, n ∈ names ↔ w₁.platform.Records config n := by
  intro complete
  have evaluates : ((shopConfig.ensureTargetForName (.named "billing")).eval
      (fun op w => TursoWorld.answer w () op) knownWorld).bind (fun first =>
        (shopConfig.names.eval (fun op w => TursoWorld.answer w () op) first.2).map fun second =>
          (first.1.toOption.isSome, second.1.toOption, recordedNames first.2.platform)) =
      some (true, some ["billing"],
        [(ordersDatabase.name, some "orders"), (billingDatabase.name, some "billing")]) := by
    decide +kernel
  obtain ⟨⟨asked, w₁⟩, ensured, rest⟩ := Option.bind_eq_some_iff.mp evaluates
  obtain ⟨⟨listed, w₂⟩, listing, found⟩ := Option.map_eq_some_iff.mp rest
  obtain ⟨isOk, found⟩ := Prod.mk.inj found
  obtain ⟨isListed, names⟩ := Prod.mk.inj found
  have calls : SuccessfulCalls shopConfig () knownWorld w₁ :=
    successful_ensure "billing" shop_owns_billing ensured isOk
  cases listed with
  | error e => cases isListed
  | ok listed =>
      obtain rfl := Option.some.inj isListed
      have hasDatabase : (ordersDatabase.name, some "orders") ∈ recordedNames w₁.platform := by
        rw [names]
        exact List.mem_cons_self ..
      obtain ⟨db, inside, same⟩ := List.mem_map.mp hasDatabase
      have records : w₁.platform.Records shopConfig "orders" := by
        refine ⟨db, inside, ?_, (Prod.mk.inj same).2⟩
        rw [(Prod.mk.inj same).1]
        exact shop_owns_orders
      have missed := (complete shopConfig knownWorld w₁ w₂ ["billing"] rfl calls
        (recorded_of_all (by rw [names]; rfl)) (evaluated_served listing) "orders").mpr records
      revert missed
      decide

end Elsewhere
end WeeEvents.Turso
