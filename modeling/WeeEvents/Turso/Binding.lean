import WeeEvents.Turso.Discipline

/-!
# Targets and their logical names

A cache hit skips the check of the recorded name, and two of the four operations
fill the cache without it. Where what they list is recorded as it will be asked
for, and no two names share a database, every target handed out for a name
records that name.
-/
namespace WeeEvents.Turso
open Foundation Sqlite

/-- No two of the requested partition names share a database name. -/
def ProvisionerConfig.Unambiguous (config : ProvisionerConfig)
    (requested : PartitionName → Prop) : Prop :=
  ∀ x y, requested x → requested y → config.dbNameFor x = config.dbNameFor y → x = y

/-- The calls that ask for requested names only and clean nothing up. -/
def AsksRequested {I : Type} (requested : I → PartitionName → Prop) : I × TursoCall → Prop
  | (i, .ensureTargetForName name) => requested i name
  | (i, .targetForExistingName name) => requested i name
  | (_, .names) => True
  | (_, .namedTargets) => True
  | (_, .cleanup) => False

section Binding

variable {I : Type} {config : I → ProvisionerConfig} {requested : I → PartitionName → Prop}

/-- If the database name is that of a requested name, the target records it. -/
def Verified (config : I → ProvisionerConfig) (requested : I → PartitionName → Prop)
    (platform : Platform) (i : I) (dbName : String) (target : DatabaseTarget) : Prop :=
  ∀ logicalName, requested i (.named logicalName) →
    (config i).dbNameFor (.named logicalName) = dbName →
    platform.recordedName target = some logicalName

/-- What `names` and `named_targets` list is recorded as it is asked for. -/
def ListedAsRecorded (config : I → ProvisionerConfig) (requested : I → PartitionName → Prop)
    (w : TursoWorld I) : Event TursoOp TursoOp.Res (I × TursoCall) TursoResult → Prop
  | .performed _ (i, call) (.listDatabases _) (.ok databases) =>
      (call = .names ∨ call = .namedTargets) → ∀ db ∈ databases,
        (config i).isManagedNamedDatabase db.name = true →
          Verified config requested w.platform i db.name ((config i).makeTarget db.hostname)
  | _ => True

theorem Verified.keep {platform platform' : Platform} (keeps : platform.Keeps platform') {i : I}
    {dbName : String} {target : DatabaseTarget}
    (h : Verified config requested platform i dbName target) :
    Verified config requested platform' i dbName target :=
  fun logicalName asked same => keeps target logicalName (h logicalName asked same)

/-- Every cached target is verified, and so is every target handed out for a name. -/
structure Bound (config : I → ProvisionerConfig) (requested : I → PartitionName → Prop)
    (w : TursoWorld I) (trace : List (Event TursoOp TursoOp.Res (I × TursoCall) TursoResult)) :
    Prop where
  cached : ∀ i, ∀ entry ∈ (w.caches i).cache,
    Verified config requested w.platform i entry.1 entry.2
  ensured : ∀ c i logicalName target,
    .returned c (i, .ensureTargetForName (.named logicalName)) (.ensured (.ok target)) ∈ trace →
      w.platform.recordedName target = some logicalName
  existing : ∀ c i logicalName target,
    .returned c (i, .targetForExistingName (.named logicalName)) (.existing (.ok (some target))) ∈
      trace → w.platform.recordedName target = some logicalName

/-- What a call knows is true of the world. -/
structure Knowledge.Holds (k : Knowledge) (config : I → ProvisionerConfig)
    (requested : I → PartitionName → Prop) (call : I × TursoCall) (platform : Platform) : Prop where
  isConfig : k.config = config call.1
  isCall : k.call = call.2
  asks : AsksRequested requested call
  hits : ∀ entry ∈ k.hits, Verified config requested platform call.1 entry.1 entry.2
  opened : ∀ entry ∈ k.opened, entry.2 = entry.1
  recorded : ∀ entry ∈ k.recorded, platform.recordedName entry.1 = some entry.2
  listed : call.2 = .names ∨ call.2 = .namedTargets → ∀ db ∈ k.listed,
    (config call.1).isManagedNamedDatabase db.name = true →
      Verified config requested platform call.1 db.name ((config call.1).makeTarget db.hostname)

variable {k : Knowledge} {call : I × TursoCall} {platform platform' : Platform}

theorem Knowledge.Holds.keep (h : k.Holds config requested call platform)
    (keeps : platform.Keeps platform') : k.Holds config requested call platform' where
  isConfig := h.isConfig
  isCall := h.isCall
  asks := h.asks
  hits entry member := (h.hits entry member).keep keeps
  opened := h.opened
  recorded entry member := keeps _ _ (h.recorded entry member)
  listed lists db member managed := (h.listed lists db member managed).keep keeps

theorem Knowledge.Holds.read (h : k.Holds config requested call platform) {target : DatabaseTarget}
    {logicalName : String} (read : k.Read target logicalName) :
    platform.recordedName target = some logicalName := by
  obtain ⟨conn, opened, recorded⟩ := read
  have same : conn = target := h.opened _ opened
  rw [← same]
  exact h.recorded _ recorded

/-- What a call may cache is verified. -/
theorem Knowledge.Holds.mayCache (h : k.Holds config requested call platform)
    (unambiguous : ∀ i, (config i).Unambiguous (requested i)) {dbName : String}
    {target : DatabaseTarget} (may : k.MayCache dbName target) :
    Verified config requested platform call.1 dbName target := by
  obtain ⟨i, command⟩ := call
  rcases may with ⟨name, asks, rfl, read⟩ | ⟨lists, db, ⟨listed, managed⟩, rfl, rfl⟩
  · have isRequested : requested i name := by
      have fromRequested := h.asks
      rcases asks with ensure | existing
      · have isCommand : command = .ensureTargetForName name := h.isCall.symm.trans ensure
        subst isCommand
        exact fromRequested
      · have isCommand : command = .targetForExistingName name := h.isCall.symm.trans existing
        subst isCommand
        exact fromRequested
    intro logicalName asked same
    rw [h.isConfig] at same
    have named : PartitionName.named logicalName = name :=
      unambiguous i _ _ asked isRequested same
    exact h.read (read logicalName named.symm)
  · rw [h.isConfig] at managed ⊢
    rw [h.isCall] at lists
    exact h.listed lists db listed managed

/-- A target bound to a name records the name. -/
theorem Knowledge.Holds.bound (h : k.Holds config requested call platform) {logicalName : String}
    {target : DatabaseTarget} (asked : requested call.1 (.named logicalName))
    (bound : k.Bound (.named logicalName) target) :
    platform.recordedName target = some logicalName := by
  rcases bound with hit | read
  · refine h.hits _ hit logicalName asked ?_
    rw [h.isConfig]
  · exact h.read (read logicalName rfl)

variable [DecidableEq I]

/-- What an operation answers is true of the world it answered in. -/
theorem Knowledge.Holds.learn {w w' : TursoWorld I} {c : Nat} {op : TursoOp} {r : op.Res}
    (h : k.Holds config requested call w'.platform)
    (cached : ∀ entry ∈ (w.caches call.1).cache,
      Verified config requested w'.platform call.1 entry.1 entry.2)
    (listed : ListedAsRecorded config requested w (.performed c call op r))
    (served : w.Serves call.1 op r w') :
    (tursoDiscipline.learn k op r).Holds config requested call w'.platform := by
  unfold tursoDiscipline
  dsimp only
  split
  · next dbName target =>
      obtain ⟨found, _⟩ := served
      obtain ⟨before, after, split, _⟩ := List.lookup_eq_some_iff.mp found.symm
      have inside : (dbName, target) ∈ (w.caches call.1).cache := by
        rw [split]
        exact List.mem_append_right _ (List.mem_cons_self ..)
      refine { h with hits := fun entry member => ?_ }
      rcases List.mem_cons.mp member with rfl | old
      · exact cached _ inside
      · exact h.hits entry old
  · next target conn =>
      refine { h with opened := fun entry member => ?_ }
      rcases List.mem_cons.mp member with rfl | old
      · exact served.2 conn rfl
      · exact h.opened entry old
  · next conn name =>
      refine { h with recorded := fun entry member => ?_ }
      rcases List.mem_cons.mp member with rfl | old
      · obtain ⟨same, found⟩ := served
        rw [same]
        exact (found _ rfl).symm
      · exact h.recorded entry old
  · next group databases =>
      obtain ⟨same, _⟩ := served
      refine { h with listed := fun lists db member managed => ?_ }
      rcases List.mem_append.mp member with new | old
      · rw [same]
        exact listed lists db new managed
      · exact h.listed lists db old managed
  · exact { h with }
  · exact { h with }
  · exact h

/-- Targets stay bound to their names as the calls of the provisioners interleave. -/
def bindingRule (config : I → ProvisionerConfig) (requested : I → PartitionName → Prop)
    (unambiguous : ∀ i, (config i).Unambiguous (requested i)) :
    Pool.Rule (S := provisioners config (AsksRequested requested)) (G := Unit) tursoDiscipline
      (ListedAsRecorded config requested) where
  inv _ w trace := Bound config requested w trace
  holds _ _ call k w _ := k.Holds config requested call w.platform
  start call := { config := config call.1, call := call.2 }
  done _ := resultRests
  obeys call := obeys_call (config call.1) call.2
  invoke {g w trace c call} h _ may _ := by
    refine ⟨(), ⟨h.cached, ?_, ?_⟩, ⟨rfl, rfl, may, ?_, ?_, ?_, ?_⟩, fun _ _ _ _ known => known⟩
    · intro c' i logicalName target returned
      exact h.ensured c' i logicalName target (by simpa using returned)
    · intro c' i logicalName target returned
      exact h.existing c' i logicalName target (by simpa using returned)
    all_goals intros; contradiction
  perform {g w trace c call k op r w'} h _ known may listed served := by
    have noDeletion : ∀ dbName, op ≠ .deleteDatabase dbName := by
      rintro dbName rfl
      have cleans : call.2 = .cleanup := known.isCall.symm.trans may.1
      have asks := known.asks
      rw [show call = (call.1, .cleanup) from Prod.ext rfl cleans] at asks
      exact asks
    have effect := served.effect
    have keeps := effect.keeps noDeletion
    have kept := known.keep keeps
    have cached : ∀ i, ∀ entry ∈ (w.caches i).cache,
        Verified config requested w'.platform i entry.1 entry.2 :=
      fun i entry member => (h.cached i entry member).keep keeps
    refine ⟨(), ⟨?_, ?_, ?_⟩, kept.learn (cached call.1) listed served,
      fun _ _ _ _ other => other.keep keeps⟩
    · intro j entry member
      rcases effect.cached member with old | ⟨rfl, rfl⟩
      · exact cached j entry old
      · exact kept.mayCache unambiguous may
    · intro c' i logicalName target returned
      exact keeps _ _ (h.ensured c' i logicalName target (by simpa using returned))
    · intro c' i logicalName target returned
      exact keeps _ _ (h.existing c' i logicalName target (by simpa using returned))
  finish {g w trace c call k result} h _ known ended _ := by
    refine ⟨(), ⟨h.cached, ?_, ?_⟩, fun _ _ _ _ other => other⟩
    · intro c' i logicalName target returned
      rcases List.mem_append.mp returned with old | new
      · exact h.ensured c' i logicalName target old
      · cases List.mem_singleton.mp new
        obtain ⟨name, isCall, bound⟩ := ended
        cases known.isCall.symm.trans isCall
        exact known.bound known.asks bound
    · intro c' i logicalName target returned
      rcases List.mem_append.mp returned with old | new
      · exact h.existing c' i logicalName target old
      · cases List.mem_singleton.mp new
        obtain ⟨name, isCall, bound⟩ := ended
        cases known.isCall.symm.trans isCall
        exact known.bound known.asks bound

/-- If no two requested partition names share a database name, and whatever `names`
and `named_targets` list is recorded as it is asked for, then in every run a target
handed out for a name records exactly that name. -/
theorem targets_bound_to_their_names (config : I → ProvisionerConfig)
    (requested : I → PartitionName → Prop)
    (unambiguous : ∀ i, (config i).Unambiguous (requested i)) (platform : Platform)
    (p : Pool (provisioners config (AsksRequested requested)))
    (reach : Pool.ReachableBy (ListedAsRecorded config requested) (TursoWorld.start platform) p)
    (c : Nat) (i : I) (logicalName : String) (target : DatabaseTarget) :
    (.returned c (i, .ensureTargetForName (.named logicalName)) (.ensured (.ok target)) ∈ p.trace →
      p.shared.platform.recordedName target = some logicalName) ∧
    (.returned c (i, .targetForExistingName (.named logicalName)) (.existing (.ok (some target))) ∈
      p.trace → p.shared.platform.recordedName target = some logicalName) := by
  have init : (bindingRule config requested unambiguous).inv () (TursoWorld.start platform) [] := by
    refine ⟨fun i entry member => (by cases member), ?_, ?_⟩
    all_goals
      intro c i logicalName target returned
      cases returned
  obtain ⟨_, bound, _⟩ := (bindingRule config requested unambiguous).sound init reach
  exact ⟨bound.ensured c i logicalName target, bound.existing c i logicalName target⟩

end Binding
/-! ### One provisioner that lists before it asks -/

section Listed

def ordersConfig : ProvisionerConfig := ⟨"default", "myapp", "token"⟩

def ensureOrders : Unit × TursoCall := ((), .ensureTargetForName (.named "orders"))

/-- The database that the name `orders` maps to, recorded under another name. -/
def ordersPlatform : Platform where
  databases := [⟨"orders.turso.io", ordersConfig.dbNameFor (.named "orders")⟩]
  recorded url := if url = urlOf "orders.turso.io" then some "billing" else none

def TursoResult.ensured? : TursoResult → Option DatabaseTarget
  | .ensured (.ok target) => some target
  | _ => none

theorem TursoResult.ensured?_eq_some {result : TursoResult} {target : DatabaseTarget}
    (h : result.ensured? = some target) : result = .ensured (.ok target) := by
  unfold ensured? at h
  split at h
  · rw [Option.some.inj h]
  · cases h

/-- The target of the last call and the name its database records at the end. -/
def lastBinding (handle : Nat → Unit × TursoCall → (op : TursoOp) → TursoWorld Unit →
      Option (op.Res × TursoWorld Unit)) (mayInvoke : Unit × TursoCall → Prop)
    (calls : List (Unit × TursoCall)) (platform : Platform) :
    Option (DatabaseTarget × Option String) :=
  (Pool.runInOrder (S := provisioners (fun _ => ordersConfig) mayInvoke) handle 0 calls
    (TursoWorld.start platform)).bind fun run =>
      (run.1[1]?.bind TursoResult.ensured?).map fun target =>
        (target, run.2.platform.recordedName target)

/-- The database that the name `orders` maps to, recorded under that name. -/
def agreeingPlatform : Platform where
  databases := ordersPlatform.databases
  recorded url := if url = urlOf "orders.turso.io" then some "orders" else none

/-- A database listed under the database name of `orders` records `orders`. -/
def ordersRecorded (platform : Platform) (db : DatabaseInfo) : Bool :=
  decide (ordersConfig.dbNameFor (.named "orders") = db.name →
    platform.recordedName (ordersConfig.makeTarget db.hostname) = some "orders")

/-- Lists nothing unless it is recorded as it is asked for. -/
def answerRecorded (_c : Nat) (call : Unit × TursoCall) (op : TursoOp) (w : TursoWorld Unit) :
    Option (op.Res × TursoWorld Unit) :=
  match op with
  | .listDatabases group =>
      if w.platform.databases.all (ordersRecorded w.platform) then w.answer call.1 (.listDatabases group)
      else none
  | op => w.answer call.1 op

theorem answerRecorded_permitted (c : Nat) (call : Unit × TursoCall) (w : TursoWorld Unit)
    (op : TursoOp) (r : op.Res) (w' : TursoWorld Unit) (h : answerRecorded c call op w = some (r, w')) :
    Pool.PermittedStep (S := provisioners (fun _ : Unit => ordersConfig)
      (AsksRequested fun _ x => x = .named "orders"))
      (ListedAsRecorded (fun _ => ordersConfig) fun _ x => x = .named "orders") c call w op r w' := by
  cases op with
  | listDatabases group =>
      simp only [answerRecorded] at h
      split at h
      · next recorded =>
          refine ⟨TursoWorld.answer_serves h, ?_⟩
          cases h
          intro _ db member _ logicalName asked same
          obtain rfl := PartitionName.named.inj asked
          exact of_decide_eq_true (List.all_eq_true.mp recorded db member) same
      · cases h
  | _ =>
      simp only [answerRecorded] at h
      exact ⟨TursoWorld.answer_serves h, trivial⟩

/-- A target that a listing cached, handed out for `orders`. -/
theorem orders_bound_to_orders : ∃ target,
    ∃ p : Pool (provisioners (fun _ : Unit => ordersConfig)
      (AsksRequested fun _ x => x = .named "orders")),
      .returned 1 ensureOrders (.ensured (.ok target)) ∈ p.trace ∧
        p.shared.platform.recordedName target = some "orders" := by
  have binding : (lastBinding answerRecorded (AsksRequested fun _ x => x = .named "orders")
      [((), .namedTargets), ensureOrders] agreeingPlatform).isSome = true := by decide +kernel
  obtain ⟨_, isSome⟩ := Option.isSome_iff_exists.mp binding
  obtain ⟨⟨results, w'⟩, run, second⟩ := Option.bind_eq_some_iff.mp isSome
  obtain ⟨target, found, _⟩ := Option.map_eq_some_iff.mp second
  obtain ⟨result, isSecond, ensured⟩ := Option.bind_eq_some_iff.mp found
  obtain ⟨p, reach, _, returned⟩ := provisioners_inOrder (fun _ _ _ => ⟨trivial, fun _ => trivial⟩)
    answerRecorded_permitted
    (by
      intro call member
      rw [List.mem_pair] at member
      rcases member with rfl | rfl
      · trivial
      · exact rfl)
    run
  have last := returned 1 _ result rfl isSecond
  rw [TursoResult.ensured?_eq_some ensured] at last
  have alone : ∀ _ : Unit, ordersConfig.Unambiguous fun x => x = .named "orders" :=
    fun _ x y isX isY _ => isX.trans isY.symm
  exact ⟨target, p, last, (targets_bound_to_their_names (fun _ => ordersConfig) _ alone _ p reach 1 ()
    "orders" target).1 last⟩

/-- Listing the targets caches the database of `orders`; asking for `orders` then
hands it out although it is recorded as `billing`. -/
theorem billing_handed_out_for_orders : ∃ target,
    ∃ p : Pool (provisioners (fun _ : Unit => ordersConfig) (AsksRequested fun _ _ => True)),
      Pool.Reachable (TursoWorld.start ordersPlatform) p ∧
        .returned 1 ensureOrders (.ensured (.ok target)) ∈ p.trace ∧
          p.shared.platform.recordedName target = some "billing" := by
  have binding : lastBinding (fun _ call op w => w.answer call.1 op) (AsksRequested fun _ _ => True)
      [((), .namedTargets), ensureOrders] ordersPlatform =
        some (ordersConfig.makeTarget "orders.turso.io", some "billing") := by decide +kernel
  obtain ⟨⟨results, w'⟩, run, second⟩ := Option.bind_eq_some_iff.mp binding
  obtain ⟨target, found, same⟩ := Option.map_eq_some_iff.mp second
  obtain ⟨result, isSecond, ensured⟩ := Option.bind_eq_some_iff.mp found
  obtain ⟨_, recorded⟩ := Prod.mk.inj same
  have served : ∀ c call w op r w', TursoWorld.answer w call.1 op = some (r, w') →
      Pool.PermittedStep (S := provisioners (fun _ : Unit => ordersConfig)
        (AsksRequested fun _ _ => True)) (fun _ _ => True) c call w op r w' :=
    fun c call w op r w' h => ⟨TursoWorld.answer_serves h, trivial⟩
  obtain ⟨p, reach, shared, returned⟩ := provisioners_inOrder
    (fun _ _ _ => ⟨trivial, fun _ => trivial⟩) served
    (by
      intro call member
      rw [List.mem_pair] at member
      rcases member with rfl | rfl <;> trivial)
    run
  have last := returned 1 _ result rfl isSecond
  rw [TursoResult.ensured?_eq_some ensured] at last
  refine ⟨target, p, reach, last, ?_⟩
  rw [shared]
  exact recorded

end Listed
end WeeEvents.Turso
