import WeeEvents.Id

/-!
# The two ends of the Restate wire

What the full form of `service!` registers with Restate, and the URL paths its
client posts to, both from one declaration; the ingress between them routes
`/{service}/{key}/{handler}`.
-/
namespace WeeEvents.Restate

structure CommandName where
  text : String
  deriving DecidableEq, Repr

/-- `char::is_uppercase` and `char::is_lowercase`. -/
class CharCase where
  isUppercase : Char → Bool
  isLowercase : Char → Bool

/-- The loop of `to_snake_case`, on whether the last character was a lowercase one or a digit. -/
def snakeCaseFrom [CharCase] (prevLower : Bool) : List Char → List Char
  | [] => []
  | ch :: rest =>
      if CharCase.isUppercase ch then
        (if prevLower then ['_'] else []) ++ ch.toLower :: snakeCaseFrom false rest
      else ch :: snakeCaseFrom (CharCase.isLowercase ch || ch.isDigit) rest

def toSnakeCase [CharCase] (s : String) : String := String.ofList (snakeCaseFrom false s.toList)

/-! ### The declaration -/

/-- `<fn_path>`, optionally with `as "wire_name"`, and the `NAME` of the command it handles. -/
structure HandlerEntry where
  fnIdent : String
  wireName : Option String := none
  commandName : CommandName

/-- What `service!` parses of a full declaration, less the types and functions. -/
structure FullServiceInput where
  name : String
  logicalName : Option String := none
  loaderWireName : Option String := none
  handlerEntries : List HandlerEntry

/-- `SERVICE_NAME`, also the name of the virtual object. -/
def FullServiceInput.serviceName [CharCase] (service : FullServiceInput) : String :=
  service.logicalName.getD (toSnakeCase service.name)

def FullServiceInput.effectiveLoaderName (service : FullServiceInput) : String :=
  service.loaderWireName.getD "load"

def HandlerEntry.effectiveWireName [CharCase] (entry : HandlerEntry) : String :=
  entry.wireName.getD (toSnakeCase entry.fnIdent)

/-- The generated virtual object: its name, its loader and the handler of each command. -/
structure Binder where
  name : String
  loaderMethod : String
  methods : List (String × CommandName)
  deriving DecidableEq, Repr

/-- The collision check, on the wire names seen so far. -/
def checkCollisions (loader : String) : List String → List (String × String) → Except String Unit
  | _, [] => .ok ()
  | seen, (fnIdent, wire) :: rest =>
      if wire ∈ seen then
        .error ("wire name `" ++ wire ++ "` collides with another handler or with the reserved " ++
          "loader name `" ++ loader ++ "`. Use `" ++ fnIdent ++
          " as \"…\"` to pick a different wire name.")
      else checkCollisions loader (wire :: seen) rest

def generateFull [CharCase] (service : FullServiceInput) : Except String Binder :=
  let loader := service.effectiveLoaderName
  let entries := service.handlerEntries.map fun entry => (entry.fnIdent, entry.effectiveWireName)
  match checkCollisions loader [loader] entries with
  | .error e => .error e
  | .ok () => .ok
      { name := service.serviceName
        loaderMethod := loader
        methods := service.handlerEntries.map fun entry =>
          (entry.effectiveWireName, entry.commandName) }

/-! ### The client -/

def executorName (base : String) : String := base ++ "-side-effect-executor"

def loaderName (base : String) : String := base ++ "-side-effect-loader"

def encodeKey (target : AggregateId) : String :=
  target.aggregateType.text ++ ":" ++ target.aggregateKey

/-- With the text `nanoid!()` answers. -/
def generateCorrelationId (target : AggregateId) (commandName : CommandName) (nanoid : String) :
    String :=
  encodeKey target ++ "-" ++ commandName.text ++ "-" ++ nanoid

/-- A call of `RestateClient` for some aggregate. -/
inductive ClientCall where
  | load
  | execute (command : CommandName) (nanoid : String)
  | executeIdempotent (command : CommandName) (idempotencyKey : String)

/-- What the client posts to, after the ingress URL. -/
def ClientCall.path (serviceName : String) (id : AggregateId) : ClientCall → String
  | load => "/" ++ loaderName serviceName ++ "/load"
  | execute command nanoid =>
      "/" ++ executorName serviceName ++ "/" ++ generateCorrelationId id command nanoid ++ "/run"
  | executeIdempotent _ idempotencyKey =>
      "/" ++ executorName serviceName ++ "/" ++ idempotencyKey ++ "/run"

/-- The loader, or a command the declaration lists. -/
def FullServiceInput.Declares (service : FullServiceInput) : ClientCall → Prop
  | .load => True
  | .execute command _ => command ∈ service.handlerEntries.map HandlerEntry.commandName
  | .executeIdempotent command _ => command ∈ service.handlerEntries.map HandlerEntry.commandName

/-! ### The ingress -/

structure Route where
  service : String
  key : String
  handler : String
  deriving DecidableEq, Repr

/-- `/{service}/{key}/{handler}`, split at each slash. -/
def route (path : String) : Option Route :=
  match splitOnce path '/' with
  | some ("", rest) =>
      match splitOnce rest '/' with
      | some (service, rest) =>
          match splitOnce rest '/' with
          | some (key, handler) =>
              if '/' ∈ handler.toList then none else some ⟨service, key, handler⟩
          | none => none
      | none => none
  | _ => none

/-- The handler the binding registers for the command of a call, or for the loader. -/
def Binder.Registers (binder : Binder) (handler : String) : ClientCall → Prop
  | .load => handler = binder.loaderMethod
  | .execute command _ => (handler, command) ∈ binder.methods
  | .executeIdempotent command _ => (handler, command) ∈ binder.methods

/-- The path names the virtual object and the handler, and its key is read back as the aggregate. -/
def Binder.ReachedBy (binder : Binder) (path : String) (call : ClientCall) (id : AggregateId) : Prop :=
  ∃ r, route path = some r ∧ r.service = binder.name ∧ binder.Registers r.handler call ∧
    AggregateId.fromStr r.key = .ok id

/-! ### What the paths name -/

theorem splitOnce_before {s before after : String} {separator : Char}
    (cut : splitOnce s separator = some (before, after)) : separator ∉ before.toList := by
  unfold splitOnce at cut
  split at cut
  · cases cut
  · cases cut
    intro member
    rw [String.toList_ofList] at member
    have kept := List.mem_takeWhile_imp member
    simp at kept

theorem splitOnce_slash {before : String} (absent : '/' ∉ before.toList) (after : String) :
    splitOnce (before ++ "/" ++ after) '/' = some (before, after) := by
  have slash : "/" = String.singleton '/' := by decide
  rw [slash]
  exact splitOnce_append absent

/-- A path splits after its leading slash. -/
theorem splitOnce_path (rest : String) : splitOnce ("/" ++ rest) '/' = some ("", rest) := by
  have cut := @splitOnce_slash "" (by decide) rest
  rwa [String.empty_append] at cut

theorem route_append {service key handler : String} (service_plain : '/' ∉ service.toList)
    (key_plain : '/' ∉ key.toList) (handler_plain : '/' ∉ handler.toList) :
    route ("/" ++ service ++ "/" ++ key ++ "/" ++ handler) = some ⟨service, key, handler⟩ := by
  have outer : splitOnce ("/" ++ service ++ "/" ++ key ++ "/" ++ handler) '/' =
      some ("", service ++ "/" ++ key ++ "/" ++ handler) := by
    have cut := splitOnce_path (service ++ "/" ++ key ++ "/" ++ handler)
    simpa only [String.append_assoc] using cut
  have middle : splitOnce (service ++ "/" ++ key ++ "/" ++ handler) '/' =
      some (service, key ++ "/" ++ handler) := by
    have cut := splitOnce_slash service_plain (key ++ "/" ++ handler)
    simpa only [String.append_assoc] using cut
  have inner := splitOnce_slash key_plain handler
  simp only [route, outer, middle, inner, handler_plain, if_false]

/-- A path of the form the ingress routes reaches the binding. -/
theorem Binder.reachedBy_address {binder : Binder} {call : ClientCall} {id : AggregateId}
    {handler : String} (wf : id.WellFormed) (registered : binder.Registers handler call)
    (name_plain : '/' ∉ binder.name.toList) (id_plain : '/' ∉ id.toText.toList)
    (handler_plain : '/' ∉ handler.toList) :
    binder.ReachedBy ("/" ++ binder.name ++ "/" ++ id.toText ++ "/" ++ handler) call id :=
  ⟨_, route_append name_plain id_plain handler_plain, rfl, registered,
    AggregateId.fromStr_toText wf⟩

theorem route_first {rest : String} {r : Route} (routed : route ("/" ++ rest) = some r) :
    ∃ after, splitOnce rest '/' = some (r.service, after) := by
  rw [route, splitOnce_path] at routed
  cases first : splitOnce rest '/' with
  | none => simp [first] at routed
  | some cut =>
      obtain ⟨service, rest'⟩ := cut
      simp only [first] at routed
      split at routed
      · split at routed
        · cases routed
        · cases routed
          exact ⟨_, rfl⟩
      · cases routed

/-- What stands before the first slash of a name with a suffix is never the name. -/
theorem splitOnce_suffixed_ne {base suffix rest before after : String} (nonempty : suffix ≠ "")
    (plain : '/' ∉ suffix.toList)
    (cut : splitOnce (base ++ suffix ++ "/" ++ rest) '/' = some (before, after)) :
    before ≠ base := by
  intro same
  have base_plain : '/' ∉ base.toList := same ▸ splitOnce_before cut
  have both_plain : '/' ∉ (base ++ suffix).toList := by
    intro member
    rw [String.toList_append] at member
    rcases List.mem_append.mp member with inBase | inSuffix
    · exact base_plain inBase
    · exact plain inSuffix
  have slash : "/" = String.singleton '/' := by decide
  rw [slash, splitOnce_append both_plain] at cut
  cases cut
  have lengths := congrArg String.length same
  rw [String.length_append] at lengths
  apply nonempty
  apply String.ext
  apply List.eq_nil_of_length_eq_zero
  rw [String.length_toList]
  omega

/-- The client names an executor and a loader that the binding is not registered as. -/
theorem ClientCall.route_service_ne {base : String} {id : AggregateId} {call : ClientCall} {r : Route}
    (routed : route (call.path base id) = some r) : r.service ≠ base := by
  cases call with
  | load =>
      have path : ClientCall.load.path base id =
          "/" ++ (base ++ "-side-effect-loader" ++ "/" ++ "load") := by
        simp only [ClientCall.path, loaderName, String.append_assoc]
        rfl
      rw [path] at routed
      obtain ⟨after, cut⟩ := route_first routed
      exact splitOnce_suffixed_ne (by decide) (by decide) cut
  | execute command nanoid =>
      have path : (ClientCall.execute command nanoid).path base id =
          "/" ++ (base ++ "-side-effect-executor" ++ "/" ++
            (generateCorrelationId id command nanoid ++ "/run")) := by
        simp only [ClientCall.path, executorName, String.append_assoc]
      rw [path] at routed
      obtain ⟨after, cut⟩ := route_first routed
      exact splitOnce_suffixed_ne (by decide) (by decide) cut
  | executeIdempotent command idempotencyKey =>
      have path : (ClientCall.executeIdempotent command idempotencyKey).path base id =
          "/" ++ (base ++ "-side-effect-executor" ++ "/" ++ (idempotencyKey ++ "/run")) := by
        simp only [ClientCall.path, executorName, String.append_assoc]
      rw [path] at routed
      obtain ⟨after, cut⟩ := route_first routed
      exact splitOnce_suffixed_ne (by decide) (by decide) cut

/-- Whatever is declared, called and addressed, the client's path does not reach the binding
generated from the same declaration. -/
theorem client_never_reaches_binding [CharCase] {service : FullServiceInput} {binder : Binder}
    (generated : generateFull service = .ok binder) (call : ClientCall) (id : AggregateId) :
    ¬ binder.ReachedBy (call.path service.serviceName id) call id := by
  rintro ⟨r, routed, named, -, -⟩
  have same : binder.name = service.serviceName := by
    unfold generateFull at generated
    dsimp only at generated
    split at generated
    · cases generated
    · cases generated
      rfl
  exact call.route_service_ne routed (named.trans same)

section Counter

abbrev asciiCase : CharCase := ⟨Char.isUpper, Char.isLower⟩

attribute [local instance] asciiCase

def counterService : FullServiceInput where
  name := "CounterService"
  handlerEntries := [{ fnIdent := "increment", commandName := ⟨"counter:increment"⟩ }]

def counterBinder : Binder := ⟨"counter_service", "load", [("increment", ⟨"counter:increment"⟩)]⟩

def counterOne : AggregateId := ⟨⟨"counter"⟩, "c1"⟩

theorem counter_generated : generateFull counterService = .ok counterBinder := by decide +kernel

theorem counter_never_reached : ¬ counterBinder.ReachedBy
    (ClientCall.load.path counterService.serviceName counterOne) .load counterOne :=
  client_never_reaches_binding counter_generated .load counterOne

/-- The declared command goes to the executor's `run`, under the correlation id. -/
theorem increment_posted_elsewhere : ¬ ∀ (service : FullServiceInput) (binder : Binder),
    generateFull service = .ok binder → ∀ (call : ClientCall) (id : AggregateId),
      service.Declares call → binder.ReachedBy (call.path service.serviceName id) call id := by
  intro claim
  let increment : ClientCall := .execute ⟨"counter:increment"⟩ "V1StGXR8_Z5jdHi6B-myT"
  obtain ⟨r, routed, named, -, -⟩ :=
    claim counterService counterBinder counter_generated increment counterOne List.mem_cons_self
  have posted : route (increment.path counterService.serviceName counterOne) =
      some ⟨"counter_service-side-effect-executor",
        "counter:c1-counter:increment-V1StGXR8_Z5jdHi6B-myT", "run"⟩ := by decide +kernel
  cases posted.symm.trans routed
  exact absurd named (by decide)

end Counter

end WeeEvents.Restate
