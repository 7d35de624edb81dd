import WeeEvents.Sqlite.Conflicts

/-!
# The retry loops of publishing

Three loops around one attempt: over a busy database, over a conflict, and over
a partition that is not there yet. Each is run for any answers at all. A round
of the middle loop is one run of the inner one, and only rounds that end in a
conflict lead to the next.
-/
namespace WeeEvents.Sqlite
open Foundation

/-- How one transaction attempt came out. -/
abbrev Outcome : Type := Except PublishAttemptError ChangeSet

/-- The outcomes of all attempts so far, and the loads that failed. -/
structure RetryKnowledge where
  attempts : List Outcome := []
  loadErrors : List SqliteError := []

variable {P D : Type}

def RetryKnowledge.learn (k : RetryKnowledge) : (op : StoreOp P D) → op.Res → RetryKnowledge
  | .tryPublishOnce _ _ _ _, outcome => { k with attempts := k.attempts ++ [outcome] }
  | .loadFromConnection _ _, .error e => { k with loadErrors := k.loadErrors ++ [e] }
  | _, _ => k

/-- Everything but the two panics. -/
def NoPanic : StoreOp P D → Prop
  | .unreachable _ => False
  | _ => True

def retryDiscipline : Discipline (StoreOp P D) StoreOp.Res RetryKnowledge where
  may _ op := NoPanic op
  learn := RetryKnowledge.learn

def RetryKnowledge.after (k : RetryKnowledge) (made : List Outcome) : RetryKnowledge :=
  { k with attempts := k.attempts ++ made }

theorem RetryKnowledge.after_nil (k : RetryKnowledge) : k.after [] = k := by
  simp [after]

theorem RetryKnowledge.after_after (k : RetryKnowledge) (made more : List Outcome) :
    (k.after made).after more = k.after (made ++ more) := by
  simp [after]

variable {id : AggregateId} {options : PublishOptions} {events : List RawEvent}
  {k k' : RetryKnowledge}

/-! ### One round -/

/-- Attempts on a busy database, and a last one, whose outcome is that of all. -/
def BusyUntil (made : List Outcome) (outcome : Outcome) : Prop :=
  ∃ errors : List SqliteError, made = errors.map (fun e => .error (.store e)) ++ [outcome] ∧
    ∀ e ∈ errors, isSqliteBusy e = true

theorem BusyUntil.once (outcome : Outcome) : BusyUntil [outcome] outcome :=
  ⟨[], rfl, fun _ none => by cases none⟩

theorem BusyUntil.again {error : SqliteError} {made : List Outcome} {outcome : Outcome}
    (busy : isSqliteBusy error = true) (h : BusyUntil made outcome) :
    BusyUntil (.error (.store error) :: made) outcome := by
  obtain ⟨errors, rfl, each⟩ := h
  refine ⟨error :: errors, rfl, ?_⟩
  intro e member
  rcases List.mem_cons.mp member with rfl | later
  · exact busy
  · exact each e later

/-- The inner loop from a first outcome: what it adds makes up a busy stretch with it. -/
def BusyDone (first : Outcome) (remaining : Nat) (k k' : RetryKnowledge) (outcome : Outcome) : Prop :=
  ∃ more, k' = k.after more ∧ more.length ≤ remaining ∧ BusyUntil (first :: more) outcome

theorem BusyDone.stop (first : Outcome) (remaining : Nat) (k : RetryKnowledge) :
    BusyDone first remaining k k first :=
  ⟨[], k.after_nil.symm, Nat.zero_le _, .once first⟩

theorem retries_whileBusy (conn : D) (remaining : Nat) (first : Outcome) :
    (retryDiscipline (P := P)).Obeys (BusyDone first remaining k)
      (retryWhileBusy id options events conn remaining first) k := by
  induction remaining generalizing k first with
  | zero => exact .stop first 0 k
  | succ remaining ih =>
      match first with
      | .ok changeset => exact .stop _ _ k
      | .error (.conflict c) => exact .stop _ _ k
      | .error (.store error) =>
          rw [retryWhileBusy]
          split
          · next busy =>
              refine ⟨trivial, fun _ => ⟨trivial, fun next => ?_⟩⟩
              refine (ih (k := k.after [next]) next).mono ?_
              rintro k' outcome ⟨more, rfl, few, stretch⟩
              exact ⟨next :: more, k.after_after _ _, Nat.succ_le_succ few, stretch.again busy⟩
          · exact .stop _ _ k

/-- The attempts of one round: at most nine, busy up to the last. -/
structure Round (made : List Outcome) (outcome : Outcome) : Prop where
  few : made.length ≤ 9
  busy : BusyUntil made outcome

theorem retries_round (conn : D) :
    (retryDiscipline (P := P)).Obeys (fun k' outcome => ∃ made, k' = k.after made ∧ Round made outcome)
      ((storeCall (.tryPublishOnce conn id options events)).bind fun first =>
        retryWhileBusy id options events conn maxBusyRetries first) k := by
  refine ⟨trivial, fun first => ?_⟩
  refine (retries_whileBusy (k := k.after [first]) conn maxBusyRetries first).mono ?_
  rintro k' outcome ⟨more, rfl, few, stretch⟩
  exact ⟨first :: more, k.after_after _ _, Nat.succ_le_succ few, stretch⟩

/-! ### The rounds -/

/-- Rounds that each ended in a conflict. -/
inductive ConflictRounds : List Outcome → List PublishConflict → Prop
  | nil : ConflictRounds [] []
  | cons {round made : List Outcome} {c : PublishConflict} {conflicts : List PublishConflict} :
      Round round (.error (.conflict c)) → ConflictRounds made conflicts →
      ConflictRounds (round ++ made) (c :: conflicts)

abbrev retryExhausted (attempts : Nat) (diagnostics : RetryDiagnostics) : SqliteError :=
  .weeEvents (.custom (.retryExhausted attempts diagnostics))

section Loops

variable [UlidParser]

/-- The diagnostics the loop takes from a conflict. -/
def conflictDiagnostics (c : PublishConflict) : RetryDiagnostics where
  lastAttemptedRevision := c.attemptedRevision
  observedMaxRevision := c.actual
  possibleClockSkewMs := possibleClockSkewMs c.attemptedRevision c.actual

/-- The diagnostics of the last of some conflicts, or those from before them. -/
def lastDiagnostics (conflicts : List PublishConflict) (before : Option RetryDiagnostics) :
    Option RetryDiagnostics :=
  conflicts.foldl (fun _ c => some (conflictDiagnostics c)) before

/-- What the rounds that remained came to. Running out of them means that each ended in a
conflict, unless an attempt itself failed with the error of a loop that ran out. -/
def RoundsDone (canAutoRetry : Bool) (maxAttempts remaining : Nat) (before : Option RetryDiagnostics)
    (k k' : RetryKnowledge) (r : Except SqliteError ChangeSet) : Prop :=
  ∃ made, k' = k.after made ∧ made.length ≤ remaining * 9 ∧
    ∀ n d, r = .error (retryExhausted n d) →
      .error (.store (retryExhausted n d)) ∈ made ∨
        n = maxAttempts ∧ (remaining ≠ 0 → canAutoRetry = true) ∧
          ∃ conflicts, conflicts.length = remaining ∧ ConflictRounds made conflicts ∧
            lastDiagnostics conflicts before = some d

theorem RoundsDone.returned {canAutoRetry : Bool} {maxAttempts remaining : Nat}
    {before : Option RetryDiagnostics} {round : List Outcome} {outcome : Outcome}
    {r : Except SqliteError ChangeSet} (ended : Round round outcome)
    (other : ∀ n d, r = .error (retryExhausted n d) → outcome = .error (.store (retryExhausted n d))) :
    RoundsDone canAutoRetry maxAttempts (remaining + 1) before k (k.after round) r := by
  refine ⟨round, rfl, ?_, ?_⟩
  · have few := ended.few
    omega
  · intro n d same
    left
    obtain ⟨errors, rfl, -⟩ := ended.busy
    rw [← other n d same]
    exact List.mem_append_right _ (List.mem_singleton_self _)

theorem RoundsDone.again {maxAttempts remaining : Nat} {before : Option RetryDiagnostics}
    {round : List Outcome} {c : PublishConflict} {r : Except SqliteError ChangeSet}
    (ended : Round round (.error (.conflict c)))
    (h : RoundsDone true maxAttempts remaining (some (conflictDiagnostics c)) (k.after round) k' r) :
    RoundsDone true maxAttempts (remaining + 1) before k k' r := by
  obtain ⟨made, rfl, few, exhausted⟩ := h
  refine ⟨round ++ made, k.after_after _ _, ?_, ?_⟩
  · have few' := ended.few
    rw [List.length_append]
    omega
  · intro n d same
    rcases exhausted n d same with passed | ⟨all, -, conflicts, number, rounds, last⟩
    · exact .inl (List.mem_append_right _ passed)
    · refine .inr ⟨all, fun _ => rfl, c :: conflicts, ?_, .cons ended rounds, last⟩
      rw [List.length_cons, number]

theorem retries_onConflict (conn : D) (canAutoRetry : Bool) (maxAttempts remaining : Nat)
    (before : Option RetryDiagnostics) (recorded : remaining ≠ 0 ∨ before.isSome)
    (once : canAutoRetry = false → remaining ≤ 1) :
    (retryDiscipline (P := P)).Obeys (RoundsDone canAutoRetry maxAttempts remaining before k)
      (retryOnConflict id options events conn canAutoRetry maxAttempts remaining before) k := by
  induction remaining generalizing k before with
  | zero =>
      cases before with
      | none => simp at recorded
      | some diagnostics =>
          refine ⟨[], k.after_nil.symm, Nat.zero_le _, ?_⟩
          intro n d same
          cases same
          exact .inr ⟨rfl, fun more => absurd rfl more, [], rfl, .nil, rfl⟩
  | succ remaining ih =>
      rw [retryOnConflict, ← Program.bind_assoc]
      refine (retries_round conn).bind ?_
      rintro k' outcome ⟨round, rfl, ended⟩
      match outcome, ended with
      | .ok changeset, ended => exact .returned ended fun n d same => by cases same
      | .error (.store error), ended =>
          refine .returned ended ?_
          intro n d same
          cases same
          rfl
      | .error (.conflict c), ended =>
          dsimp only
          split
          · next auto =>
              subst auto
              have next := fun k => ih (k := k) (some (conflictDiagnostics c)) (.inr rfl) fun auto => by cases auto
              split
              · exact ⟨trivial, fun _ => (next _).mono fun k'' r h => h.again ended⟩
              · exact (next _).mono fun k'' r h => h.again ended
          · exact .returned ended fun n d same => by cases same

theorem lastDiagnostics_eq (conflicts : List PublishConflict) (before : Option RetryDiagnostics) :
    lastDiagnostics conflicts before = (conflicts.getLast?.map conflictDiagnostics).or before := by
  induction conflicts generalizing before with
  | nil => rfl
  | cons c conflicts ih =>
      have rest : lastDiagnostics (c :: conflicts) before =
          lastDiagnostics conflicts (some (conflictDiagnostics c)) := rfl
      rw [rest, ih, List.getLast?_cons]
      cases conflicts.getLast? with
      | none => rfl
      | some last => rfl

/-! ### The whole call -/

/-- An attempt or a load failed with this very error. -/
def PassedOn (k : RetryKnowledge) (e : SqliteError) : Prop :=
  .error (.store e) ∈ k.attempts ∨ e ∈ k.loadErrors

/-- The last attempts are five rounds that each ended in a conflict, and the diagnostics are
those of the last one. No revision was expected. -/
def Exhausted (options : PublishOptions) (made : List Outcome) (n : Nat) (d : RetryDiagnostics) :
    Prop :=
  options.expectedRevision = none ∧ n = 5 ∧ ∃ earlier rounds conflicts,
    made = earlier ++ rounds ∧ conflicts.length = 5 ∧ ConflictRounds rounds conflicts ∧
      conflicts.getLast?.map conflictDiagnostics = some d

/-- The attempts of one pass of the outer loop. -/
def attemptsOfPass (options : PublishOptions) : Nat :=
  if options.expectedRevision.isSome then 9 else 5 * 9

/-- What a stretch of the call has done and what its result says about it. -/
def Published (options : PublishOptions) (bound : Nat) (k k' : RetryKnowledge)
    (r : Except SqliteError ChangeSet) : Prop :=
  ∃ made, k'.attempts = k.attempts ++ made ∧ made.length ≤ bound ∧
    ∀ n d, r = .error (retryExhausted n d) →
      PassedOn k' (retryExhausted n d) ∨ Exhausted options made n d

theorem Published.nothing {bound : Nat} {r : Except SqliteError ChangeSet}
    (same : k'.attempts = k.attempts)
    (passed : ∀ n d, r = .error (retryExhausted n d) → PassedOn k' (retryExhausted n d)) :
    Published options bound k k' r :=
  ⟨[], by rw [same, List.append_nil], Nat.zero_le _, fun n d error => .inl (passed n d error)⟩

theorem Published.before {first bound : Nat} {k'' : RetryKnowledge}
    {r r' : Except SqliteError ChangeSet} (h : Published options first k k' r)
    (h' : Published options bound k' k'' r') : Published options (first + bound) k k'' r' := by
  obtain ⟨made, same, few, -⟩ := h
  obtain ⟨made', same', few', exhausted⟩ := h'
  refine ⟨made ++ made', ?_, ?_, ?_⟩
  · rw [same', same, List.append_assoc]
  · rw [List.length_append]
    omega
  · intro n d error
    rcases exhausted n d error with passed | ⟨unexpected, all, earlier, rounds, conflicts, rfl, last⟩
    · exact .inl passed
    · exact .inr ⟨unexpected, all, made ++ earlier, rounds, conflicts, (List.append_assoc ..).symm, last⟩

theorem Published.within {bound bound' : Nat} {r : Except SqliteError ChangeSet}
    (h : Published options bound k k' r) (le : bound ≤ bound') : Published options bound' k k' r := by
  obtain ⟨made, same, few, exhausted⟩ := h
  exact ⟨made, same, few.trans le, exhausted⟩

theorem retries_publishWithConnection (conn : D) :
    (retryDiscipline (P := P)).Obeys (Published options (attemptsOfPass options) k)
      (publishWithConnection id options events conn) k := by
  rw [publishWithConnection]
  split
  · refine ⟨trivial, fun r => ?_⟩
    cases r with
    | ok aggregate => exact .nothing rfl fun n d error => by cases error
    | error e =>
        refine .nothing rfl ?_
        intro n d error
        cases error
        exact .inr (List.mem_append_right _ (List.mem_singleton_self _))
  · cases expected : options.expectedRevision with
    | none =>
        refine (retries_onConflict conn true 5 5 none (.inl (by decide)) (by decide)).mono ?_
        rintro k' r ⟨made, rfl, few, exhausted⟩
        refine ⟨made, rfl, ?_, ?_⟩
        · rw [attemptsOfPass, expected]
          exact few
        · intro n d error
          rcases exhausted n d error with passed | ⟨all, -, conflicts, number, rounds, last⟩
          · exact .inl (.inl (List.mem_append_right _ passed))
          · rw [lastDiagnostics_eq, Option.or_none] at last
            exact .inr ⟨expected, all, [], made, conflicts, rfl, number, rounds, last⟩
    | some revision =>
        refine (retries_onConflict conn false 1 1 none (.inl (by decide)) fun _ => le_rfl).mono ?_
        rintro k' r ⟨made, rfl, few, exhausted⟩
        refine ⟨made, rfl, ?_, ?_⟩
        · rw [attemptsOfPass, expected]
          exact few
        · intro n d error
          rcases exhausted n d error with passed | ⟨-, auto, -⟩
          · exact .inl (.inl (List.mem_append_right _ passed))
          · cases auto (by decide)

omit [UlidParser] in
/-- Opening a partition makes no attempt. -/
theorem retries_open (k : RetryKnowledge) : Opens (P := P) (D := D) retryDiscipline (· = k) :=
  ⟨fun _ _ same => ⟨trivial, fun _ => same⟩, fun _ _ same => ⟨trivial, fun _ => same⟩,
    fun _ _ _ same => ⟨trivial, fun _ => same⟩⟩

theorem retries_pass (catalog : PartitionCatalog P D) (partition : P) :
    (retryDiscipline (P := P)).Obeys (Published options (attemptsOfPass options) k)
      ((ensurePartitionOpen catalog partition).andThen fun conn =>
        publishWithConnection id options events conn) k := by
  refine ((retries_open k).ensurePartitionOpen catalog partition rfl).andThen ?_ ?_
  · rintro _ conn ⟨rfl, -⟩
    exact retries_publishWithConnection conn
  · rintro _ e ⟨rfl, plain⟩
    obtain ⟨b, rfl⟩ := plain e rfl
    exact .nothing rfl fun n d error => by cases error

theorem retries_untilReady (catalog : PartitionCatalog P D) (partition : P) (remaining : Nat) :
    (retryDiscipline (P := P)).Obeys (Published options ((remaining + 1) * attemptsOfPass options) k)
      (retryUntilReady id options events catalog partition (remaining + 1)) k := by
  induction remaining generalizing k with
  | zero =>
      refine (retries_pass catalog partition).bind fun k' r known => ?_
      rw [Nat.zero_add, Nat.one_mul]
      cases r with
      | ok changeset => exact known
      | error e =>
          simp only [ne_eq, not_true_eq_false, decide_false, Bool.and_false, Bool.false_eq_true,
            if_false]
          exact known
  | succ remaining ih =>
      refine (retries_pass catalog partition).bind fun k' r known => ?_
      have split : (remaining + 1 + 1) * attemptsOfPass options =
          attemptsOfPass options + (remaining + 1) * attemptsOfPass options := by
        rw [Nat.add_mul (remaining + 1) 1, Nat.one_mul, Nat.add_comm]
      rw [split]
      cases r with
      | ok changeset => exact known.within (Nat.le_add_right _ _)
      | error e =>
          dsimp only
          split
          · exact ⟨trivial, fun _ => ⟨trivial, fun _ => ih.mono fun k'' r h => known.before h⟩⟩
          · exact known.within (Nat.le_add_right _ _)

theorem retries_publishToAggregate (strategy : PartitionStrategy P) (catalog : PartitionCatalog P D) :
    (retryDiscipline (P := P)).Obeys (Published options (30 * attemptsOfPass options) k)
      (publishToAggregate id options events strategy catalog) k := by
  rw [publishToAggregate, partitionFor]
  cases strategy.partitionForAggregate id with
  | ok partition => exact retries_untilReady catalog partition 29
  | error b => exact .nothing rfl fun n d error => by cases error

/-! ### What is seen of a call -/

/-- The outcomes of the transaction attempts among the steps of a call. -/
def attemptsOf {σ : Type} (steps : List (OwnStep σ (StoreOp P D) StoreOp.Res)) : List Outcome :=
  steps.filterMap fun own => match own.op, own.response with
    | .tryPublishOnce _ _ _ _, outcome => some outcome
    | _, _ => none

/-- The attempt or load of a step failed with an error. -/
def FailsWith {σ : Type} (own : OwnStep σ (StoreOp P D) StoreOp.Res) (e : SqliteError) : Prop :=
  match own.op, own.response with
  | .tryPublishOnce _ _ _ _, .error (.store e') => e' = e
  | .loadFromConnection _ _, .error e' => e' = e
  | _, _ => False

omit [UlidParser] in
theorem learned_attempts {σ : Type} (steps : List (OwnStep σ (StoreOp P D) StoreOp.Res)) :
    (retryDiscipline.learned k steps).attempts = k.attempts ++ attemptsOf steps := by
  induction steps generalizing k with
  | nil => exact (List.append_nil _).symm
  | cons own steps ih =>
      have rest : retryDiscipline.learned k (own :: steps) =
          retryDiscipline.learned (k.learn own.op own.response) steps := rfl
      rw [rest, ih]
      obtain ⟨before, op, response, after⟩ := own
      cases op with
      | tryPublishOnce conn id options events => exact List.append_assoc ..
      | loadFromConnection conn id => cases response <;> rfl
      | _ => rfl

omit [UlidParser] in
theorem learned_passedOn {σ : Type} {e : SqliteError}
    (steps : List (OwnStep σ (StoreOp P D) StoreOp.Res))
    (passed : PassedOn (retryDiscipline.learned {} steps) e) : ∃ own ∈ steps, FailsWith own e := by
  have one : ∀ (k : RetryKnowledge) (own : OwnStep σ (StoreOp P D) StoreOp.Res),
      PassedOn (k.learn own.op own.response) e → PassedOn k e ∨ FailsWith own e := by
    rintro k ⟨before, op, response, after⟩ passed
    cases op with
    | tryPublishOnce conn id options events =>
        rcases passed with attempted | loaded
        · rcases List.mem_append.mp attempted with old | new
          · exact .inl (.inl old)
          · cases List.mem_singleton.mp new
            exact .inr rfl
        · exact .inl (.inr loaded)
    | loadFromConnection conn id =>
        cases response with
        | ok aggregate => exact .inl passed
        | error e' =>
            rcases passed with attempted | loaded
            · exact .inl (.inl attempted)
            · rcases List.mem_append.mp loaded with old | new
              · exact .inl (.inr old)
              · exact .inr (List.mem_singleton.mp new).symm
    | _ => exact .inl passed
  have seen := Discipline.learned_from (D := retryDiscipline) (Q := fun k => PassedOn k e) one steps passed
  rcases seen with before | found
  · rcases before with attempted | loaded
    · cases attempted
    · cases loaded
  · exact found

theorem loadRows_error {rows : List Row} {e : SqliteError} (h : loadRows rows = .error e) :
    ∃ b, e = .backend b := by
  induction rows with
  | nil => cases h
  | cons row rows ih =>
      rw [loadRows] at h
      split at h
      · next unread =>
          cases h
          unfold Row.load at unread
          split at unread
          · cases unread
            exact ⟨_, rfl⟩
          · split at unread <;> cases unread
            exact ⟨_, rfl⟩
      · split at h
        · next failed =>
            cases h
            exact ih failed
        · cases h

/-- Neither an attempt nor a load of the store fails with an error of the retry loops. -/
theorem InstanceStep.plain [DecidableEq P] [DecidableEq D] {self : Nat} {w w' : Cluster P D}
    {op : StoreOp P D} {r : op.Res} (h : InstanceStep self w op r w') {e : SqliteError}
    (fails : FailsWith ⟨w, op, r, w'⟩ e) : ∃ b, e = .backend b := by
  obtain ⟨outside, served⟩ := h
  cases op with
  | tryPublishOnce conn id options events =>
      obtain ⟨generator, table, attempt, -⟩ := serve_tryPublishOnce served
      match r, fails, attempt with
      | .error (.store e'), fails, attempt =>
          obtain rfl : e' = e := fails
          exact tryPublishOnce_store attempt
  | loadFromConnection conn id =>
      match r, fails, served with
      | .error e', fails, served =>
          obtain rfl : e' = e := fails
          simp only [serve] at served
          split at served
          · cases served
            exact ⟨_, rfl⟩
          · simp only [Option.some.injEq, Prod.mk.injEq, loadFromConnection] at served
            obtain ⟨failed, -⟩ := served
            split at failed
            · next unread =>
                cases failed
                exact loadRows_error unread
            · cases failed
  | _ => exact fails.elim

/-- Whatever attempts and openings answer, the call returns without a panic, within 30 passes of 5
rounds of 9 attempts, or of one round where a revision is expected. It reports exhausted retries
only after five rounds that ended in conflicts, unless an answer was that very error; the store's
own answers are not. -/
theorem publish_retries_bounded (strategy : PartitionStrategy P) (catalog : PartitionCatalog P D)
    (id : AggregateId) (options : PublishOptions) (events : List RawEvent) :
    (∀ {σ : Type} (handle : (op : StoreOp P D) → σ → Option (op.Res × σ)),
      (∀ op s, NoPanic op → (handle op s).isSome) → ∀ s,
        ((publishToAggregate id options events strategy catalog).eval handle s).isSome) ∧
    (∀ {σ : Type} (step : σ → (op : StoreOp P D) → op.Res → σ → Prop)
      (steps : List (OwnStep σ (StoreOp P D) StoreOp.Res)) (r : Except SqliteError ChangeSet),
      (publishToAggregate id options events strategy catalog).Performs step steps r →
        (attemptsOf steps).length ≤
            (if options.expectedRevision.isSome then 30 * 9 else 30 * 5 * 9) ∧
          ∀ n d, r = .error (retryExhausted n d) →
            (∃ own ∈ steps, FailsWith own (retryExhausted n d)) ∨
              Exhausted options (attemptsOf steps) n d) ∧
    ∀ [DecidableEq P] [DecidableEq D] (self : Nat)
      (steps : List (OwnStep (Cluster P D) (StoreOp P D) StoreOp.Res)) (n : Nat) (d : RetryDiagnostics),
      (publishToAggregate id options events strategy catalog).Performs (InstanceStep self) steps
          (.error (retryExhausted n d)) →
        Exhausted options (attemptsOf steps) n d := by
  have obeys : retryDiscipline.Obeys (Published options (30 * attemptsOfPass options) {})
      (publishToAggregate id options events strategy catalog) {} :=
    retries_publishToAggregate strategy catalog
  have seen : ∀ {σ : Type} (step : σ → (op : StoreOp P D) → op.Res → σ → Prop)
      (steps : List (OwnStep σ (StoreOp P D) StoreOp.Res)) (r : Except SqliteError ChangeSet),
      (publishToAggregate id options events strategy catalog).Performs step steps r →
        (attemptsOf steps).length ≤ 30 * attemptsOfPass options ∧
          ∀ n d, r = .error (retryExhausted n d) →
            (∃ own ∈ steps, FailsWith own (retryExhausted n d)) ∨
              Exhausted options (attemptsOf steps) n d := by
    intro σ step steps r performs
    obtain ⟨⟨made, same, few, exhausted⟩, -⟩ := obeys.performs performs
    rw [learned_attempts, List.nil_append, List.nil_append] at same
    rw [same]
    refine ⟨few, ?_⟩
    intro n d error
    exact (exhausted n d error).imp_left (learned_passedOn steps)
  refine ⟨fun handle answers s => obeys.returns (fun _ => answers) s, ?_, ?_⟩
  · intro σ step steps r performs
    obtain ⟨few, exhausted⟩ := seen step steps r performs
    refine ⟨few.trans ?_, exhausted⟩
    rw [attemptsOfPass]
    split <;> decide
  · intro _ _ self steps n d performs
    obtain ⟨-, exhausted⟩ := seen _ steps _ performs
    rcases exhausted n d rfl with ⟨own, member, fails⟩ | rounds
    · obtain ⟨earlier, later, rfl⟩ := List.append_of_mem member
      obtain ⟨stepped, -⟩ := (obeys.performs performs).2 earlier own later rfl
      obtain ⟨b, same⟩ := InstanceStep.plain stepped fails
      cases same
    · exact rounds

end Loops

end WeeEvents.Sqlite
