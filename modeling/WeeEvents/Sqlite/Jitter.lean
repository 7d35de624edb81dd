import WeeEvents.Foundation.XorShift
import WeeEvents.Foundation.Pool
import WeeEvents.Sqlite.Store

/-!
# Jitter

All retries of a process draw their jitter from one xorshift generator, whose state
they load and store without a lock. However they race, a state that was seeded is
never zero again, and every delay is between its backoff and twice that.
-/
namespace WeeEvents.Sqlite
open Foundation

/-- What `next_jitter` asks of the shared state, and of the clock. -/
inductive JitterOp where
  | load
  | nanos
  | store (x : BitVec 64)

abbrev JitterOp.Res : JitterOp → Type
  | .load => BitVec 64
  | .nanos => BitVec 64
  | .store _ => Unit

/-- The state is loaded and stored as a whole. The clock may say anything. -/
inductive JitterStep : BitVec 64 → (op : JitterOp) → op.Res → BitVec 64 → Prop
  | load {s : BitVec 64} : JitterStep s .load s s
  | nanos {s now : BitVec 64} : JitterStep s .nanos now s
  | store {s x : BitVec 64} : JitterStep s (.store x) () x

/-- The state after `x`. -/
def xorshift (x : BitVec 64) : BitVec 64 := xorShiftLeft 17 (xorShiftRight 7 (xorShiftLeft 13 x))

def storeNext (x : BitVec 64) : Program JitterOp JitterOp.Res (BitVec 64) :=
  (Program.perform (.store (xorshift x))).bind fun _ => .ret (xorshift x * 0x2545F4914F6CDD1D#64)

def nextJitter : Program JitterOp JitterOp.Res (BitVec 64) :=
  (Program.perform .load).bind fun x =>
    if x = 0 then (Program.perform .nanos).bind fun nanos => storeNext (nanos ||| 1)
    else storeNext x

def jittered (backoffMs : Nat) : Program JitterOp JitterOp.Res Nat :=
  nextJitter.bind fun jitter => .ret (backoffMs + jitter.toNat % (backoffMs + 1))

inductive DelayCall where
  | retryDelay (attempt : Nat)
  | busyRetryDelay (attempt : Nat)

def DelayCall.backoffMs : DelayCall → Nat
  | .retryDelay attempt => retryBackoffMs attempt
  | .busyRetryDelay attempt => busyBackoffMs attempt

/-- `retry_delay` and `busy_retry_delay`, in milliseconds. -/
def DelayCall.program : DelayCall → Program JitterOp JitterOp.Res Nat
  | .retryDelay attempt =>
      if retryBackoffMs attempt = 0 then .ret 0 else jittered (retryBackoffMs attempt)
  | .busyRetryDelay attempt => jittered (busyBackoffMs attempt)

/-- Any number of retries that draw from one generator. -/
abbrev delays : System where
  Op := JitterOp
  Res := JitterOp.Res
  Shared := BitVec 64
  Call := DelayCall
  Result := Nat
  program := DelayCall.program
  step _ _ := JitterStep

/-! ### The generator -/

theorem xorshift_injective : Function.Injective xorshift :=
  (xorShiftLeft_injective (by decide)).comp
    ((xorShiftRight_injective (by decide)).comp (xorShiftLeft_injective (by decide)))

theorem xorshift_ne_zero {x : BitVec 64} (seeded : x ≠ 0) : xorshift x ≠ 0 := by
  intro none
  exact seeded (xorshift_injective (none.trans (by decide)))

theorem seed_ne_zero (nanos : BitVec 64) : nanos ||| 1 ≠ 0 := by
  intro none
  have lowest := congrArg (BitVec.getLsbD · 0) none
  simp at lowest

/-- No call stores zero. -/
def jitterDiscipline : Discipline JitterOp JitterOp.Res Unit where
  may _ op := op ≠ .store 0
  learn _ _ _ := ()

theorem obeys_storeNext {x : BitVec 64} (seeded : x ≠ 0) :
    jitterDiscipline.Obeys (fun _ _ => True) (storeNext x) () := by
  refine ⟨fun same => ?_, fun _ => trivial⟩
  exact xorshift_ne_zero seeded (JitterOp.store.inj same)

theorem obeys_nextJitter : jitterDiscipline.Obeys (fun _ _ => True) nextJitter () := by
  refine ⟨(fun same => by cases same), fun x => ?_⟩
  change jitterDiscipline.Obeys _ (if x = 0 then _ else storeNext x) ()
  split
  · exact ⟨(fun same => by cases same), fun nanos => obeys_storeNext (seed_ne_zero nanos)⟩
  · next seeded => exact obeys_storeNext seeded

/-- A delay is at least its backoff, and at most twice that. -/
def DelayCall.Within (call : DelayCall) (ms : Nat) : Prop := call.backoffMs ≤ ms ∧ ms ≤ 2 * call.backoffMs

theorem obeys_jittered (backoffMs : Nat) :
    jitterDiscipline.Obeys (fun _ ms => backoffMs ≤ ms ∧ ms ≤ 2 * backoffMs) (jittered backoffMs) () := by
  refine obeys_nextJitter.bind fun _ jitter _ => ?_
  have small : jitter.toNat % (backoffMs + 1) < backoffMs + 1 := Nat.mod_lt _ (Nat.succ_pos _)
  exact ⟨by omega, by omega⟩

theorem obeys_delay (call : DelayCall) :
    jitterDiscipline.Obeys (fun _ ms => call.Within ms) call.program () := by
  cases call with
  | busyRetryDelay attempt => exact obeys_jittered _
  | retryDelay attempt =>
      rw [DelayCall.program]
      split
      · next none =>
          refine ⟨?_, Nat.zero_le _⟩
          exact none.le
      · exact obeys_jittered _

/-! ### The race -/

/-- A load after a store never finds the generator unseeded. -/
def StaysSeeded (trace : delays.Trace) : Prop :=
  ∀ front c call x r back, trace = front ++ .performed c call (.store x) r :: back →
    ∀ c' call' seen, .performed c' call' .load seen ∈ back → seen ≠ 0

theorem StaysSeeded.concat {trace : delays.Trace} {event : delays.Happening} (h : StaysSeeded trace)
    (loads : ∀ c call seen, event = .performed c call .load seen →
      (∃ c' call' x r, .performed c' call' (.store x) r ∈ trace) → seen ≠ 0) : StaysSeeded (trace ++ [event]) := by
  intro front c call x r back split c' call' seen member
  rcases split_concat split with ⟨rfl, rfl⟩ | ⟨rest, rfl, rfl⟩
  · obtain rfl : [] = back := (List.cons.inj (List.append_cancel_left split)).2
    cases member
  · rcases List.mem_append.mp member with old | new
    · exact h front c call x r rest rfl c' call' seen old
    · exact loads c' call' seen (List.mem_singleton.mp new).symm ⟨c, call, x, r, by simp⟩

/-- What holds of the state, and of what the retries did. -/
structure Jitters (s : BitVec 64) (trace : delays.Trace) : Prop where
  seeded : (∃ c call x r, .performed c call (.store x) r ∈ trace) → s ≠ 0
  stays : StaysSeeded trace
  within : ∀ c call ms, .returned c call ms ∈ trace → call.Within ms

theorem Jitters.quiet {s : BitVec 64} {trace : delays.Trace} {event : delays.Happening} (h : Jitters s trace)
    (performs : ∀ c call op r, event ≠ .performed c call op r)
    (returns : ∀ c call ms, event = .returned c call ms → call.Within ms) : Jitters s (trace ++ [event]) where
  seeded := by
    rintro ⟨c, call, x, r, stored⟩
    rcases List.mem_append.mp stored with old | new
    · exact h.seeded ⟨c, call, x, r, old⟩
    · exact absurd (List.mem_singleton.mp new).symm (performs c call _ r)
  stays := h.stays.concat fun c call seen same => absurd same (performs c call _ seen)
  within c call ms returned := by
    rcases List.mem_append.mp returned with old | new
    · exact h.within c call ms old
    · exact returns c call ms (List.mem_singleton.mp new).symm

def jitterRule : Pool.Rule (S := delays) (G := Unit) jitterDiscipline fun _ _ => True where
  inv _ s trace := Jitters s trace
  holds _ _ _ _ _ _ := True
  start _ := ()
  done call _ ms := call.Within ms
  obeys := obeys_delay
  invoke {g s trace c call} held _ _ _ := by
    refine ⟨(), held.quiet (fun _ _ _ _ same => ?_) (fun _ _ _ same => ?_), trivial, fun _ _ _ _ _ => trivial⟩
    · cases same
    · cases same
  perform {g s trace c call k op r s'} held _ _ may _ step := by
    have within : ∀ c' call' ms, .returned c' call' ms ∈ trace ++ [.performed c call op r] → call'.Within ms :=
      fun c' call' ms returned => held.within c' call' ms (by simpa using returned)
    refine ⟨(), ⟨?_, held.stays.concat ?_, within⟩, trivial, fun _ _ _ _ _ => trivial⟩
    · rintro ⟨c', call', x, r', stored⟩
      cases step with
      | load => exact held.seeded ⟨c', call', x, r', by simpa using stored⟩
      | nanos => exact held.seeded ⟨c', call', x, r', by simpa using stored⟩
      | store =>
          rintro rfl
          exact may rfl
    · intro c' call' seen same stored
      cases same
      cases step
      exact held.seeded stored
  finish {g s trace c call k ms} held _ _ ended _ := by
    refine ⟨(), held.quiet (fun _ _ _ _ same => ?_) (fun _ _ _ same => ?_), fun _ _ _ _ _ => trivial⟩
    · cases same
    · cases same
      exact ended

/-- However retries race for the generator: its steps lose no state, once one has stored a state no
later one finds it unseeded, and every delay is between its backoff and twice that. -/
theorem delays_jittered {p : Pool delays} (reach : Pool.Reachable (S := delays) (0 : BitVec 64) p) :
    Function.Injective xorshift ∧ StaysSeeded p.trace ∧
      ∀ c call ms, .returned c call ms ∈ p.trace → call.Within ms := by
  have init : jitterRule.inv () 0 [] := by
    refine ⟨?_, ?_, ?_⟩
    · rintro ⟨c, call, x, r, stored⟩
      cases stored
    · intro front c call x r back split
      simp at split
    · intro c call ms returned
      cases returned
  obtain ⟨_, held, -⟩ := jitterRule.sound init reach
  exact ⟨xorshift_injective, held.stays, held.within⟩

section Example

/-- The clock always says five nanoseconds. -/
def fiveNanos (op : JitterOp) (s : BitVec 64) : Option (op.Res × BitVec 64) :=
  match op with
  | .load => some (s, s)
  | .nanos => some (5#64, s)
  | .store x => some ((), x)

theorem fiveNanos_step {op : JitterOp} {s s' : BitVec 64} {r : op.Res} (served : fiveNanos op s = some (r, s')) :
    JitterStep s op r s' := by
  cases op with
  | load =>
      cases served
      exact .load
  | nanos =>
      cases served
      exact .nanos
  | store x =>
      cases served
      exact .store

/-- Two retries that both find the generator unseeded. -/
def racedDelays : Option (Pool delays) :=
  Pool.replay (S := delays) (fun _ _ => fiveNanos)
    ([.begin 0 (.retryDelay 3), .begin 1 (.busyRetryDelay 2)] ++
      (List.replicate 4 [Pool.Move.advance 0, .advance 1]).flatten) (Pool.initial (0 : BitVec 64))

def delayed : delays.Happening → Option (Nat × Nat)
  | .returned c _ ms => some (c, ms)
  | _ => none

theorem raced_delays_jittered : ∃ p : Pool delays, Pool.Reachable (S := delays) (0 : BitVec 64) p ∧
    p.trace.filterMap delayed = [(0, 21), (1, 35)] ∧ StaysSeeded p.trace := by
  have seen : racedDelays.map (fun p => p.trace.filterMap delayed) = some [(0, 21), (1, 35)] := by
    decide +kernel
  obtain ⟨p, run, returned⟩ := Option.map_eq_some_iff.mp seen
  have reach : Pool.ReachableBy (S := delays) (fun _ _ => True) (0 : BitVec 64) p :=
    Pool.ReachableBy.replay (fun _ _ => trivial) (fun _ _ _ _ _ _ served => ⟨fiveNanos_step served, trivial⟩)
      (fun _ _ _ => ⟨trivial, fun _ => trivial⟩) .start run
  exact ⟨p, reach, returned, (delays_jittered reach).2.1⟩

end Example
end WeeEvents.Sqlite
