import WeeEvents.Foundation.Masks

/-!
# Registering effects

The registration type that `service!` emits lists the effects still to be
registered, and each generated implementation of `with_effect` takes one effect
from that list. Every set of remaining effects is a bit mask over the markers.
-/
namespace WeeEvents.Restate
open Foundation Masks

/-- The remaining effects of a registration, `Ready` or `Needs<Requirement, Tail>`. -/
inductive Remaining (M : Type) where
  | ready
  | needs (requirement : M) (tail : Remaining M)
  deriving DecidableEq, Repr

/-- A generated `impl WithEffect<_, marker> for Registration<_, _, input>`. -/
structure WithEffectImpl (M : Type) where
  marker : M
  input : Remaining M
  output : Remaining M
  deriving DecidableEq, Repr

section Generate

variable {M : Type} {width : Nat}

def remainingTypeForSubset (effectMarkers : List M) (subset : BitVec width) : Remaining M :=
  (effectMarkers.zipIdx.reverse.filter fun entry => subset &&& bit width entry.2 != 0).foldl
    (fun tail entry => .needs entry.1 tail) .ready

/-- The subset of all effects of a service. -/
def allEffects (width : Nat) (effectMarkers : List M) : BitVec width :=
  if effectMarkers.isEmpty then 0 else full width effectMarkers.length

def initialRemainingEffects (width : Nat) (effectMarkers : List M) : Remaining M :=
  remainingTypeForSubset effectMarkers (allEffects width effectMarkers)

/-- The subsets `1..=last`. -/
def subsetsTo (last : BitVec width) : List (BitVec width) :=
  (List.range' 1 last.toNat).map (BitVec.ofNat width)

/-- The implementations for one input subset. -/
def implsForSubset (effectMarkers : List M) (subset : BitVec width) : List (WithEffectImpl M) :=
  (effectMarkers.zipIdx.filter fun entry => subset &&& bit width entry.2 != 0).map
    fun (effectMarker, effectIndex) =>
      { marker := effectMarker
        input := remainingTypeForSubset effectMarkers subset
        output := remainingTypeForSubset effectMarkers (subset &&& ~~~bit width effectIndex) }

/-- The `with_effect_impls` of `generate_full`. -/
def withEffectImpls (width : Nat) (effectMarkers : List M) : List (WithEffectImpl M) :=
  if effectMarkers.isEmpty then []
  else (subsetsTo (allEffects width effectMarkers)).flatMap (implsForSubset effectMarkers)

end Generate

/-- The generated registration: what is bound, the effects so far, and the type of those to come. -/
structure Registration (Binding AttachEffect M : Type) where
  binding : Binding
  effects : List AttachEffect
  remaining : Remaining M

namespace Registration

variable {Binding Builder M : Type} [DecidableEq M]

/-- `with_effect`, resolved to a marker: there has to be an implementation for the
marker and the remaining effects. -/
def withEffect {AttachEffect : Type} (impls : List (WithEffectImpl M))
    (registration : Registration Binding AttachEffect M) (call : M × AttachEffect) :
    Option (Registration Binding AttachEffect M) :=
  (impls.find? fun impl => impl.marker = call.1 ∧ impl.input = registration.remaining).map
    fun impl => ⟨registration.binding, registration.effects ++ [call.2], impl.output⟩

/-- `attach_to`, which only a ready registration has. -/
def attachTo (registration : Registration Binding (Builder → Builder) M)
    (_ready : registration.remaining = .ready) (bind : Builder → Binding → Builder)
    (builder : Builder) : Builder :=
  registration.effects.foldl (fun builder effect => effect builder)
    (bind builder registration.binding)

end Registration

/-! ### What a remaining type lists -/

section Lists

variable {M : Type} {width : Nat} {effectMarkers : List M} {subset : BitVec width}

/-- The registration type that needs these effects. -/
def Remaining.ofList : List M → Remaining M := List.foldr .needs .ready

theorem Remaining.ofList_injective : Function.Injective (Remaining.ofList (M := M)) := by
  intro markers
  induction markers with
  | nil =>
      intro others same
      cases others with
      | nil => rfl
      | cons other others => cases same
  | cons marker markers ih =>
      intro others same
      cases others with
      | nil => cases same
      | cons other others =>
          injection same with head tail
          rw [head, ih tail]

/-- The test for an effect reads its bit. -/
theorem filter_test (effectMarkers : List M) (subset : BitVec width) :
    effectMarkers.zipIdx.filter (fun entry => subset &&& bit width entry.2 != 0) =
      effectMarkers.zipIdx.filter fun entry => subset.getLsbD entry.2 := by
  apply List.filter_congr
  intro entry _
  rw [Bool.eq_iff_iff, bne_iff_ne]
  exact test_iff

/-- The type of a subset needs exactly the selected markers, in their order. -/
theorem remainingTypeForSubset_eq (effectMarkers : List M) (subset : BitVec width) :
    remainingTypeForSubset effectMarkers subset = .ofList (select effectMarkers subset) := by
  rw [remainingTypeForSubset, List.filter_reverse, List.foldl_reverse, filter_test,
    Remaining.ofList, select, List.foldr_map]

theorem allEffects_eq (bound : effectMarkers.length < width) :
    allEffects width effectMarkers = full width effectMarkers.length := by
  unfold allEffects
  cases effectMarkers with
  | cons marker markers => rfl
  | nil =>
      apply BitVec.eq_of_toNat_eq
      rw [toNat_full bound]
      rfl

theorem mem_subsetsTo {last : BitVec width} :
    subset ∈ subsetsTo last ↔ subset ≠ 0 ∧ subset ≤ last := by
  have small : ∀ k, k ≤ last.toNat → (BitVec.ofNat width k).toNat = k := by
    intro k within
    rw [BitVec.toNat_ofNat, Nat.mod_eq_of_lt]
    exact within.trans_lt last.isLt
  rw [subsetsTo, List.mem_map]
  constructor
  · rintro ⟨k, inside, rfl⟩
    rw [List.mem_range'_1] at inside
    have value := small k (by omega)
    constructor
    · intro zero
      have none : (BitVec.ofNat width k).toNat = 0 := congrArg BitVec.toNat zero
      omega
    · rw [BitVec.le_def, value]
      omega
  · rintro ⟨nonzero, within⟩
    rw [BitVec.le_def] at within
    have positive : subset.toNat ≠ 0 := by
      intro zero
      exact nonzero (BitVec.eq_of_toNat_eq zero)
    refine ⟨subset.toNat, ?_, ?_⟩
    · rw [List.mem_range'_1]
      omega
    · rw [BitVec.ofNat_toNat, BitVec.setWidth_eq]

theorem nodup_subsetsTo (last : BitVec width) : (subsetsTo last).Nodup := by
  apply List.Nodup.map_on _ List.nodup_range'
  intro k inside l inside' same
  rw [List.mem_range'_1] at inside inside'
  have values := congrArg BitVec.toNat same
  have bound := last.isLt
  rw [BitVec.toNat_ofNat, BitVec.toNat_ofNat, Nat.mod_eq_of_lt (by omega),
    Nat.mod_eq_of_lt (by omega)] at values
  exact values

/-! ### The generated implementations -/

/-- One subset has one implementation for each of its markers. -/
theorem mem_implsForSubset [DecidableEq M] (distinct : effectMarkers.Nodup)
    {impl : WithEffectImpl M} :
    impl ∈ implsForSubset effectMarkers subset ↔ impl.marker ∈ select effectMarkers subset ∧
      impl.input = .ofList (select effectMarkers subset) ∧
      impl.output = .ofList ((select effectMarkers subset).erase impl.marker) := by
  rw [implsForSubset, filter_test, List.mem_map]
  constructor
  · rintro ⟨⟨marker, index⟩, chosen, rfl⟩
    obtain ⟨inside, set⟩ := List.mem_filter.mp chosen
    have at_index := List.mk_mem_zipIdx_iff_getElem?.mp inside
    refine ⟨mem_select.mpr ⟨index, at_index, set⟩, ?_, ?_⟩
    · exact remainingTypeForSubset_eq _ _
    · dsimp only
      rw [remainingTypeForSubset_eq, select_clear distinct at_index]
  · obtain ⟨marker, input, output⟩ := impl
    rintro ⟨member, isInput, isOutput⟩
    obtain ⟨index, at_index, set⟩ := mem_select.mp member
    refine ⟨(marker, index), List.mem_filter.mpr ⟨?_, set⟩, ?_⟩
    · exact List.mk_mem_zipIdx_iff_getElem?.mpr at_index
    · dsimp only at isInput isOutput ⊢
      rw [remainingTypeForSubset_eq, remainingTypeForSubset_eq, select_clear distinct at_index,
        isInput, isOutput]

/-- There is an implementation for each subset and each of its markers, and no other. -/
theorem mem_withEffectImpls [DecidableEq M] (distinct : effectMarkers.Nodup)
    (bound : effectMarkers.length < width) {impl : WithEffectImpl M} :
    impl ∈ withEffectImpls width effectMarkers ↔
      ∃ subset : BitVec width, subset ≤ full width effectMarkers.length ∧
        impl.marker ∈ select effectMarkers subset ∧
        impl.input = .ofList (select effectMarkers subset) ∧
        impl.output = .ofList ((select effectMarkers subset).erase impl.marker) := by
  unfold withEffectImpls
  cases empty : effectMarkers.isEmpty with
  | true =>
      rw [List.isEmpty_iff.mp empty]
      constructor
      · intro none
        cases none
      · rintro ⟨subset, _, member, _⟩
        cases (select_sublist [] subset).subset member
  | false =>
      rw [if_neg (by decide), List.mem_flatMap, allEffects_eq bound]
      constructor
      · rintro ⟨subset, among, generated⟩
        exact ⟨subset, (mem_subsetsTo.mp among).2, (mem_implsForSubset distinct).mp generated⟩
      · rintro ⟨subset, within, member, same⟩
        refine ⟨subset, mem_subsetsTo.mpr ⟨?_, within⟩,
          (mem_implsForSubset distinct).mpr ⟨member, same⟩⟩
        rintro rfl
        rw [select_zero] at member
        cases member

/-- What resolution looks an implementation up by. -/
def WithEffectImpl.key (impl : WithEffectImpl M) : M × Remaining M := (impl.marker, impl.input)

theorem keys_implsForSubset (effectMarkers : List M) (subset : BitVec width) :
    (implsForSubset effectMarkers subset).map WithEffectImpl.key =
      (select effectMarkers subset).map fun marker =>
        (marker, remainingTypeForSubset effectMarkers subset) := by
  rw [implsForSubset, filter_test, List.map_map, select, List.map_map]
  rfl

/-- No two implementations are for the same marker and the same remaining effects. -/
theorem nodup_keys (distinct : effectMarkers.Nodup) (bound : effectMarkers.length < width) :
    ((withEffectImpls width effectMarkers).map WithEffectImpl.key).Nodup := by
  unfold withEffectImpls
  split
  · exact List.nodup_nil
  · rw [List.map_flatMap, List.nodup_flatMap]
    constructor
    · intro subset _
      rw [keys_implsForSubset]
      apply ((select_sublist effectMarkers subset).nodup distinct).map
      intro marker marker' same
      exact congrArg Prod.fst same
    · apply (nodup_subsetsTo _).pairwise_of_forall_ne
      intro subset among subset' among' ne key inside inside'
      dsimp only at inside inside'
      rw [keys_implsForSubset] at inside inside'
      obtain ⟨marker, _, rfl⟩ := List.mem_map.mp inside
      obtain ⟨marker', _, same⟩ := List.mem_map.mp inside'
      have inputs := congrArg Prod.snd same
      rw [remainingTypeForSubset_eq, remainingTypeForSubset_eq] at inputs
      rw [allEffects_eq bound] at among among'
      exact ne (select_injective distinct bound (mem_subsetsTo.mp among).2
        (mem_subsetsTo.mp among').2 (Remaining.ofList_injective inputs).symm)

end Lists

/-! ### Sequences of registrations -/

section Sequences

variable {Binding AttachEffect M : Type} [DecidableEq M] {width : Nat} {effectMarkers : List M}
  {subset : BitVec width} {registration : Registration Binding AttachEffect M}

/-- A call registers an effect that is still needed, and no other. -/
theorem withEffect_eq (distinct : effectMarkers.Nodup) (bound : effectMarkers.length < width)
    (within : subset ≤ full width effectMarkers.length)
    (remaining : registration.remaining = .ofList (select effectMarkers subset))
    (call : M × AttachEffect) :
    registration.withEffect (withEffectImpls width effectMarkers) call =
      if call.1 ∈ select effectMarkers subset then
        some ⟨registration.binding, registration.effects ++ [call.2],
          .ofList ((select effectMarkers subset).erase call.1)⟩
      else none := by
  unfold Registration.withEffect
  cases found : (withEffectImpls width effectMarkers).find? fun impl =>
      decide (impl.marker = call.1 ∧ impl.input = registration.remaining) with
  | some impl =>
      have matched := List.find?_some found
      obtain ⟨marker, input⟩ := of_decide_eq_true matched
      obtain ⟨subset', _, member, input', output⟩ :=
        (mem_withEffectImpls distinct bound).mp (List.mem_of_find?_eq_some found)
      have same : select effectMarkers subset' = select effectMarkers subset :=
        Remaining.ofList_injective (input'.symm.trans (input.trans remaining))
      rw [same, marker] at member output
      rw [if_pos member, Option.map_some, output]
  | none =>
      rw [if_neg]
      · rfl
      · intro member
        have generated : WithEffectImpl.mk call.1 (.ofList (select effectMarkers subset))
            (.ofList ((select effectMarkers subset).erase call.1)) ∈
              withEffectImpls width effectMarkers :=
          (mem_withEffectImpls distinct bound).mpr ⟨subset, within, member, rfl, rfl⟩
        have unmatched := List.find?_eq_none.mp found _ generated
        exact unmatched (decide_eq_true ⟨rfl, remaining.symm⟩)

/-- From any set of remaining effects: the calls all resolve and leave a ready
registration exactly when they are a permutation of the set. By induction on the
calls, each of which clears the bit of its effect. -/
theorem registers_iff (distinct : effectMarkers.Nodup) (bound : effectMarkers.length < width)
    (calls : List (M × AttachEffect)) (within : subset ≤ full width effectMarkers.length)
    (remaining : registration.remaining = .ofList (select effectMarkers subset)) :
    (∃ ready : Registration Binding AttachEffect M,
      calls.foldlM (·.withEffect (withEffectImpls width effectMarkers) ·) registration = some ready ∧
        ready.remaining = .ready) ↔
      (calls.map Prod.fst).Perm (select effectMarkers subset) := by
  induction calls generalizing registration subset with
  | nil =>
      rw [List.map_nil, List.nil_perm]
      constructor
      · rintro ⟨ready, same, isReady⟩
        cases same
        exact Remaining.ofList_injective (remaining.symm.trans isReady)
      · intro none
        rw [none] at remaining
        exact ⟨registration, rfl, remaining⟩
  | cons call calls ih =>
      rw [List.map_cons, List.cons_perm_iff_perm_erase, List.foldlM_cons,
        withEffect_eq distinct bound within remaining]
      by_cases member : call.1 ∈ select effectMarkers subset
      · obtain ⟨index, at_index, _⟩ := mem_select.mp member
        have cleared : select effectMarkers (subset &&& ~~~bit width index) = _ :=
          select_clear distinct at_index
        rw [if_pos member, ← cleared]
        have next := @ih (subset &&& ~~~bit width index)
          ⟨registration.binding, registration.effects ++ [call.2],
            .ofList (select effectMarkers (subset &&& ~~~bit width index))⟩
          (BitVec.le_trans (clear_le subset index) within) rfl
        simpa [member] using next
      · rw [if_neg member]
        simp [member]

/-- What was registered, in order. -/
theorem registered_effects {impls : List (WithEffectImpl M)} {calls : List (M × AttachEffect)}
    {ready : Registration Binding AttachEffect M}
    (registered : calls.foldlM (·.withEffect impls ·) registration = some ready) :
    ready.binding = registration.binding ∧
      ready.effects = registration.effects ++ calls.map Prod.snd := by
  induction calls generalizing registration with
  | nil =>
      cases registered
      exact ⟨rfl, (List.append_nil _).symm⟩
  | cons call calls ih =>
      rw [List.foldlM_cons] at registered
      obtain ⟨next, first, rest⟩ := Option.bind_eq_some_iff.mp registered
      obtain ⟨impl, _, rfl⟩ := Option.map_eq_some_iff.mp first
      obtain ⟨binding, effects⟩ := ih rest
      refine ⟨binding, ?_⟩
      rw [effects, List.append_assoc, List.map_cons]
      rfl

/-- Attaching a registration binds the service and then each registered effect, in order. -/
theorem attachTo_registered {Builder : Type} {impls : List (WithEffectImpl M)}
    {calls : List (M × (Builder → Builder))} {binding : Binding} {remaining : Remaining M}
    {ready : Registration Binding (Builder → Builder) M}
    (registered : calls.foldlM (·.withEffect impls ·) ⟨binding, [], remaining⟩ = some ready)
    (isReady : ready.remaining = .ready) (bind : Builder → Binding → Builder) (builder : Builder) :
    ready.attachTo isReady bind builder =
      (calls.map Prod.snd).foldl (fun builder effect => effect builder) (bind builder binding) := by
  obtain ⟨sameBinding, effects⟩ := registered_effects registered
  rw [Registration.attachTo, sameBinding, effects]
  rfl

end Sequences

/-- For any distinct markers, fewer than the bits of a word: a sequence of `with_effect`
calls resolves and ends in the registration that has `attach_to` exactly when it
registers every effect once, in any order, and the generated implementations never
overlap. -/
theorem effects_registered_exactly_once {Binding AttachEffect M : Type} [DecidableEq M]
    (width : Nat) (effectMarkers : List M) (distinct : effectMarkers.Nodup)
    (bound : effectMarkers.length < width) (binding : Binding) :
    (∀ calls : List (M × AttachEffect),
      (∃ ready : Registration Binding AttachEffect M,
        calls.foldlM (·.withEffect (withEffectImpls width effectMarkers) ·)
          ⟨binding, [], initialRemainingEffects width effectMarkers⟩ = some ready ∧
          ready.remaining = .ready) ↔
        (calls.map Prod.fst).Perm effectMarkers) ∧
    (withEffectImpls width effectMarkers).Pairwise fun impl impl' =>
      ¬ (impl.marker = impl'.marker ∧ impl.input = impl'.input) := by
  constructor
  · intro calls
    have initial : initialRemainingEffects width effectMarkers =
        .ofList (select effectMarkers (full width effectMarkers.length)) := by
      rw [initialRemainingEffects, allEffects_eq bound, remainingTypeForSubset_eq]
    let fresh : Registration Binding AttachEffect M :=
      ⟨binding, [], initialRemainingEffects width effectMarkers⟩
    have remaining : fresh.remaining =
        .ofList (select effectMarkers (full width effectMarkers.length)) := initial
    have registers := registers_iff distinct bound calls (BitVec.le_refl _) remaining
    rw [select_full bound] at registers
    exact registers
  · have apart := List.pairwise_map.mp (nodup_keys distinct bound)
    apply apart.imp
    intro impl impl' ne same
    exact ne (Prod.ext same.1 same.2)

/-- Two effects in the reverse order. -/
theorem two_effects_registered :
    (["audit", "metrics"].Nodup ∧ ["audit", "metrics"].length < 64) ∧
      ∃ ready : Registration Unit String String,
        [("metrics", "MetricsRecorder"), ("audit", "ConsoleAuditLog")].foldlM
          (·.withEffect (withEffectImpls 64 ["audit", "metrics"]) ·)
          ⟨(), [], initialRemainingEffects 64 ["audit", "metrics"]⟩ = some ready ∧
          ready.remaining = .ready := by
  have distinct : ["audit", "metrics"].Nodup := by decide
  have bound : ["audit", "metrics"].length < 64 := by decide
  refine ⟨⟨distinct, bound⟩, ?_⟩
  exact ((effects_registered_exactly_once 64 ["audit", "metrics"] distinct bound ()).1 _).mpr
    (List.Perm.swap ..)

end WeeEvents.Restate
