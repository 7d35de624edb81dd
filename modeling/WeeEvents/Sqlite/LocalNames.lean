import Mathlib
import WeeEvents.Sqlite.Base32

/-!
# Partitions and their files

Where the shipped strategies route an aggregate, which file of the root the
partition has, and which partition that file is read back as.
-/
namespace WeeEvents.Sqlite

/-! ### File names -/

theorem stripPrefix_append (pre s : String) : stripPrefix (pre ++ s) pre = some s := by
  rw [stripPrefix, String.toList_append, if_pos (List.prefix_append ..), ← String.length_toList,
    List.drop_left, String.ofList_toList]

theorem fromUtf8_toUTF8 (s : String) : fromUtf8 s.toUTF8.toList = some s := by
  rw [fromUtf8, byteArray_toList]
  exact dif_pos s.isValidUTF8

/-- A file name with the extension of a database. -/
theorem splitExtension_db {stem : String} (nonempty : stem ≠ "") :
    splitExtension (stem ++ ".db") = (stem, some "db") := by
  have letters : (stem ++ ".db").toList.reverse = 'b' :: 'd' :: '.' :: stem.toList.reverse := by
    rw [String.toList_append, List.reverse_append]
    rfl
  have some_left : stem.toList.reverse ≠ [] := by
    simpa using nonempty
  obtain ⟨last, front, split⟩ := List.exists_cons_of_ne_nil some_left
  rw [splitExtension, letters, split]
  have back : (last :: front).reverse = stem.toList := by
    rw [← split, List.reverse_reverse]
  simp [back]

section Files

variable [Base32Nopad]

/-- The file name of a named partition. -/
def databaseFile (name : String) : String := encodePathComponent name ++ ".db"

theorem decodePathComponent_encodePathComponent (name : String) :
    decodePathComponent (encodePathComponent name) = .ok name := by
  rw [decodePathComponent, encodePathComponent, stripPrefix_append]
  simp only [Base32Nopad.decode_encode, fromUtf8_toUTF8]

theorem splitExtension_databaseFile (name : String) :
    splitExtension (databaseFile name) = (encodePathComponent name, some "db") := by
  apply splitExtension_db
  intro empty
  have length := congrArg String.length empty
  rw [encodePathComponent, String.length_append] at length
  have four : encodedPathPrefix.length = 4 := by decide
  simp [four] at length

theorem databaseFile_injective : Function.Injective databaseFile := by
  intro name name' same
  have stem := congrArg (fun file => (splitExtension file).1) same
  simp only [splitExtension_databaseFile] at stem
  have decoded := congrArg decodePathComponent stem
  rw [decodePathComponent_encodePathComponent, decodePathComponent_encodePathComponent] at decoded
  exact Except.ok.inj decoded

end Files

/-! ### Numbers -/

theorem le_ofDigitChars (digits : List Char) (n : Nat) : n ≤ Nat.ofDigitChars 10 digits n := by
  induction digits generalizing n with
  | nil => simp
  | cons c digits ih =>
      rw [Nat.ofDigitChars_cons]
      have later := ih (10 * n + (c.toNat - '0'.toNat))
      omega

theorem parseDigits_ok {digits : List Char} {n : Nat} (decimal : ∀ c ∈ digits, c.isDigit = true)
    (small : Nat.ofDigitChars 10 digits n < 2 ^ 32) :
    parseDigits n digits = .ok (Nat.ofDigitChars 10 digits n) := by
  induction digits generalizing n with
  | nil => simp [parseDigits]
  | cons c digits ih =>
      rw [Nat.ofDigitChars_cons] at small ⊢
      have bound := le_ofDigitChars digits (10 * n + (c.toNat - '0'.toNat))
      have rest := ih (fun c' member => decimal c' (List.mem_cons_of_mem _ member)) small
      have digit := decimal c List.mem_cons_self
      rw [parseDigits, digit, Bool.not_true, if_neg Bool.false_ne_true, if_neg (by omega)]
      dsimp only
      rw [Nat.mul_comm n 10, if_neg (by omega), rest]

theorem parseU32_toString (n : UInt32) : parseU32 (toString n.toNat) = .ok n := by
  have decimal : ∀ c ∈ Nat.toDigits 10 n.toNat, c.isDigit = true :=
    fun c member => Nat.isDigit_of_mem_toDigits (by decide) (by decide) member
  have value : parseDigits 0 (Nat.toDigits 10 n.toNat) = .ok n.toNat := by
    rw [parseDigits_ok decimal (by simpa using n.toNat_lt), Nat.ofDigitChars_ten_toDigits]
  have text : (toString n.toNat).toList = Nat.toDigits 10 n.toNat := Nat.toList_repr
  unfold parseU32
  rw [text]
  split
  · next empty => exact absurd empty Nat.toDigits_ne_nil
  · next plus =>
      rw [plus] at decimal
      exact absurd (decimal '+' (by simp)) (by decide)
  · next digits plus =>
      rw [plus] at decimal
      exact absurd (decimal '+' (by simp)) (by decide)
  · rw [value]
    simp [Except.map]

/-! ### Partitions and files -/

section Partitions

variable {P D T : Type} [Base32Nopad]

theorem mem_encodePathComponent {name : String} {c : Char}
    (member : c ∈ (encodePathComponent name).toList) :
    c ∈ encodedPathPrefix.toList ∨ c.isUpper ∨ c ∈ "234567".toList := by
  rw [encodePathComponent, String.toList_append, List.mem_append] at member
  exact member.imp_right (Base32Nopad.alphabet _ c)

/-- The letters of a stem: no dot, and no separator of any platform. -/
theorem encodePathComponent_letters (name : String) :
    '.' ∉ (encodePathComponent name).toList ∧ '/' ∉ (encodePathComponent name).toList ∧
      '\\' ∉ (encodePathComponent name).toList := by
  refine ⟨fun member => ?_, fun member => ?_, fun member => ?_⟩
  all_goals
    rcases mem_encodePathComponent member with inPrefix | upper | digit
    · exact absurd inPrefix (by decide)
    · exact absurd upper (by decide)
    · exact absurd digit (by decide)

theorem databaseFile_separators (name : String) :
    '/' ∉ (databaseFile name).toList ∧ '\\' ∉ (databaseFile name).toList := by
  obtain ⟨-, slash, backslash⟩ := encodePathComponent_letters name
  rw [databaseFile, String.toList_append]
  constructor
  · intro member
    rcases List.mem_append.mp member with inStem | inSuffix
    · exact slash inStem
    · exact absurd inSuffix (by decide)
  · intro member
    rcases List.mem_append.mp member with inStem | inSuffix
    · exact backslash inStem
    · exact absurd inSuffix (by decide)

theorem pathForPartition_named {strategy : LocalPartitionStrategy P D} {partition : P} {name : String}
    (layout : strategy.localPartitionLayout = .namedDatabases)
    (named : strategy.partitionName partition = .named name) :
    pathForPartition strategy partition = .ok (.inRoot (databaseFile name)) := by
  rw [pathForPartition, layout]
  simp only [named]
  rfl

/-- The file of a partition is discovered as the partition its name restores. -/
theorem discoverNamed_databaseFile {strategy : LocalPartitionStrategy P D} {partition : P}
    {name : String} (restored : strategy.partitionFromName name = .ok partition) :
    discoverNamed strategy [databaseFile name] = .ok [partition] := by
  simp only [discoverNamed, splitExtension_databaseFile, decodePathComponent_encodePathComponent,
    restored]

/-- The file of the partition an aggregate is routed to. -/
def fileForAggregate (strategy : LocalPartitionStrategy P D) (id : AggregateId) :
    Except BackendError LocalPath :=
  match strategy.partitionForAggregate id with
  | .error e => .error e
  | .ok partition => pathForPartition strategy partition

/-- Every aggregate's partition has a file in the root that is read back as that partition, step
by step, and partitions that are not the same do not share one. -/
structure FilesRoundTrip (strategy : LocalPartitionStrategy P D) : Prop where
  restored : ∀ id, ∃ partition name stem, strategy.partitionForAggregate id = .ok partition ∧
    strategy.partitionName partition = .named name ∧ stem = encodePathComponent name ∧
    pathForPartition strategy partition = .ok (.inRoot (stem ++ ".db")) ∧
    splitExtension (stem ++ ".db") = (stem, some "db") ∧ decodePathComponent stem = .ok name ∧
    strategy.partitionFromName name = .ok partition ∧
    discoverNamed strategy [stem ++ ".db"] = .ok [partition] ∧
    '.' ∉ stem.toList ∧ '/' ∉ (stem ++ ".db").toList ∧ '\\' ∉ (stem ++ ".db").toList
  separate : ∀ id id', fileForAggregate strategy id = fileForAggregate strategy id' ↔
    strategy.partitionForAggregate id = strategy.partitionForAggregate id'

/-- It is enough that the name of a partition restores it. -/
theorem FilesRoundTrip.of_names {strategy : LocalPartitionStrategy P D}
    (layout : strategy.localPartitionLayout = .namedDatabases)
    (names : ∀ id, ∃ partition name, strategy.partitionForAggregate id = .ok partition ∧
      strategy.partitionName partition = .named name ∧
      strategy.partitionFromName name = .ok partition) : FilesRoundTrip strategy where
  restored id := by
    obtain ⟨partition, name, routed, named, restored⟩ := names id
    obtain ⟨slash, backslash⟩ := databaseFile_separators name
    exact ⟨partition, name, _, routed, named, rfl, pathForPartition_named layout named,
      splitExtension_databaseFile name, decodePathComponent_encodePathComponent name, restored,
      discoverNamed_databaseFile restored, (encodePathComponent_letters name).1, slash, backslash⟩
  separate id id' := by
    constructor
    · intro same
      obtain ⟨partition, name, routed, named, restored⟩ := names id
      obtain ⟨partition', name', routed', named', restored'⟩ := names id'
      rw [fileForAggregate, fileForAggregate, routed, routed'] at same
      dsimp only at same
      rw [pathForPartition_named layout named, pathForPartition_named layout named'] at same
      obtain rfl := databaseFile_injective (LocalPath.inRoot.inj (Except.ok.inj same))
      rw [routed, routed', ← restored, ← restored']
    · intro same
      rw [fileForAggregate, fileForAggregate, same]

omit [Base32Nopad] in
/-- A bucket is restored from the decimal number in its name. -/
theorem partitionFromName_bucketName (buckets : { n : UInt32 // n ≠ 0 }) (bucket : UInt32) :
    (hashedStrategy (D := D) buckets).partitionFromName (bucketName bucket) =
      .ok (bucketPartition bucket) := by
  simp only [hashedStrategy, bucketName, stripPrefix_append, parseU32_toString]

/-- Under the strategies that name their partitions by type, by bucket and by the partitioner's
text, every partition is restored from its file. -/
theorem partition_files_round_trip (D : Type) :
    FilesRoundTrip (typeStrategy (D := D)) ∧
      (∀ buckets, FilesRoundTrip (hashedStrategy (D := D) buckets)) ∧
      ∀ partitioner, FilesRoundTrip (partitionByStrategy (D := D) partitioner) := by
  refine ⟨.of_names rfl fun id => ?_, fun buckets => .of_names rfl fun id => ?_,
    fun partitioner => .of_names rfl fun id => ?_⟩
  · exact ⟨typePartition id.aggregateType, id.aggregateType.text, rfl, rfl, rfl⟩
  · exact ⟨bucketPartition (hashAggregateId id % buckets.val), _, rfl, rfl,
      partitionFromName_bucketName buckets _⟩
  · exact ⟨textPartition (partitioner id), partitioner id, rfl, rfl, rfl⟩

end Partitions
end WeeEvents.Sqlite
